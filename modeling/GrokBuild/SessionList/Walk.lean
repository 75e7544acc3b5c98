import GrokBuild.SessionList.Pages

/-!
# Session lists: walking the pages

A listing without the conversations' lane, page after page. Every page reads
the same window of `over_fetch(limit)` merged sessions and shows what is
behind the cursor in it, so that a walk shows the window once, in order, and
nothing behind it.
-/

namespace GrokBuild.SessionList

open TextLines Paging List Option

/-! ## The merged list is sorted by the rows' key -/

section Sorted

variable (env : MergeEnv)

/-- Each session is filed under its id. -/
structure Filed (m : List (Text × MergedSession)) : Prop where
  nodup : (Assoc.keys m).Nodup
  id : ∀ e ∈ m, e.2.sessionId = e.1

theorem Filed.nil : Filed [] where
  nodup := nodup_nil
  id e he := by cases he

theorem Filed.insert {m : List (Text × MergedSession)} (h : Filed m) (s : MergedSession) :
    Filed (Assoc.insert m s.sessionId s) where
  nodup := Assoc.nodup_insert h.nodup _ _
  id e he := by
    rcases Assoc.mem_insert he with rfl | he
    · rfl
    · exact h.id e he

theorem filed_byId (remote : List SessionRecord) (localSummaries : List Summary) (query : Option Text)
    (localRepoUrls : List Text) : Filed (byId env remote localSummaries query localRepoUrls) := by
  have hhere : ∀ (found : List Summary) (m : List (Text × MergedSession)), Filed m →
      Filed (found.foldl (fun m s => Assoc.insert m s.id (ofSummary env s)) m) := by
    intro found
    induction found with
    | nil => exact fun m hm => hm
    | cons s found ih => exact fun m hm => ih _ (hm.insert (ofSummary env s))
  have hthere : ∀ (records : List SessionRecord) (m : List (Text × MergedSession)), Filed m →
      Filed (records.foldl
        (fun m r => Assoc.insert m r.sessionId (ofRecord env r (Assoc.get? m r.sessionId))) m) := by
    intro records
    induction records with
    | nil => exact fun m hm => hm
    | cons r records ih => exact fun m hm => ih _ (hm.insert (ofRecord env r _))
  exact hthere _ _ (hhere _ _ .nil)

theorem Filed.ids {m : List (Text × MergedSession)} (h : Filed m) :
    ((m.map (·.2)).map (·.sessionId)).Nodup := by
  have hids : (m.map (·.2)).map (·.sessionId) = Assoc.keys m := by
    rw [List.map_map]
    exact map_congr_left h.id
  rw [hids]
  exact h.nodup

theorem dedup_sublist (seen : List Text) (sessions : List MergedSession) :
    (dedupEmptySessions seen sessions).Sublist sessions := by
  induction sessions generalizing seen with
  | nil => exact .slnil
  | cons s sessions ih =>
    unfold dedupEmptySessions
    split
    · split
      · exact (ih seen).cons _
      · exact (ih _).cons_cons _
    · exact (ih seen).cons_cons _

theorem ordered_mergeAll (remote : List SessionRecord) (localSummaries : List Summary)
    (query : Option Text) (localRepoUrls : List Text) :
    Ordered (mergeKey env) (mergeAll env remote localSummaries query localRepoUrls) := by
  refine (ordered_sortBy ?_).sublist (dedup_sublist _ _)
  have hids := (filed_byId env remote localSummaries query localRepoUrls).ids
  refine List.Nodup.of_map (fun key : TimeKey ×ₗ Text => (ofLex key).2) ?_
  rw [List.map_map]
  exact hids

theorem timestamp_row (m : MergedSession) :
    (mergedSessionToRow env m).updatedAt.bind env.chrono.parseFromRfc3339 =
      effectiveSortTime env m := by
  have hparsed : ∀ t, effectiveSortTime env m = some t →
      ∃ s, env.chrono.parseFromRfc3339 s = some t := by
    intro t ht
    rcases or_eq_some_iff.mp ht with hactive | ⟨-, hupdated⟩
    · obtain ⟨s, -, hs⟩ := bind_eq_some_iff.mp hactive
      exact ⟨s, hs⟩
    · exact ⟨_, hupdated⟩
  show ((effectiveSortTime env m).map env.chrono.toRfc3339).bind _ = _
  cases heffective : effectiveSortTime env m with
  | none => rfl
  | some t =>
    obtain ⟨s, hs⟩ := hparsed t heffective
    exact env.chrono.parse_toRfc3339 s t hs

theorem rowSortKey_row (m : MergedSession) :
    rowSortKey env.chrono (mergedSessionToRow env m) =
      toLex (timeKey (effectiveSortTime env m), toLex (0, m.sessionId)) := by
  rw [rowSortKey, timestamp_row]
  rfl

theorem ordered_toRows {merged : List MergedSession} (h : Ordered (mergeKey env) merged) :
    Ordered (rowSortKey env.chrono) (toRows env merged) := by
  rw [Ordered, toRows, pairwise_map]
  refine h.imp fun {a b} hlt => ?_
  rw [rowSortKey_row, rowSortKey_row]
  rcases Prod.Lex.toLex_lt_toLex.mp hlt with htime | ⟨htime, hid⟩
  · exact Prod.Lex.toLex_lt_toLex.mpr (.inl htime)
  · exact Prod.Lex.toLex_lt_toLex.mpr
      (.inr ⟨htime, Prod.Lex.toLex_lt_toLex.mpr (.inr ⟨rfl, hid⟩)⟩)

end Sorted

/-! ## The window of a listing -/

section Window

variable {Wire : Type} (env : MergeEnv) (lanes : Lanes) (req : ListReq Wire)

/-- The rows that the page's lane has without a limit. -/
def wholeLane : List UnifiedRow :=
  if (localLane env lanes req (overFetch req.pageLimit)).2 = .cwd then
    toRows env (mergeAll env lanes.remote lanes.localSummaries req.query lanes.repoUrls)
  else
    toRows env (mergeAll env lanes.remote
      (filterSummariesByRepo env lanes.everywhere lanes.repoUrls) none lanes.repoUrls)

theorem toRows_merge (remote : List SessionRecord) (localSummaries : List Summary)
    (query : Option Text) (localRepoUrls : List Text) (window : Nat) :
    toRows env (merge env remote localSummaries query localRepoUrls window) =
      (toRows env (mergeAll env remote localSummaries query localRepoUrls)).take window :=
  map_take

theorem localLane_eq :
    (localLane env lanes req (overFetch req.pageLimit)).1 =
      (wholeLane env lanes req).take (overFetch req.pageLimit) := by
  unfold wholeLane localLane
  dsimp only
  split
  · split
    · exact toRows_merge env ..
    · have hscope : (if lanes.repoUrls.isEmpty then ListScope.all else .repo) ≠ .cwd := by
        split <;> decide
      dsimp only
      rw [if_neg hscope]
      exact toRows_merge env ..
  · exact toRows_merge env ..

theorem ordered_wholeLane : Ordered (rowSortKey env.chrono) (wholeLane env lanes req) := by
  unfold wholeLane
  split
  · exact ordered_toRows env (ordered_mergeAll env ..)
  · exact ordered_toRows env (ordered_mergeAll env ..)

theorem build_of_mem {row : UnifiedRow} (h : row ∈ wholeLane env lanes req) :
    row.kind = .build := by
  have hrow : ∀ merged, row ∈ toRows env merged → row.kind = .build := by
    intro merged hmem
    obtain ⟨m, -, rfl⟩ := List.mem_map.mp hmem
    rfl
  unfold wholeLane at h
  split at h
  · exact hrow _ h
  · exact hrow _ h

end Window

/-! ## One page of a window -/

section Page

variable (chrono : Chrono)

theorem boundarySortKey_boundaryOf (row : UnifiedRow) :
    boundarySortKey chrono (boundaryOf row) = rowSortKey chrono row := by
  unfold boundarySortKey boundaryOf rowSortKey
  cases row.updatedAt with
  | none => rw [getD_none, chrono.parse_nil]; rfl
  | some updatedAt => rfl

variable {chrono} {window rest : List UnifiedRow}

theorem paginate_skipped (cursor : CompositeCursor) (limit : Nat)
    (hordered : Ordered (rowSortKey chrono) rest)
    (hbehind : behind (rowSortKey chrono) (cursor.boundary.map (boundarySortKey chrono)) window =
      rest) :
    mergeAndPaginate chrono window .skipped cursor limit =
      { candidates := rest
        emitCount := min rest.length limit
        nextCursor :=
          if (rest.drop (min rest.length limit)).any (·.kind = .build) then
            some { cursor with
              boundary := ((rest.take (min rest.length limit)).getLast?.map boundaryOf).or
                cursor.boundary }
          else none
        partialReason := none } := by
  have hkeyed : sortBy (rowSortKey chrono)
      (behind (rowSortKey chrono) (cursor.boundary.map (boundarySortKey chrono))
        (window ++ [])) = rest := by
    rw [append_nil, hbehind]
    exact hordered.sortBy_eq
  unfold mergeAndPaginate
  simp only [hkeyed]
  simp

end Page

/-! ## The walk -/

section Walk

variable {Wire : Type} (env : MergeEnv) (codec : CursorCodec Wire) (lanes : Lanes)
  (req : ListReq Wire)

def noConversations : Option Text → ConvLane := fun _ => .skipped

/-- The cursor a request carries. -/
def cursorOf (cursor : Option Wire) : CompositeCursor := (cursor.map codec.decode).getD {}

variable {env codec lanes req}

theorem build_page {rest : List UnifiedRow} {cursor : Option Wire}
    (hordered : Ordered (rowSortKey env.chrono) rest) (hbuild : ∀ row ∈ rest, row.kind = .build)
    (hbehind : behind (rowSortKey env.chrono)
      ((cursorOf codec cursor).boundary.map (boundarySortKey env.chrono))
      ((wholeLane env lanes req).take (overFetch req.pageLimit)) = rest) :
    (buildUnifiedList env codec lanes noConversations { req with cursor := cursor }).rows =
        rest.take req.pageLimit ∧
      (buildUnifiedList env codec lanes noConversations { req with cursor := cursor }).nextCursor =
        if rest.length ≤ req.pageLimit then none
        else
          some (codec.encode { cursorOf codec cursor with
            boundary := ((rest.take req.pageLimit).getLast?.map boundaryOf).or
              (cursorOf codec cursor).boundary }) := by
  have hlane : (localLane env lanes { req with cursor := cursor } (overFetch req.pageLimit)).1 =
      (wholeLane env lanes req).take (overFetch req.pageLimit) := localLane_eq env lanes req
  have hpage := paginate_skipped (cursorOf codec cursor) req.pageLimit hordered hbehind
  have hmore : (rest.drop (min rest.length req.pageLimit)).any (·.kind = .build) =
      decide (¬ rest.length ≤ req.pageLimit) := by
    by_cases hle : rest.length ≤ req.pageLimit
    · simp [hle]
    · have hmin : min rest.length req.pageLimit = req.pageLimit := by omega
      obtain ⟨row, hrow⟩ : ∃ row, row ∈ rest.drop req.pageLimit :=
        exists_mem_of_length_pos (by rw [length_drop]; omega)
      rw [hmin, decide_eq_true hle, List.any_eq_true]
      exact ⟨row, hrow, decide_eq_true (hbuild row (mem_of_mem_drop hrow))⟩
  have hbuilt : buildUnifiedList env codec lanes noConversations { req with cursor := cursor } =
      let page := mergeAndPaginate env.chrono
        (localLane env lanes { req with cursor := cursor } (overFetch req.pageLimit)).1 .skipped
        (cursorOf codec cursor) req.pageLimit
      { rows := page.candidates.take page.emitCount
        nextCursor := page.nextCursor.map codec.encode
        conversationsPartial := page.partialReason
        scope := (localLane env lanes { req with cursor := cursor }
          (overFetch req.pageLimit)).2 } := rfl
  have htake : rest.take (min rest.length req.pageLimit) = rest.take req.pageLimit := by
    rw [take_eq_take_iff]
    omega
  rw [hbuilt, hlane, hpage]
  refine ⟨htake, ?_⟩
  rw [hmore, htake]
  by_cases hle : rest.length ≤ req.pageLimit <;> simp [hle]

theorem walk_behind (hlimit : 1 ≤ req.pageLimit) (rest : List UnifiedRow) (cursor : Option Wire)
    (hsuffix : rest <:+ (wholeLane env lanes req).take (overFetch req.pageLimit))
    (hbehind : behind (rowSortKey env.chrono)
      ((cursorOf codec cursor).boundary.map (boundarySortKey env.chrono))
      ((wholeLane env lanes req).take (overFetch req.pageLimit)) = rest) :
    ∃ fuel, walk env codec lanes noConversations req fuel cursor = some rest := by
  induction hlength : rest.length using Nat.strong_induction_on generalizing rest cursor with
  | _ length ih =>
    have hwindow : Ordered (rowSortKey env.chrono)
        ((wholeLane env lanes req).take (overFetch req.pageLimit)) :=
      (ordered_wholeLane env lanes req).sublist (take_sublist _ _)
    have hbuild : ∀ row ∈ rest, row.kind = .build := fun row hrow =>
      build_of_mem env lanes req (mem_of_mem_take (hsuffix.mem hrow))
    obtain ⟨hrows, hnext⟩ := build_page (hwindow.sublist hsuffix.sublist) hbuild hbehind
    by_cases hle : rest.length ≤ req.pageLimit
    · refine ⟨1, ?_⟩
      rw [if_pos hle] at hnext
      simp only [walk, hnext, hrows, take_of_length_le hle]
    · -- the last row of the page is the boundary of the rows behind it
      obtain ⟨page, row, hpage⟩ : ∃ page row, rest.take req.pageLimit = page ++ [row] := by
        rcases eq_nil_or_concat' (rest.take req.pageLimit) with hnil | hlast
        · have hempty := congrArg List.length hnil
          rw [length_take, length_nil] at hempty
          omega
        · exact hlast
      have hsplit : rest = page ++ row :: rest.drop req.pageLimit := by
        calc rest = rest.take req.pageLimit ++ rest.drop req.pageLimit :=
              (take_append_drop _ _).symm
          _ = page ++ row :: rest.drop req.pageLimit := by rw [hpage]; simp
      obtain ⟨before, hbefore⟩ := hsuffix
      have hwhole : (wholeLane env lanes req).take (overFetch req.pageLimit) =
          (before ++ page) ++ row :: rest.drop req.pageLimit := by
        rw [← hbefore, append_assoc, ← hsplit]
      have hlast : ((rest.take req.pageLimit).getLast?.map boundaryOf).or
          (cursorOf codec cursor).boundary = some (boundaryOf row) := by
        rw [hpage]
        simp
      rw [if_neg hle, hlast] at hnext
      have hshorter : (rest.drop req.pageLimit).length < length := by
        rw [length_drop]
        omega
      obtain ⟨fuel, hfuel⟩ := ih _ hshorter (rest.drop req.pageLimit) (some (codec.encode
        { cursorOf codec cursor with boundary := some (boundaryOf row) }))
        ⟨(before ++ page) ++ [row], by rw [hwhole]; simp⟩
        (by
          rw [cursorOf, map_some, getD_some, codec.decode_encode, map_some,
            boundarySortKey_boundaryOf, hwhole]
          exact Ordered.behind_last (hwhole ▸ hwindow)) rfl
      refine ⟨fuel + 1, ?_⟩
      simp only [walk, hnext, hfuel, hrows, map_some, take_append_drop]

theorem walk_window (env : MergeEnv) (codec : CursorCodec Wire) (lanes : Lanes)
    (req : ListReq Wire) (hlimit : 1 ≤ req.pageLimit) :
    ∃ fuel, walk env codec lanes noConversations req fuel none =
      some ((wholeLane env lanes req).take (overFetch req.pageLimit)) :=
  walk_behind hlimit _ none suffix_rfl rfl

theorem nodup_ids_wholeLane : ((wholeLane env lanes req).map (·.legacy.sessionId)).Nodup := by
  have hids : ∀ remote localSummaries query localRepoUrls,
      ((toRows env (mergeAll env remote localSummaries query localRepoUrls)).map
        (·.legacy.sessionId)).Nodup := by
    intro remote localSummaries query localRepoUrls
    have hrows : (toRows env (mergeAll env remote localSummaries query localRepoUrls)).map
        (·.legacy.sessionId) =
        (mergeAll env remote localSummaries query localRepoUrls).map (·.sessionId) := by
      rw [toRows, List.map_map]
      rfl
    have hsub := (dedup_sublist [] (sortBy (mergeKey env)
      ((byId env remote localSummaries query localRepoUrls).map (·.2)))).map (·.sessionId)
    rw [hrows]
    refine List.Nodup.sublist hsub ?_
    exact ((sortBy_perm _ _).map _).nodup_iff.mpr (filed_byId env ..).ids
  unfold wholeLane
  split
  · exact hids ..
  · exact hids ..

theorem walk_unique {conv : Option Text → ConvLane} {fuel fuel' : Nat} {cursor : Option Wire}
    {rows rows' : List UnifiedRow} (h : walk env codec lanes conv req fuel cursor = some rows)
    (h' : walk env codec lanes conv req fuel' cursor = some rows') : rows = rows' := by
  induction fuel generalizing fuel' cursor rows rows' with
  | zero => cases h
  | succ fuel ih =>
    cases fuel' with
    | zero => cases h'
    | succ fuel' =>
      unfold walk at h h'
      dsimp only at h h'
      cases hnext : (buildUnifiedList env codec lanes conv
          { req with cursor := cursor }).nextCursor with
      | none =>
        rw [hnext] at h h'
        exact (some.inj h).symm.trans (some.inj h')
      | some next =>
        rw [hnext] at h h'
        obtain ⟨rest, hrest, rfl⟩ := map_eq_some_iff.mp h
        obtain ⟨rest', hrest', rfl⟩ := map_eq_some_iff.mp h'
        rw [ih hrest hrest']

end Walk

/-- A walk ends, and lists the first `over_fetch(limit)` of the sessions that the
merge has without truncation, each once and in the merge order. They are all
of them exactly when there are no more. -/
theorem walk_lists_window {Wire : Type} (env : MergeEnv) (codec : CursorCodec Wire)
    (lanes : Lanes) (req : ListReq Wire) (hlimit : 1 ≤ req.pageLimit) :
    ∃ fuel rows, walk env codec lanes noConversations req fuel none = some rows ∧
      rows = (wholeLane env lanes req).take (overFetch req.pageLimit) ∧
      (rows.map (·.legacy.sessionId)).Nodup ∧
      (rows = wholeLane env lanes req ↔
        (wholeLane env lanes req).length ≤ overFetch req.pageLimit) := by
  obtain ⟨fuel, hfuel⟩ := walk_window env codec lanes req hlimit
  refine ⟨fuel, _, hfuel, rfl, ?_, take_eq_self_iff _⟩
  exact List.Nodup.sublist ((take_sublist _ _).map _) nodup_ids_wholeLane

/-! More sessions with messages than a window holds. -/

section Messaged

variable (env : MergeEnv)

theorem dedup_messaged (seen : List Text) (sessions : List MergedSession)
    (h : ∀ s ∈ sessions, s.numMessages ≠ 0) : dedupEmptySessions seen sessions = sessions := by
  induction sessions with
  | nil => rfl
  | cons s sessions ih =>
    rw [dedupEmptySessions, if_neg (h s mem_cons_self),
      ih fun s' hs' => h s' (mem_cons_of_mem _ hs')]

theorem insert_new {m : List (Text × MergedSession)} {id : Text} (s : MergedSession)
    (h : id ∉ Assoc.keys m) : Assoc.insert m id s = m ++ [(id, s)] := by
  induction m with
  | nil => rfl
  | cons e m ih =>
    have hne : e.1 ≠ id := fun heq => h (List.mem_map.mpr ⟨e, mem_cons_self, heq⟩)
    rw [Assoc.insert, if_neg hne, ih fun hmem => h (mem_cons_of_mem _ hmem)]
    rfl

theorem byId_distinct (summaries : List Summary) (h : (summaries.map (·.id)).Nodup) :
    byId env [] summaries none [] = summaries.map fun s => (s.id, ofSummary env s) := by
  have hfold : ∀ (rest : List Summary) (m : List (Text × MergedSession)),
      (Assoc.keys m ++ rest.map (·.id)).Nodup →
      rest.foldl (fun m s => Assoc.insert m s.id (ofSummary env s)) m =
        m ++ rest.map fun s => (s.id, ofSummary env s) := by
    intro rest
    induction rest with
    | nil => intro m _; simp
    | cons s rest ih =>
      intro m hm
      have hnew : s.id ∉ Assoc.keys m := fun hmem =>
        (nodup_append.mp hm).2.2 _ hmem _ mem_cons_self rfl
      rw [foldl_cons, insert_new _ hnew, ih]
      · simp
      · simpa [Assoc.keys] using hm
  have hfound : summaries.filter (fun s => (none : Option Text).all (matchesQuery env · s)) =
      summaries := by simp
  unfold byId
  rw [hfound, filter_nil, foldl_nil, hfold _ _ (by simpa [Assoc.keys] using h)]
  rfl

theorem length_mergeAll_messaged (summaries : List Summary) (hids : (summaries.map (·.id)).Nodup)
    (hmessages : ∀ s ∈ summaries, s.numMessages ≠ 0) :
    (mergeAll env [] summaries none []).length = summaries.length := by
  unfold mergeAll
  rw [dedup_messaged, (sortBy_perm _ _).length_eq, byId_distinct env summaries hids]
  · simp
  · intro s hs
    have hs' := (sortBy_perm _ _).mem_iff.mp hs
    rw [byId_distinct env summaries hids, List.map_map] at hs'
    obtain ⟨summary, hsummary, rfl⟩ := List.mem_map.mp hs'
    exact hmessages summary hsummary

end Messaged

namespace Crowded

def time : DateTime := ⟨1767225600000000000, 0⟩

def chrono : Chrono where
  parseFromRfc3339 s := if s = "2026-01-01T00:00:00+00:00".toList then some time else none
  toRfc3339 t := if t = time then "2026-01-01T00:00:00+00:00".toList else []
  parse_nil := by decide
  parse_toRfc3339 s t h := by
    split at h
    · cases h
      decide
    · cases h

def env : MergeEnv where
  chrono := chrono
  toLowercase s := s.map Char.toLower
  lookupWorktreeLabel _ := none
  normalizeRepoUrl url := some url

def codec : CursorCodec CompositeCursor where
  encode c := c
  decode c := c
  decode_encode _ := rfl

def summary (n : Nat) : Summary where
  id := Str.decimal n
  cwd := "/w".toList
  sessionSummary := []
  generatedTitle := none
  createdAt := time
  updatedAt := time
  numMessages := 1
  currentModelId := "grok".toList
  lastActiveAt := some time
  headBranch := none
  gitRootDir := none
  gitRemotes := []
  worktreeLabel := none
  sourceWorkspaceDir := none
  sessionKind := none

def lanes : Lanes where
  localSummaries := (List.range 101).map summary
  remote := []
  repoUrls := []
  everywhere := []

def req : ListReq CompositeCursor where
  cwd := some "/w".toList
  query := none
  limit := some 30
  metaLimit := none
  cursor := none
  cwdScope := .withSiblings

end Crowded

theorem walk_lists_window_crowded :
    ∃ fuel rows, walk Crowded.env Crowded.codec Crowded.lanes noConversations Crowded.req fuel
        none = some rows ∧
      rows = (wholeLane Crowded.env Crowded.lanes Crowded.req).take
        (overFetch Crowded.req.pageLimit) ∧
      (rows.map (·.legacy.sessionId)).Nodup ∧
      (rows = wholeLane Crowded.env Crowded.lanes Crowded.req ↔
        (wholeLane Crowded.env Crowded.lanes Crowded.req).length ≤
          overFetch Crowded.req.pageLimit) :=
  walk_lists_window Crowded.env Crowded.codec Crowded.lanes Crowded.req (by decide)

/-- With 101 sessions on disk and 30 to a page, a walk lists 100. -/
theorem crowded_not_reached : ¬ ∀ (Wire : Type) (env : MergeEnv) (codec : CursorCodec Wire)
    (lanes : Lanes) (req : ListReq Wire), lanes.remote = [] → req.query = none →
    1 ≤ req.pageLimit →
    ∃ fuel, walk env codec lanes noConversations req fuel none =
      some (wholeLane env lanes req) := by
  intro h
  obtain ⟨fuel, hall⟩ :=
    h _ Crowded.env Crowded.codec Crowded.lanes Crowded.req rfl rfl (by decide)
  obtain ⟨fuel', hwindow⟩ :=
    walk_window Crowded.env Crowded.codec Crowded.lanes Crowded.req (by decide)
  have htaken := walk_unique hall hwindow
  have hids : (Crowded.lanes.localSummaries.map (·.id)).Nodup := by decide
  have hlength : (wholeLane Crowded.env Crowded.lanes Crowded.req).length = 101 := by
    have hlane : wholeLane Crowded.env Crowded.lanes Crowded.req =
        toRows Crowded.env (mergeAll Crowded.env [] Crowded.lanes.localSummaries none []) := rfl
    rw [hlane, toRows, length_map, length_mergeAll_messaged _ _ hids]
    · rfl
    · intro s hs
      obtain ⟨n, -, rfl⟩ := List.mem_map.mp hs
      exact Nat.one_ne_zero
  have hlong := take_eq_self_iff _ |>.mp htaken.symm
  rw [hlength] at hlong
  exact absurd hlong (by decide)

end GrokBuild.SessionList
