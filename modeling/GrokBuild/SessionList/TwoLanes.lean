import GrokBuild.SessionList.Walk

/-!
# Session lists: walking both lanes

A window of local sessions and a source of conversations that comes in pages,
with one filter on both. A page shows rows up to the frontier of the source's
page only, keeps the source's page until its rows are shown, and starts again
at the first one when local rows are left behind the last. The walk shows
every row that the filter keeps, once and in the total order
(`walk_shows_both_lanes`).
-/

namespace GrokBuild.SessionList

open TextLines Paging List

/-! ## The total order of the rows -/

/-- `Ord::cmp`. -/
def ordCmp {κ : Type*} [LinearOrder κ] (a b : κ) : Ordering := cmp a b

def timestampDesc (a b : Option DateTime) : Ordering :=
  match a, b with
  | some x, some y => ordCmp y.utc x.utc
  | some _, none => .lt
  | none, some _ => .gt
  | none, none => .eq

def cmpTotalOrder (chrono : Chrono) (a b : UnifiedRow) : Ordering :=
  (timestampDesc (a.updatedAt.bind chrono.parseFromRfc3339)
      (b.updatedAt.bind chrono.parseFromRfc3339)).then
    ((ordCmp a.kind.rank b.kind.rank).then (ordCmp a.legacy.sessionId b.legacy.sessionId))

/-- Which of two keys is less is what a comparison says. -/
structure Compares {κ : Type*} [LT κ] (o : Ordering) (a b : κ) : Prop where
  lt : o = .lt ↔ a < b
  eq : o = .eq ↔ a = b
  gt : o = .gt ↔ b < a

theorem compares_ordCmp {κ : Type*} [LinearOrder κ] (a b : κ) : Compares (ordCmp a b) a b where
  lt := cmp_eq_lt_iff a b
  eq := cmp_eq_eq_iff a b
  gt := cmp_eq_gt_iff a b

theorem compares_timestampDesc (a b : Option DateTime) :
    Compares (timestampDesc a b) (timeKey a) (timeKey b) := by
  cases a with
  | none =>
    cases b with
    | none => exact ⟨by simp [timestampDesc], by simp [timestampDesc], by simp [timestampDesc]⟩
    | some y =>
      have hlt : timeKey (some y) < timeKey none := WithBot.bot_lt_coe y.utc
      exact ⟨iff_of_false Ordering.noConfusion hlt.not_gt, iff_of_false Ordering.noConfusion hlt.ne',
        iff_of_true rfl hlt⟩
  | some x =>
    cases b with
    | none =>
      have hlt : timeKey (some x) < timeKey none := WithBot.bot_lt_coe x.utc
      exact ⟨iff_of_true rfl hlt, iff_of_false Ordering.noConfusion hlt.ne,
        iff_of_false Ordering.noConfusion hlt.not_gt⟩
    | some y =>
      have hcmp := compares_ordCmp y.utc x.utc
      have heq : timeKey (some x) = timeKey (some y) ↔ y.utc = x.utc := by
        show OrderDual.toDual (WithBot.some x.utc) = OrderDual.toDual (WithBot.some y.utc) ↔ _
        rw [OrderDual.toDual_inj, WithBot.coe_inj, eq_comm]
      exact ⟨hcmp.lt.trans WithBot.coe_lt_coe.symm, hcmp.eq.trans heq.symm,
        hcmp.gt.trans WithBot.coe_lt_coe.symm⟩

theorem Compares.then {κ ν : Type*} [LinearOrder κ] [LinearOrder ν] {o p : Ordering} {a b : κ}
    {c d : ν} (h : Compares o a b) (h' : Compares p c d) :
    Compares (o.then p) (toLex (a, c)) (toLex (b, d)) where
  lt := by
    rw [Ordering.then_eq_lt, h.lt, h.eq, h'.lt, Prod.Lex.toLex_lt_toLex]
  eq := by
    rw [Ordering.then_eq_eq, h.eq, h'.eq, toLex_inj, Prod.mk.injEq]
  gt := by
    rw [Ordering.then_eq_gt, h.gt, h.eq, h'.gt, Prod.Lex.toLex_lt_toLex, eq_comm]

theorem compares_cmpTotalOrder (chrono : Chrono) (a b : UnifiedRow) :
    Compares (cmpTotalOrder chrono a b) (rowSortKey chrono a) (rowSortKey chrono b) :=
  (compares_timestampDesc _ _).then ((compares_ordCmp _ _).then (compares_ordCmp _ _))

/-! ## The source of conversations -/

/-- Conversations in the total order, cut into pages. The token of a page tells
which one it is. -/
structure ConvSource (chrono : Chrono) where
  pages : List (List UnifiedRow)
  token : Nat → Text
  index : Text → Nat
  index_token : ∀ n, index (token n) = n
  nonempty : ∀ page ∈ pages, page ≠ []
  chat : ∀ row ∈ pages.flatten, row.kind = .chat
  sorted : pages.flatten.Pairwise fun a b => cmpTotalOrder chrono a b ≠ .gt

variable {chrono : Chrono}

def ConvSource.rows (source : ConvSource chrono) : List UnifiedRow := source.pages.flatten

/-- The page that a token stands for; the first one without. -/
def ConvSource.place (source : ConvSource chrono) (pageToken : Option Text) : Nat :=
  (pageToken.map source.index).getD 0

def ConvSource.fetch (source : ConvSource chrono) (pageToken : Option Text) : ConvLane :=
  let i := source.place pageToken
  let rows := source.pages.getD i []
  let nextToken := if i + 1 < source.pages.length then some (source.token (i + 1)) else none
  .page rows nextToken (convFrontier chrono rows nextToken.isSome)

/-- `apply_in_memory_filters` on the lane: the frontier stays. -/
def ConvLane.filter (keep : UnifiedRow → Bool) : ConvLane → ConvLane
  | .page rows nextToken frontier => .page (rows.filter keep) nextToken frontier
  | .skipped => .skipped
  | .degraded reason => .degraded reason

/-- What a walk reads: the window of local sessions, the source, the filter
and the size of a page. No two rows have the same key. -/
structure TwoLanes (chrono : Chrono) where
  window : List UnifiedRow
  source : ConvSource chrono
  keep : UnifiedRow → Bool
  limit : Nat
  build : ∀ row ∈ window, row.kind = .build
  limit_pos : 1 ≤ limit
  distinct : ((window ++ source.rows).map (rowSortKey chrono)).Nodup

namespace TwoLanes

/-- The page at a cursor. -/
def page (lanes : TwoLanes chrono) (cursor : CompositeCursor) : Paginated :=
  mergeAndPaginate chrono (lanes.window.filter lanes.keep)
    ((lanes.source.fetch cursor.convPageToken).filter lanes.keep) cursor lanes.limit

/-- The rows of both lanes that the filter keeps. -/
def kept (lanes : TwoLanes chrono) : List UnifiedRow :=
  (lanes.window ++ lanes.source.rows).filter lanes.keep

/-- Pages from the cursor on, until one has no next cursor. The fuel is the
number of pages. -/
def walk {Wire : Type} (codec : CursorCodec Wire) (lanes : TwoLanes chrono) :
    Nat → Option Wire → Option (List UnifiedRow)
  | 0, _ => none
  | fuel + 1, cursor =>
    let page := lanes.page (cursorOf codec cursor)
    match page.nextCursor.map codec.encode with
    | none => some (page.candidates.take page.emitCount)
    | some next =>
      (walk codec lanes fuel (some next)).map (page.candidates.take page.emitCount ++ ·)

/-! ## One page -/

section Page

variable (lanes : TwoLanes chrono) (cursor : CompositeCursor)

def place : Nat := lanes.source.place cursor.convPageToken

/-- The rows of the source's page. -/
def pageRows : List UnifiedRow := lanes.source.pages.getD (lanes.place cursor) []

/-- The rows of the source behind its page. -/
def laterRows : List UnifiedRow := (lanes.source.pages.drop (lanes.place cursor + 1)).flatten

def nextToken : Option Text :=
  if lanes.place cursor + 1 < lanes.source.pages.length then
    some (lanes.source.token (lanes.place cursor + 1))
  else none

def frontier : Option BoundaryKey :=
  convFrontier chrono (lanes.pageRows cursor) (lanes.nextToken cursor).isSome

def candidates : List UnifiedRow :=
  sortBy (rowSortKey chrono)
    (behind (rowSortKey chrono) (cursor.boundary.map (boundarySortKey chrono))
      (lanes.window.filter lanes.keep ++ (lanes.pageRows cursor).filter lanes.keep))

def emitCount : Nat :=
  let emitCount := min (lanes.candidates cursor).length lanes.limit
  match lanes.frontier cursor with
  | some frontier =>
    min emitCount ((lanes.candidates cursor).takeWhile fun r =>
      rowSortKey chrono r ≤ boundarySortKey chrono frontier).length
  | none => emitCount

def shown : List UnifiedRow := (lanes.candidates cursor).take (lanes.emitCount cursor)

/-- The candidates that the page does not show. -/
def tail : List UnifiedRow := (lanes.candidates cursor).drop (lanes.emitCount cursor)

def nextCursor : Option CompositeCursor :=
  let boundary := ((lanes.shown cursor).getLast?.map boundaryOf).or cursor.boundary
  if (lanes.tail cursor).any (·.kind = .chat) then
    some ⟨boundary, cursor.convPageToken, false⟩
  else if (lanes.tail cursor).any (·.kind = .build) || (lanes.nextToken cursor).isSome then
    some ⟨boundary, lanes.nextToken cursor, true⟩
  else none

theorem page_eq : lanes.page cursor =
    { candidates := lanes.candidates cursor
      emitCount := lanes.emitCount cursor
      nextCursor := lanes.nextCursor cursor
      partialReason := none } := by
  have hpage : lanes.page cursor =
      let boundary := ((lanes.shown cursor).getLast?.map boundaryOf).or cursor.boundary
      let next := if (lanes.tail cursor).any (·.kind = .chat) then
          (cursor.convPageToken, false, true)
        else (lanes.nextToken cursor, true, (lanes.nextToken cursor).isSome)
      { candidates := lanes.candidates cursor
        emitCount := lanes.emitCount cursor
        nextCursor :=
          if (lanes.tail cursor).any (·.kind = .build) || next.2.2 then
            some ⟨boundary, next.1, next.2.1⟩
          else none
        partialReason := none } := rfl
  rw [hpage, nextCursor]
  cases (lanes.tail cursor).any fun row => decide (row.kind = .chat) with
  | true => simp only [if_true, Bool.or_true]
  | false => simp only [Bool.false_eq_true, if_false]

end Page

/-! ## What is left behind a cursor -/

section Standing

variable {lanes : TwoLanes chrono} {cursor : CompositeCursor} {rest : List UnifiedRow}

theorem rows_split (pages : List (List UnifiedRow)) (i : Nat) :
    (pages.take i).flatten ++ (pages.getD i [] ++ (pages.drop (i + 1)).flatten) =
      pages.flatten := by
  induction pages generalizing i with
  | nil =>
    cases i with
    | zero => rfl
    | succ i => rfl
  | cons page pages ih =>
    cases i with
    | zero => rfl
    | succ i =>
      have hrest := ih i
      simp only [take_succ_cons, flatten_cons, getD_cons_succ, drop_succ_cons,
        append_assoc, hrest]

theorem pageRows_sublist : (lanes.pageRows cursor).Sublist lanes.source.rows := by
  rw [ConvSource.rows, ← rows_split lanes.source.pages (lanes.place cursor)]
  exact ((sublist_append_left _ _).trans (sublist_append_right _ _))

theorem ordered_rows (lanes : TwoLanes chrono) :
    Ordered (rowSortKey chrono) lanes.source.rows := by
  have hdistinct := lanes.distinct
  rw [map_append] at hdistinct
  have hrows := hdistinct.of_append_right
  rw [List.Nodup, pairwise_map] at hrows
  refine lanes.source.sorted.imp₂ (fun a b hsorted hne => ?_) hrows
  have hle : ¬ rowSortKey chrono b < rowSortKey chrono a := fun hlt =>
    hsorted ((compares_cmpTotalOrder chrono a b).gt.mpr hlt)
  exact lt_of_le_of_ne (not_lt.mp hle) hne

theorem ordered_kept (lanes : TwoLanes chrono) :
    Ordered (rowSortKey chrono) (sortBy (rowSortKey chrono) lanes.kept) :=
  ordered_sortBy (List.Nodup.sublist (filter_sublist.map _) lanes.distinct)

theorem ordered_candidates : Ordered (rowSortKey chrono) (lanes.candidates cursor) := by
  apply ordered_sortBy
  apply List.Nodup.sublist ?_ lanes.distinct
  apply List.Sublist.map
  apply (behind_sublist _ _).trans
  exact filter_sublist.append (filter_sublist.trans pageRows_sublist)

/-- The rows behind the cursor, of which none is in front of the source's page. -/
structure Standing (lanes : TwoLanes chrono) (cursor : CompositeCursor)
    (rest : List UnifiedRow) : Prop where
  suffix : rest <:+ sortBy (rowSortKey chrono) lanes.kept
  left : behind (rowSortKey chrono) (cursor.boundary.map (boundarySortKey chrono))
    (sortBy (rowSortKey chrono) lanes.kept) = rest
  passed : ∀ row ∈ (lanes.source.pages.take (lanes.place cursor)).flatten, lanes.keep row = true →
    Passed (rowSortKey chrono) (cursor.boundary.map (boundarySortKey chrono)) row

theorem Standing.perm (h : Standing lanes cursor rest) :
    rest.Perm (lanes.candidates cursor ++
      behind (rowSortKey chrono) (cursor.boundary.map (boundarySortKey chrono))
        ((lanes.laterRows cursor).filter lanes.keep)) := by
  have hpassed : behind (rowSortKey chrono) (cursor.boundary.map (boundarySortKey chrono))
      ((lanes.source.pages.take (lanes.place cursor)).flatten.filter lanes.keep) = [] := by
    apply behind_eq_nil
    intro row hrow
    obtain ⟨hmem, hkeep⟩ := mem_filter.mp hrow
    exact h.passed row hmem hkeep
  have hrows : lanes.kept = lanes.window.filter lanes.keep ++
      ((lanes.source.pages.take (lanes.place cursor)).flatten.filter lanes.keep ++
        ((lanes.pageRows cursor).filter lanes.keep ++
          (lanes.laterRows cursor).filter lanes.keep)) := by
    rw [kept, ConvSource.rows, ← rows_split lanes.source.pages (lanes.place cursor)]
    simp only [filter_append]
    rfl
  have hleft : (behind (rowSortKey chrono) (cursor.boundary.map (boundarySortKey chrono))
      (sortBy (rowSortKey chrono) lanes.kept)).Perm (behind (rowSortKey chrono)
        (cursor.boundary.map (boundarySortKey chrono)) lanes.kept) :=
    behind_perm _ (sortBy_perm _ _)
  rw [h.left, hrows, behind_append, behind_append _ (List.filter _ (List.flatten _)), hpassed,
    nil_append, behind_append, ← append_assoc, ← behind_append] at hleft
  exact hleft.trans ((sortBy_perm _ _).symm.append_right _)

theorem frontier_of_later {y : UnifiedRow} (hy : y ∈ lanes.laterRows cursor) :
    ∃ last ∈ lanes.pageRows cursor, lanes.frontier cursor = some (boundaryOf last) ∧
      rowSortKey chrono last < rowSortKey chrono y := by
  have hmore : lanes.place cursor + 1 < lanes.source.pages.length := by
    by_contra hle
    rw [laterRows, drop_eq_nil_of_le (not_lt.mp hle)] at hy
    cases hy
  have hplace : lanes.place cursor < lanes.source.pages.length := by omega
  have hpage : lanes.pageRows cursor ∈ lanes.source.pages := by
    have hrows : lanes.pageRows cursor = lanes.source.pages[lanes.place cursor] := by
      simp [pageRows, hplace]
    rw [hrows]
    exact getElem_mem hplace
  obtain ⟨pre, last, hlast⟩ : ∃ pre last, lanes.pageRows cursor = pre ++ [last] :=
    (eq_nil_or_concat' _).resolve_left (lanes.source.nonempty _ hpage)
  have hmem : last ∈ lanes.pageRows cursor := by
    rw [hlast]
    simp
  refine ⟨last, hmem, ?_, ?_⟩
  · have hordered : Ordered _ (lanes.pageRows cursor) :=
      (ordered_rows lanes).sublist pageRows_sublist
    rw [frontier, nextToken, if_pos hmore, convFrontier, hordered.sortBy_eq, hlast,
      getLast?_concat]
    rfl
  · have hordered := ordered_rows lanes
    rw [ConvSource.rows, ← rows_split lanes.source.pages (lanes.place cursor)] at hordered
    have hbehind := (pairwise_append.mp hordered).2.1
    exact (pairwise_append.mp hbehind).2.2 last hmem y hy

variable {x : UnifiedRow}

theorem mem_shown_le {boundary : BoundaryKey} (hfrontier : lanes.frontier cursor = some boundary)
    (hx : x ∈ lanes.shown cursor) : rowSortKey chrono x ≤ boundarySortKey chrono boundary := by
  have hcount : lanes.emitCount cursor ≤ ((lanes.candidates cursor).takeWhile fun r =>
      rowSortKey chrono r ≤ boundarySortKey chrono boundary).length := by
    rw [emitCount, hfrontier]
    exact Nat.min_le_right _ _
  rw [shown, ← takeWhile_append_dropWhile (p := fun r =>
      decide (rowSortKey chrono r ≤ boundarySortKey chrono boundary)) (l := lanes.candidates cursor),
    take_append_of_le_length hcount] at hx
  have hle := mem_takeWhile_imp (mem_of_mem_take hx)
  exact of_decide_eq_true hle

theorem le_frontier {boundary : BoundaryKey} (hfrontier : lanes.frontier cursor = some boundary)
    (hx : x ∈ lanes.pageRows cursor) : rowSortKey chrono x ≤ boundarySortKey chrono boundary := by
  have hordered : Ordered _ (lanes.pageRows cursor) :=
      (ordered_rows lanes).sublist pageRows_sublist
  rw [frontier, convFrontier, hordered.sortBy_eq] at hfrontier
  split at hfrontier
  · obtain ⟨last, hlast, rfl⟩ := Option.map_eq_some_iff.mp hfrontier
    obtain ⟨pre, hpre⟩ := getLast?_eq_some_iff.mp hlast
    rw [hpre] at hordered hx
    rw [boundarySortKey_boundaryOf]
    rcases mem_append.mp hx with hx | hx
    · exact ((pairwise_append.mp hordered).2.2 x hx last mem_cons_self).le
    · rw [mem_singleton.mp hx]
  · cases hfrontier

theorem shown_ne_nil (hx : x ∈ lanes.candidates cursor)
    (hfront : ∀ boundary, lanes.frontier cursor = some boundary → rowSortKey chrono x ≤ boundarySortKey chrono boundary) :
    lanes.shown cursor ≠ [] := by
  obtain ⟨first, others, hcons⟩ := exists_cons_of_ne_nil (List.ne_nil_of_mem hx)
  have hfirst : rowSortKey chrono first ≤ rowSortKey chrono x := by
    have hordered : Ordered _ (lanes.candidates cursor) := ordered_candidates
    rw [hcons] at hx hordered
    rcases mem_cons.mp hx with rfl | hx
    · exact le_refl _
    · exact ((pairwise_cons.mp hordered).1 x hx).le
  have hlimit := lanes.limit_pos
  have hpos : 0 < lanes.emitCount cursor := by
    rw [emitCount, hcons]
    cases hfrontier : lanes.frontier cursor with
    | none =>
      show 0 < min (others.length + 1) lanes.limit
      omega
    | some boundary =>
      have hle : decide (rowSortKey chrono first ≤ boundarySortKey chrono boundary) = true :=
        decide_eq_true (hfirst.trans (hfront boundary hfrontier))
      show 0 < min (min (others.length + 1) lanes.limit) _
      rw [takeWhile_cons_of_pos (by exact hle), length_cons]
      omega
  obtain ⟨n, hn⟩ : ∃ n, lanes.emitCount cursor = n + 1 := ⟨lanes.emitCount cursor - 1, by omega⟩
  rw [shown, hcons, hn, take_succ_cons]
  exact cons_ne_nil _ _

/-- What is left behind a page. -/
def leftover (lanes : TwoLanes chrono) (cursor : CompositeCursor) : List UnifiedRow :=
  sortBy (rowSortKey chrono) (lanes.tail cursor ++
    behind (rowSortKey chrono) (cursor.boundary.map (boundarySortKey chrono))
      ((lanes.laterRows cursor).filter lanes.keep))

theorem Standing.split (h : Standing lanes cursor rest) :
    rest = lanes.shown cursor ++ lanes.leftover cursor := by
  have hordered : Ordered (rowSortKey chrono) rest := (ordered_kept lanes).sublist h.suffix.sublist
  apply hordered.take_of_front h.perm ordered_candidates
  intro x hx y hy
  have hlater := (mem_filter.mp ((behind_sublist _ _).subset hy)).1
  obtain ⟨last, -, hfrontier, hlast⟩ := frontier_of_later hlater
  have hle := mem_shown_le hfrontier hx
  rw [boundarySortKey_boundaryOf] at hle
  exact hle.trans_lt hlast

theorem Standing.next (h : Standing lanes cursor rest) {next : CompositeCursor}
    (hboundary : next.boundary = ((lanes.shown cursor).getLast?.map boundaryOf).or cursor.boundary)
    (hfront : ∀ row ∈ (lanes.source.pages.take (lanes.place next)).flatten, lanes.keep row = true →
      row ∈ lanes.shown cursor ∨
        Passed (rowSortKey chrono) (cursor.boundary.map (boundarySortKey chrono)) row) :
    Standing lanes next (lanes.leftover cursor) := by
  have hbound : next.boundary.map (boundarySortKey chrono) =
      nextBoundary (rowSortKey chrono) (lanes.shown cursor)
        (cursor.boundary.map (boundarySortKey chrono)) := by
    rw [hboundary, nextBoundary]
    cases (lanes.shown cursor).getLast? with
    | none => rfl
    | some last => exact congrArg some (boundarySortKey_boundaryOf chrono last)
  have hleft := h.left
  have hsuffix := h.suffix
  rw [h.split] at hleft hsuffix
  constructor
  · exact (suffix_append _ _).trans hsuffix
  · rw [hbound]
    exact (ordered_kept lanes).behind_next hsuffix hleft
  · intro row hrow hkeep
    rw [hbound]
    have hshown : Ordered (rowSortKey chrono) (lanes.shown cursor) :=
      ordered_candidates.sublist (take_sublist _ _)
    exact passed_next hshown hleft (hfront row hrow hkeep)

variable {row : UnifiedRow}

theorem mem_candidates : row ∈ lanes.candidates cursor ↔
    (row ∈ lanes.window.filter lanes.keep ∨ row ∈ (lanes.pageRows cursor).filter lanes.keep) ∧
      ¬ Passed (rowSortKey chrono) (cursor.boundary.map (boundarySortKey chrono)) row := by
  rw [candidates, (sortBy_perm _ _).mem_iff, mem_behind, mem_append]

theorem mem_of_chat (hrow : row ∈ lanes.candidates cursor) (hchat : row.kind = .chat) :
    row ∈ lanes.pageRows cursor := by
  rcases (mem_candidates.mp hrow).1 with hwindow | hpage
  · rw [lanes.build row (mem_filter.mp hwindow).1] at hchat
    cases hchat
  · exact (mem_filter.mp hpage).1

theorem take_succ_flatten (pages : List (List UnifiedRow)) (i : Nat) :
    (pages.take (i + 1)).flatten = (pages.take i).flatten ++ pages.getD i [] := by
  rw [take_add_one, flatten_append, getD_eq_getElem?_getD]
  cases pages[i]? with
  | none => rfl
  | some page => simp

theorem Standing.stay (h : Standing lanes cursor rest) (hrow : row ∈ lanes.tail cursor)
    (hchat : row.kind = .chat) (next : CompositeCursor)
    (hboundary : next.boundary = ((lanes.shown cursor).getLast?.map boundaryOf).or cursor.boundary)
    (htoken : next.convPageToken = cursor.convPageToken) :
    Standing lanes next (lanes.leftover cursor) ∧ lanes.shown cursor ≠ [] := by
  have hplace : lanes.place next = lanes.place cursor := congrArg lanes.source.place htoken
  have hmem : row ∈ lanes.candidates cursor := mem_of_mem_drop hrow
  constructor
  · apply h.next hboundary
    intro row' hrow' hkeep
    rw [hplace] at hrow'
    exact .inr (h.passed row' hrow' hkeep)
  · exact shown_ne_nil hmem fun boundary hfrontier =>
      le_frontier hfrontier (mem_of_chat hmem hchat)

theorem Standing.advance (h : Standing lanes cursor rest)
    (hchat : ∀ row ∈ lanes.tail cursor, row.kind ≠ .chat) {next : CompositeCursor}
    (hboundary : next.boundary = ((lanes.shown cursor).getLast?.map boundaryOf).or cursor.boundary)
    (hplace : lanes.place next = lanes.place cursor + 1) :
    Standing lanes next (lanes.leftover cursor) := by
  apply h.next hboundary
  intro row hrow hkeep
  rw [hplace, take_succ_flatten] at hrow
  rcases mem_append.mp hrow with hrow | hrow
  · exact .inr (h.passed row hrow hkeep)
  · by_cases hpassed : Passed (rowSortKey chrono)
        (cursor.boundary.map (boundarySortKey chrono)) row
    · exact .inr hpassed
    · left
      have hmem : row ∈ lanes.candidates cursor :=
        mem_candidates.mpr ⟨.inr (mem_filter.mpr ⟨hrow, hkeep⟩), hpassed⟩
      rw [← take_append_drop (lanes.emitCount cursor) (lanes.candidates cursor)] at hmem
      rcases mem_append.mp hmem with hshown | htail
      · exact hshown
      · have hkind : row.kind = .chat :=
          lanes.source.chat row (pageRows_sublist.subset hrow)
        exact absurd hkind (hchat row htail)

theorem Standing.restart (h : Standing lanes cursor rest) (hrow : row ∈ lanes.tail cursor)
    (htoken : lanes.nextToken cursor = none) (next : CompositeCursor)
    (hboundary : next.boundary = ((lanes.shown cursor).getLast?.map boundaryOf).or cursor.boundary)
    (hplace : lanes.place next = 0) :
    Standing lanes next (lanes.leftover cursor) ∧ lanes.shown cursor ≠ [] := by
  constructor
  · apply h.next hboundary
    intro row' hrow'
    rw [hplace] at hrow'
    cases hrow'
  · apply shown_ne_nil (mem_of_mem_drop hrow)
    intro boundary hfrontier
    rw [frontier, htoken] at hfrontier
    cases hfrontier

/-- A page with no next cursor leaves nothing. -/
theorem leftover_eq_nil (hchat : ∀ row ∈ lanes.tail cursor, row.kind ≠ .chat)
    (hbuild : ∀ row ∈ lanes.tail cursor, row.kind ≠ .build)
    (htoken : lanes.nextToken cursor = none) : lanes.leftover cursor = [] := by
  have htail : lanes.tail cursor = [] := by
    rw [eq_nil_iff_forall_not_mem]
    intro row hrow
    cases hkind : row.kind with
    | build => exact hbuild row hrow hkind
    | chat => exact hchat row hrow hkind
  have hlater : lanes.laterRows cursor = [] := by
    rw [nextToken] at htoken
    split at htoken
    · cases htoken
    · rename_i hlast
      rw [laterRows, drop_eq_nil_of_le (not_lt.mp hlast)]
      rfl
  have hnone : behind (rowSortKey chrono) (cursor.boundary.map (boundarySortKey chrono))
      ([] : List UnifiedRow) = [] := sublist_nil.mp (behind_sublist _ _)
  rw [leftover, htail, hlater, filter_nil, hnone]
  exact perm_nil.mp (sortBy_perm _ _)

/-- One page: what it shows comes first, and what is left is behind the next
cursor. There is less left, or the source is at a later page. -/
theorem Standing.step (h : Standing lanes cursor rest) :
    rest = lanes.shown cursor ++ lanes.leftover cursor ∧
      match lanes.nextCursor cursor with
      | none => lanes.leftover cursor = []
      | some next => Standing lanes next (lanes.leftover cursor) ∧
        ((lanes.leftover cursor).length < rest.length ∨
          lanes.place cursor < lanes.place next ∧
            lanes.place next < lanes.source.pages.length) := by
  refine ⟨h.split, ?_⟩
  have hless : lanes.shown cursor ≠ [] → (lanes.leftover cursor).length < rest.length := by
    intro hshown
    have hlength := congrArg List.length h.split
    have hpos := length_pos_iff.mpr hshown
    rw [length_append] at hlength
    omega
  rw [nextCursor]
  by_cases hchat : (lanes.tail cursor).any (·.kind = .chat) = true
  · rw [if_pos hchat]
    obtain ⟨row, hrow, hkind⟩ := List.any_eq_true.mp hchat
    obtain ⟨hstanding, hshown⟩ := h.stay hrow (of_decide_eq_true hkind)
      ⟨_, cursor.convPageToken, false⟩ rfl rfl
    exact ⟨hstanding, .inl (hless hshown)⟩
  · have hnochat : ∀ row ∈ lanes.tail cursor, row.kind ≠ .chat := by
      simpa using hchat
    rw [if_neg hchat]
    cases htoken : lanes.nextToken cursor with
    | some token =>
      have hmore : lanes.place cursor + 1 < lanes.source.pages.length ∧
          token = lanes.source.token (lanes.place cursor + 1) := by
        rw [nextToken] at htoken
        split at htoken
        · rename_i hmore
          cases htoken
          exact ⟨hmore, rfl⟩
        · cases htoken
      rw [if_pos (by simp)]
      have hplace : lanes.source.place (some token) = lanes.place cursor + 1 := by
        rw [hmore.2]
        exact lanes.source.index_token _
      refine ⟨h.advance hnochat rfl hplace, .inr ?_⟩
      show lanes.place cursor < lanes.source.place (some token) ∧ lanes.source.place (some token) < _
      rw [hplace]
      exact ⟨Nat.lt_succ_self _, hmore.1⟩
    | none =>
      by_cases hbuild : (lanes.tail cursor).any (·.kind = .build) = true
      · rw [if_pos (by simp [hbuild])]
        obtain ⟨row, hrow, -⟩ := List.any_eq_true.mp hbuild
        obtain ⟨hstanding, hshown⟩ := h.restart hrow htoken ⟨_, none, true⟩ rfl rfl
        exact ⟨hstanding, .inl (hless hshown)⟩
      · rw [if_neg (by simp [hbuild])]
        exact leftover_eq_nil hnochat (by simpa using hbuild) htoken

end Standing

/-! ## The walk -/

section Walk

variable {Wire : Type} {codec : CursorCodec Wire} {lanes : TwoLanes chrono}

/-- From a cursor on, a walk shows what is left behind it. -/
theorem walk_standing {rest : List UnifiedRow} {cursor : Option Wire}
    (h : Standing lanes (cursorOf codec cursor) rest) :
    ∃ fuel, walk codec lanes fuel cursor = some rest := by
  -- by the number of rows left, and for each by the pages of the source ahead
  induction hleft : rest.length using Nat.strong_induction_on generalizing rest cursor with
  | h left ihLeft =>
    induction hahead : lanes.source.pages.length - lanes.place (cursorOf codec cursor)
      using Nat.strong_induction_on generalizing rest cursor with
    | h ahead ihAhead =>
      obtain ⟨hsplit, hstep⟩ := h.step
      have hpage := page_eq lanes (cursorOf codec cursor)
      cases hnext : lanes.nextCursor (cursorOf codec cursor) with
      | none =>
        rw [hnext] at hstep
        refine ⟨1, ?_⟩
        rw [walk, hpage]
        simp only [hnext, Option.map_none]
        rw [hsplit, hstep, append_nil]
        rfl
      | some next =>
        rw [hnext] at hstep
        obtain ⟨hstanding, hprogress⟩ := hstep
        have hdecoded : cursorOf codec (some (codec.encode next)) = next := codec.decode_encode next
        rw [← hdecoded] at hstanding hprogress
        have hlength := congrArg List.length hsplit
        rw [length_append] at hlength
        obtain ⟨fuel, hfuel⟩ : ∃ fuel, walk codec lanes fuel (some (codec.encode next)) =
            some (lanes.leftover (cursorOf codec cursor)) := by
          by_cases hless : (lanes.leftover (cursorOf codec cursor)).length < left
          · exact ihLeft _ hless hstanding rfl
          · have hplaces := hprogress.resolve_left (by omega)
            exact ihAhead _ (by omega) hstanding (by omega) rfl
        refine ⟨fuel + 1, ?_⟩
        rw [walk, hpage]
        simp only [hnext, Option.map_some, hfuel]
        rw [hsplit]
        rfl

theorem standing_start (codec : CursorCodec Wire) (lanes : TwoLanes chrono) :
    Standing lanes (cursorOf codec none) (sortBy (rowSortKey chrono) lanes.kept) where
  suffix := suffix_refl _
  left := rfl
  passed row hrow := by cases hrow

end Walk

end TwoLanes

/-- A walk of both lanes ends, and shows the rows that the filter keeps, each
once and in the total order. -/
theorem walk_shows_both_lanes {Wire : Type} {chrono : Chrono} (codec : CursorCodec Wire)
    (lanes : TwoLanes chrono) :
    ∃ fuel rows, lanes.walk codec fuel none = some rows ∧
      rows.Perm ((lanes.window ++ lanes.source.rows).filter lanes.keep) ∧
      rows.Pairwise (cmpTotalOrder chrono · · = .lt) := by
  obtain ⟨fuel, hfuel⟩ := TwoLanes.walk_standing (TwoLanes.standing_start codec lanes)
  refine ⟨fuel, _, hfuel, sortBy_perm _ _, ?_⟩
  exact (TwoLanes.ordered_kept lanes).imp fun {a b} hlt =>
    (compares_cmpTotalOrder chrono a b).lt.mpr hlt

namespace Mixed

/-- A row of the kind, with the id and the time. -/
def row (kind : SessionKind) (id : Text) (updatedAt : Option Text) : UnifiedRow :=
  ⟨kind, { sessionId := id }, [], updatedAt⟩

def now : Option Text := some "2026-01-01T00:00:00+00:00".toList

/-- Two pages: a conversation at the time of the local session, and two that
have no time. -/
def source : ConvSource Crowded.chrono where
  pages := [[row .chat ['a'] now, row .chat ['b'] (some ['x'])], [row .chat ['c'] none]]
  token n := List.replicate n 'p'
  index token := token.length
  index_token n := length_replicate
  nonempty := by decide
  chat := by decide
  sorted := by decide

def lanes : TwoLanes Crowded.chrono where
  window := [row .build ['d'] now, row .build ['e'] none]
  source := source
  keep row := row.legacy.sessionId ≠ ['b']
  limit := 1
  build := by decide
  limit_pos := Nat.le_refl 1
  distinct := by decide

end Mixed

theorem walk_shows_both_lanes_mixed : ∃ fuel rows,
    Mixed.lanes.walk Crowded.codec fuel none = some rows ∧
      rows.Perm ((Mixed.lanes.window ++ Mixed.lanes.source.rows).filter Mixed.lanes.keep) ∧
      rows.Pairwise (cmpTotalOrder Crowded.chrono · · = .lt) :=
  walk_shows_both_lanes Crowded.codec Mixed.lanes

end GrokBuild.SessionList
