import GrokBuild.Lib.Ledger
import GrokBuild.HunkTracker.Careful

/-!
# Hunk tracker: lines of code

`loc/mod.rs`: the sink that turns hunk events into attribution records. It
keeps, for each hunk id, what it has recorded so far, and writes the
difference on every event, so the sum over all records is meant to be the
line counts of the live hunks.

`Synced` says that the sink knows exactly the live hunks. The events of a
recomputation keep it that way when the new diff `Tracks` the old hunks:
hunks correspond one to one. When a hunk splits, the second part is given a
fresh id and a difference to a hunk it is not; when hunks merge, nobody
takes back what was recorded for the others.

Counts are integers here: the texts behind them have at most 1 MiB each.
-/

namespace GrokBuild.HunkTracker

open TextLines Str EditScript List Option

/-! ## Records -/

inductive AuthorType where
  | agent
  | human
  deriving DecidableEq, Repr

inductive SourceType where
  | agentEdit
  | externalEditOnAgentFile
  | external
  deriving DecidableEq, Repr

inductive EventType where
  | added
  | updated
  | removed
  deriving DecidableEq, Repr

structure HunkRecord where
  hunkId : HunkId
  filePath : PathBuf
  hunkStart : Nat
  hunkEnd : Nat
  linesAdded : Int
  linesRemoved : Int
  authorType : Option AuthorType
  authorId : Option String
  agentId : String
  sessionId : String
  timestamp : Nat
  promptIndex : Option Nat
  sourceType : Option SourceType
  eventType : EventType
  removalReason : Option HunkRemovalReason
  deriving DecidableEq, Repr

/-- `HunkRecord::from_hunk`. A pure deletion is located by its old lines. -/
def HunkRecord.fromHunk (hunk : Hunk) (sessionId agentId : String) (userId : Option String)
    (eventType : EventType) (attributionSource : HunkSource) : HunkRecord :=
  let info := hunk.lineInfo
  let start := if info.newCount = 0 then info.oldStart else info.newStart
  let count := if info.newCount = 0 then info.oldCount else info.newCount
  { hunkId := hunk.id
    filePath := hunk.path
    hunkStart := start
    hunkEnd := if count = 0 then start else start + count - 1
    linesAdded := info.newCount
    linesRemoved := info.oldCount
    authorType := some (if attributionSource.isAgentEdit then .agent else .human)
    authorId := if attributionSource.isAgentEdit then some agentId else userId
    agentId := agentId
    sessionId := sessionId
    timestamp := hunk.createdAt
    promptIndex := attributionSource.promptIndex
    sourceType := some (match attributionSource with
      | .agentEdit _ => .agentEdit
      | .externalEditOnAgentFile => .externalEditOnAgentFile
      | .external => .external)
    eventType := eventType
    removalReason := none }

inductive LocAggregate where
  | linesChanged (authorType : AuthorType) (linesAdded linesRemoved : Int) (filePath : PathBuf)
  | linesReverted (linesAddedReverted linesRemovedReverted : Int)
  deriving DecidableEq, Repr

/-! ## The sink -/

/-- `LocSinkContext`; `aggregateTx` says whether anybody listens to the
aggregates. -/
structure LocSinkContext where
  sessionId : String
  agentId : String
  userId : Option String
  aggregateTx : Bool
  deriving DecidableEq, Repr

/-- What the `n`-th event finds outside the sink: the clock, and whether a
record can be written. -/
structure SinkEnv where
  now : Nat → Nat
  writeOk : Nat → Bool

/-- The state of `run_loc_sink`, and what it has written and sent. -/
structure LocSink where
  acc : AList fun _ : HunkId => Int × Int
  records : List HunkRecord
  aggregates : List LocAggregate
  handled : Nat

namespace LocSink

def new : LocSink where
  acc := ∅
  records := []
  aggregates := []
  handled := 0

def send (ctx : LocSinkContext) (s : LocSink) (g : LocAggregate) : LocSink :=
  if ctx.aggregateTx then { s with aggregates := s.aggregates ++ [g] } else s

/-- `write_record`: a record that cannot be written is dropped. -/
def writeRecord (env : SinkEnv) (s : LocSink) (r : HunkRecord) : LocSink :=
  if env.writeOk s.handled then { s with records := s.records ++ [r] } else s

/-- Account for a record of an added or changed hunk, announce it and write
it. -/
def enter (ctx : LocSinkContext) (env : SinkEnv) (s : LocSink) (r : HunkRecord)
    (defaultAuthor : AuthorType) : LocSink :=
  let old := (s.acc.lookup r.hunkId).getD (0, 0)
  let s := { s with acc := s.acc.insert r.hunkId (old + (r.linesAdded, r.linesRemoved)) }
  (s.send ctx (.linesChanged (r.authorType.getD defaultAuthor) r.linesAdded r.linesRemoved
    r.filePath)).writeRecord env r

/-- The record that takes a hunk back. -/
def removedRecord (ctx : LocSinkContext) (now : Nat) (path : PathBuf) (hunkId : HunkId)
    (reason : HunkRemovalReason) (total : Int × Int) : HunkRecord where
  hunkId := hunkId
  filePath := path
  hunkStart := 0
  hunkEnd := 0
  linesAdded := -total.1
  linesRemoved := -total.2
  authorType := none
  authorId := none
  agentId := ctx.agentId
  sessionId := ctx.sessionId
  timestamp := now
  promptIndex := none
  sourceType := none
  eventType := .removed
  removalReason := some reason

/-- A rejected or superseded hunk. -/
def revert (ctx : LocSinkContext) (env : SinkEnv) (s : LocSink) (path : PathBuf)
    (hunkId : HunkId) (reason : HunkRemovalReason) : LocSink :=
  match s.acc.lookup hunkId with
  | none => s
  | some total =>
    let s := { s with acc := s.acc.erase hunkId }
    if total.1 ≠ 0 ∨ total.2 ≠ 0 then
      (s.send ctx (.linesReverted (max total.1 0) (max total.2 0))).writeRecord env
        (removedRecord ctx (env.now s.handled) path hunkId reason total)
    else s

def handleEvent (ctx : LocSinkContext) (env : SinkEnv) (s : LocSink) (e : HunkEvent) : LocSink :=
  let s := match e with
    | .hunkAdded _ hunk =>
      s.enter ctx env
        (HunkRecord.fromHunk hunk ctx.sessionId ctx.agentId ctx.userId .added hunk.source) .agent
    | .hunkContentChanged _ hunk triggerSource prevLinesAdded prevLinesRemoved =>
      s.enter ctx env
        { HunkRecord.fromHunk hunk ctx.sessionId ctx.agentId ctx.userId .updated triggerSource with
          linesAdded := hunk.lineInfo.newCount - prevLinesAdded
          linesRemoved := hunk.lineInfo.oldCount - prevLinesRemoved } .human
    -- accepted hunks keep their lines
    | .hunkRemoved _ hunkId .accepted => { s with acc := s.acc.erase hunkId }
    | .hunkRemoved path hunkId reason => s.revert ctx env path hunkId reason
    | _ => s
  { s with handled := s.handled + 1 }

/-- `run_loc_sink` over the events sent so far. -/
def run (ctx : LocSinkContext) (env : SinkEnv) (events : List HunkEvent) : LocSink :=
  events.foldl (handleEvent ctx env) new

/-- The sum over all records of lines added and lines removed. -/
def total (s : LocSink) : Int × Int :=
  (s.records.map fun r => (r.linesAdded, r.linesRemoved)).sum

/-! ## The books balance -/

/-- The lines of the hunks the sink knows. -/
def known (s : LocSink) : Int × Int := Ledger.total (fun x => x) s.acc

/-- What has been recorded beyond them. -/
def balance (s : LocSink) : Int × Int := s.total - s.known

section Books

variable {ctx : LocSinkContext} {env : SinkEnv} {s : LocSink} {path : PathBuf} {hunkId id : HunkId}

@[simp] theorem acc_send (g : LocAggregate) : (s.send ctx g).acc = s.acc := by
  unfold send
  split <;> rfl

@[simp] theorem total_send (g : LocAggregate) : (s.send ctx g).total = s.total := by
  unfold send
  split <;> rfl

@[simp] theorem acc_writeRecord (r : HunkRecord) : (s.writeRecord env r).acc = s.acc := by
  unfold writeRecord
  split <;> rfl

theorem total_writeRecord (hw : ∀ n, env.writeOk n = true) (r : HunkRecord) :
    (s.writeRecord env r).total = s.total + (r.linesAdded, r.linesRemoved) := by
  simp [writeRecord, hw, total]

@[simp] theorem acc_enter (r : HunkRecord) (author : AuthorType) :
    (s.enter ctx env r author).acc = s.acc.insert r.hunkId
      ((s.acc.lookup r.hunkId).getD (0, 0) + (r.linesAdded, r.linesRemoved)) := by
  simp [enter]

theorem balance_enter (hw : ∀ n, env.writeOk n = true) (r : HunkRecord) (author : AuthorType) :
    (s.enter ctx env r author).balance = s.balance := by
  have htotal : (s.enter ctx env r author).total = s.total + (r.linesAdded, r.linesRemoved) := by
    simp only [enter, total_writeRecord hw, total_send]
    rfl
  have hold : (s.acc.lookup r.hunkId).elim 0 (fun x => x)
      = (s.acc.lookup r.hunkId).getD (0, 0) := by
    cases s.acc.lookup r.hunkId <;> rfl
  rw [balance, htotal, known, acc_enter, Ledger.total_insert, hold, balance, known]
  abel

theorem balance_revert (hw : ∀ n, env.writeOk n = true) (reason : HunkRemovalReason) :
    (s.revert ctx env path hunkId reason).balance = s.balance := by
  unfold revert
  cases hlook : s.acc.lookup hunkId with
  | none => rfl
  | some t =>
    have hknown : Ledger.total (fun x => x) (s.acc.erase hunkId) = s.known - t := by
      rw [Ledger.total_erase, hlook]
      rfl
    dsimp only
    split
    · rw [balance, total_writeRecord hw, total_send, known, acc_writeRecord, acc_send, hknown,
        balance]
      have hneg : ((removedRecord ctx (env.now s.handled) path hunkId reason t).linesAdded,
          (removedRecord ctx (env.now s.handled) path hunkId reason t).linesRemoved) = -t := rfl
      rw [hneg]
      change s.total + -t - (s.known - t) = s.total - s.known
      abel
    · next hzero =>
      simp only [ne_eq, not_or, not_not] at hzero
      have ht : t = 0 := Prod.ext hzero.1 hzero.2
      change s.total - Ledger.total (fun x => x) (s.acc.erase hunkId) = s.total - s.known
      rw [hknown, ht, sub_zero]

theorem balance_handleEvent (hw : ∀ n, env.writeOk n = true) {e : HunkEvent}
    (he : ∀ p id, e ≠ .hunkRemoved p id .accepted) :
    (s.handleEvent ctx env e).balance = s.balance := by
  cases e with
  | hunkAdded p h => exact balance_enter hw _ _
  | hunkContentChanged p h source x y => exact balance_enter hw _ _
  | hunkRemoved p id reason =>
    cases reason with
    | accepted => exact absurd rfl (he p id)
    | rejected => exact balance_revert hw _
    | superseded => exact balance_revert hw _
  | _ => rfl

theorem balance_foldl (hw : ∀ n, env.writeOk n = true) (es : List HunkEvent) :
    ∀ {s : LocSink}, (∀ p id, .hunkRemoved p id .accepted ∉ es) →
    (es.foldl (handleEvent ctx env) s).balance = s.balance := by
  induction es with
  | nil => exact fun _ => rfl
  | cons e es ih =>
    intro s h
    rw [foldl_cons, ih fun p id hm => h p id (by simp [hm]),
      balance_handleEvent hw fun p id heq => h p id (by simp [heq])]

/-! ## What the sink knows of a hunk -/

theorem lookup_erase :
    (s.acc.erase hunkId).lookup id = if id = hunkId then none else s.acc.lookup id := by
  by_cases hid : id = hunkId
  · rw [if_pos hid, hid, AList.lookup_erase]
  · rw [if_neg hid, AList.lookup_erase_ne hid]

theorem lookup_revert (reason : HunkRemovalReason) :
    (s.revert ctx env path hunkId reason).acc.lookup id
      = if id = hunkId then none else s.acc.lookup id := by
  unfold revert
  cases hlook : s.acc.lookup hunkId with
  | none =>
    by_cases hid : id = hunkId
    · rw [if_pos hid, hid]
      exact hlook
    · rw [if_neg hid]
  | some t =>
    dsimp only
    split
    · rw [acc_writeRecord, acc_send]
      exact lookup_erase
    · exact lookup_erase

theorem lookup_removed (reason : HunkRemovalReason) :
    (s.handleEvent ctx env (.hunkRemoved path hunkId reason)).acc.lookup id
      = if id = hunkId then none else s.acc.lookup id := by
  cases reason with
  | accepted => exact lookup_erase
  | rejected => exact lookup_revert _
  | superseded => exact lookup_revert _

theorem lookup_removedEvents (reason : HunkRemovalReason) (hs : List Hunk) : ∀ {s : LocSink},
    ((Actor.removedEvents path hs reason).foldl (handleEvent ctx env) s).acc.lookup id
      = if id ∈ hs.map (·.id) then none else s.acc.lookup id := by
  induction hs with
  | nil => simp [Actor.removedEvents]
  | cons h hs ih =>
    intro s
    have := @ih (s.handleEvent ctx env (.hunkRemoved path h.id reason))
    simp only [Actor.removedEvents, map_cons, foldl_cons] at this ⊢
    rw [this, lookup_removed]
    by_cases h1 : id ∈ hs.map (·.id) <;> by_cases h2 : id = h.id <;> simp [h1, h2]

/-- A hunk is recorded at its full counts, or at the difference to what the
sink knew of it. -/
theorem lookup_enter (r : HunkRecord) (author : AuthorType) :
    (s.enter ctx env r author).acc.lookup id
      = if id = r.hunkId then some ((s.acc.lookup r.hunkId).getD (0, 0)
          + (r.linesAdded, r.linesRemoved))
        else s.acc.lookup id := by
  rw [acc_enter]
  by_cases hid : id = r.hunkId
  · rw [if_pos hid, hid, AList.lookup_insert]
  · rw [if_neg hid, AList.lookup_insert_ne hid]

end Books

end LocSink

/-! ## One recomputation -/

/-- What a hunk contributes to the totals. -/
def Hunk.counts (h : Hunk) : Int × Int := (h.lineInfo.newCount, h.lineInfo.oldCount)

/-- The new diff continues the old hunks one by one. -/
structure Tracks (oldHunks table : List Hunk) : Prop where
  /-- No old hunk is the match of two new ones. -/
  noSplit : (table.filterMap fun t => (findMatchingOldHunk t oldHunks).map (·.id)).Nodup
  /-- Every old hunk that lives on is the match of a new one. -/
  noMerge : ∀ o ∈ oldHunks, hasSuccessor table o = true →
    ∃ t ∈ table, findMatchingOldHunk t oldHunks = some o
  /-- A match by content has the same number of lines. -/
  sameCounts : ∀ t ∈ table, ∀ o ∈ oldHunks, findMatchingOldHunk t oldHunks = some o →
    hunksMatchContent o t = true → t.counts = o.counts

instance (oldHunks table : List Hunk) : Decidable (Tracks oldHunks table) :=
  decidable_of_iff
    ((table.filterMap fun t => (findMatchingOldHunk t oldHunks).map (·.id)).Nodup
      ∧ (∀ o ∈ oldHunks, hasSuccessor table o = true →
        ∃ t ∈ table, findMatchingOldHunk t oldHunks = some o)
      ∧ ∀ t ∈ table, ∀ o ∈ oldHunks, findMatchingOldHunk t oldHunks = some o →
        hunksMatchContent o t = true → t.counts = o.counts)
    ⟨fun h => ⟨h.1, h.2.1, h.2.2⟩, fun h => ⟨h.noSplit, h.noMerge, h.sameCounts⟩⟩

/-- A hunk of the new diff with the id and source of its match. -/
def handOn (oldHunks : List Hunk) (t : Hunk) : Hunk :=
  match findMatchingOldHunk t oldHunks with
  | none => t
  | some o =>
    { t with
      id := o.id
      source := if t.source.isExternal && o.source.isAgentEdit then o.source else t.source }

section HandOn

variable {O T : List Hunk} {t o : Hunk}

theorem handOn_none (h : findMatchingOldHunk t O = none) : handOn O t = t := by
  simp only [handOn, h]

theorem id_handOn (h : findMatchingOldHunk t O = some o) : (handOn O t).id = o.id := by
  simp only [handOn, h]

@[simp] theorem counts_handOn : (handOn O t).counts = t.counts := by
  unfold handOn
  split <;> rfl

@[simp] theorem hunksMatchContent_handOn : hunksMatchContent o (handOn O t) = hunksMatchContent o t := by
  unfold handOn
  split <;> rfl

@[simp] theorem hunksOverlap_handOn : hunksOverlap o (handOn O t) = hunksOverlap o t := by
  unfold handOn
  split <;> rfl

theorem hasSuccessor_handOn : hasSuccessor (T.map (handOn O)) o = hasSuccessor T o := by
  simp [hasSuccessor, List.any_map, Function.comp_def]

theorem preserveIds_eq_map (T : List Hunk) : ∀ claimed : List HunkId,
    (T.filterMap fun t => (findMatchingOldHunk t O).map (·.id)).Nodup →
    (∀ id ∈ claimed, id ∉ T.filterMap fun t => (findMatchingOldHunk t O).map (·.id)) →
    preserveIds O claimed T = T.map (handOn O) := by
  induction T with
  | nil => exact fun _ _ _ => rfl
  | cons t T ih =>
    intro claimed hnodup hclaimed
    rw [preserveIds, map_cons]
    cases hm : findMatchingOldHunk t O with
    | none =>
      simp only [filterMap_cons, hm, map_none] at hnodup hclaimed
      rw [handOn_none hm, ← ih claimed hnodup hclaimed]
    | some o =>
      simp only [filterMap_cons, hm, map_some, nodup_cons] at hnodup hclaimed
      have hfree : o.id ∉ claimed := fun hc => hclaimed o.id hc (by simp)
      simp only [if_neg hfree]
      rw [ih (o.id :: claimed) hnodup.2]
      · simp only [handOn, hm]
      · intro id hid hmem
        rcases mem_cons.mp hid with rfl | hid
        · exact hnodup.1 hmem
        · exact hclaimed id hid (mem_cons_of_mem _ hmem)

end HandOn

section Recomputation

variable {ctx : LocSinkContext} {env : SinkEnv} {O T : List Hunk} {t : Hunk} {p : PathBuf}
  {source : HunkSource}

/-- The sink is up to date with the match of a new hunk, and does not know
the hunk if there is none. -/
def KnowsMatch (s : LocSink) (O : List Hunk) (t : Hunk) : Prop :=
  (∀ o, findMatchingOldHunk t O = some o → s.acc.lookup o.id = some o.counts)
    ∧ (findMatchingOldHunk t O = none → s.acc.lookup t.id = none)

theorem lookup_newHunkEvent {s : LocSink} (hids : (O.map (·.id)).Nodup)
    (hsame : ∀ o ∈ O, findMatchingOldHunk t O = some o → hunksMatchContent o t = true →
      t.counts = o.counts)
    (hknows : KnowsMatch s O t) (id : HunkId) :
    ((newHunkEvent p O source (handOn O t)).foldl (LocSink.handleEvent ctx env) s).acc.lookup id
      = if id = (handOn O t).id then some t.counts else s.acc.lookup id := by
  unfold newHunkEvent
  cases hexact : O.find? (hunksMatchContent · (handOn O t)) with
  | some o' =>
    -- the same content as before: the sink hears nothing
    have hmatch : hunksMatchContent o' t = true := by simpa using find?_some hexact
    have hmem := mem_of_find?_eq_some hexact
    have hquiet : ((if hunkMoved o' (handOn O t) = true then
        [HunkEvent.hunkMoved p o'.id (handOn O t).lineInfo] else []).foldl
          (LocSink.handleEvent ctx env) s).acc = s.acc := by
      split <;> rfl
    dsimp only
    rw [hquiet]
    cases hm : findMatchingOldHunk t O with
    | none =>
      rw [(findMatchingOldHunk_eq_none hm o' hmem).1] at hmatch
      cases hmatch
    | some o =>
      have hcounts := hsame o (findMatchingOldHunk_spec hm).1 hm
        (findMatchingOldHunk_content hm hmem hmatch)
      rw [id_handOn hm]
      by_cases hid : id = o.id
      · rw [if_pos hid, hid, hknows.1 o hm, hcounts]
      · rw [if_neg hid]
  | none =>
    dsimp only
    cases hm : findMatchingOldHunk t O with
    | none =>
      have hover : O.any (hunksOverlap · (handOn O t)) = false := by
        rw [List.any_eq_false]
        intro o ho
        simp [(findMatchingOldHunk_eq_none hm o ho).2]
      rw [if_pos hover, handOn_none hm]
      change (LocSink.enter ctx env s _ _).acc.lookup id = _
      rw [LocSink.lookup_enter]
      change (if id = t.id then some ((s.acc.lookup t.id).getD (0, 0) + t.counts) else _) = _
      rw [hknows.2 hm, getD_none]
      have hzero : ((0, 0) : Int × Int) + t.counts = t.counts := zero_add t.counts
      rw [hzero]
    | some o =>
      obtain ⟨ho, hrel⟩ := findMatchingOldHunk_spec hm
      have hnomatch : hunksMatchContent o t = false := by
        have := find?_eq_none.mp hexact o ho
        simpa using this
      have hover : ¬ O.any (hunksOverlap · (handOn O t)) = false := by
        rw [Bool.not_eq_false, List.any_eq_true]
        refine ⟨o, ho, ?_⟩
        rw [hunksOverlap_handOn]
        rcases hrel with hrel | hrel
        · rw [hnomatch] at hrel
          cases hrel
        · exact hrel
      have hprev : O.find? (·.id == (handOn O t).id) = some o := by
        rw [id_handOn hm]
        cases hfind : O.find? (·.id == o.id) with
        | none =>
          have := find?_eq_none.mp hfind o ho
          simp at this
        | some o2 =>
          have hid : o2.id = o.id := by simpa using find?_some hfind
          rw [inj_on_of_nodup_map hids (mem_of_find?_eq_some hfind) ho hid]
      rw [if_neg hover, hprev]
      change (LocSink.enter ctx env s _ _).acc.lookup id = _
      rw [LocSink.lookup_enter]
      change (if id = (handOn O t).id then
        some ((s.acc.lookup (handOn O t).id).getD (0, 0) + ((handOn O t).counts - o.counts)) else _)
          = _
      rw [id_handOn hm, hknows.1 o hm, getD_some, counts_handOn, add_sub_cancel]

/-- After the events of all new hunks the sink is up to date with them, and
has not forgotten anything else. -/
theorem lookup_newHunkEvents (hids : (O.map (·.id)).Nodup) (T : List Hunk) : ∀ {s : LocSink},
    (∀ t ∈ T, ∀ o ∈ O, findMatchingOldHunk t O = some o → hunksMatchContent o t = true →
      t.counts = o.counts) →
    ((T.map (handOn O)).map (·.id)).Nodup → (∀ t ∈ T, KnowsMatch s O t) →
    ∀ id c, (((T.map (handOn O)).flatMap (newHunkEvent p O source)).foldl
        (LocSink.handleEvent ctx env) s).acc.lookup id = some c
      ↔ (∃ n ∈ T.map (handOn O), n.id = id ∧ n.counts = c)
        ∨ id ∉ (T.map (handOn O)).map (·.id) ∧ s.acc.lookup id = some c := by
  induction T with
  | nil => simp
  | cons t T ih =>
    intro s hsame hnodup hknows id c
    simp only [map_cons, nodup_cons] at hnodup
    have hone : ∀ id, ((newHunkEvent p O source (handOn O t)).foldl
        (LocSink.handleEvent ctx env) s).acc.lookup id
          = if id = (handOn O t).id then some t.counts else s.acc.lookup id :=
      lookup_newHunkEvent hids (hsame t (by simp)) (hknows t (by simp))
    have hrest : ∀ t' ∈ T, KnowsMatch
        ((newHunkEvent p O source (handOn O t)).foldl (LocSink.handleEvent ctx env) s) O t' := by
      intro t' ht'
      have hne : (handOn O t').id ≠ (handOn O t).id := fun heq =>
        hnodup.1 (List.mem_map.mpr ⟨handOn O t', List.mem_map_of_mem ht', heq⟩)
      constructor
      · intro o ho
        rw [id_handOn ho] at hne
        rw [hone, if_neg hne]
        exact (hknows t' (by simp [ht'])).1 o ho
      · intro hnone
        rw [handOn_none hnone] at hne
        rw [hone, if_neg hne]
        exact (hknows t' (by simp [ht'])).2 hnone
    rw [map_cons, flatMap_cons, foldl_append,
      ih (fun t' ht' => hsame t' (by simp [ht'])) hnodup.2 hrest id c, hone]
    by_cases hid : id = (handOn O t).id
    · subst hid
      have hout : ∀ n ∈ T.map (handOn O), n.id ≠ (handOn O t).id := fun n hn hnid =>
        hnodup.1 (List.mem_map.mpr ⟨n, hn, hnid⟩)
      rw [if_pos rfl]
      constructor
      · rintro (⟨n, hn, hnid, -⟩ | ⟨-, hc⟩)
        · exact absurd hnid (hout n hn)
        · exact .inl ⟨handOn O t, by simp, rfl, by simpa using hc⟩
      · rintro (⟨n, hn, hnid, hc⟩ | ⟨hnot, -⟩)
        · rcases mem_cons.mp hn with rfl | hn
          · exact .inr ⟨hnodup.1, by simpa using hc⟩
          · exact absurd hnid (hout n hn)
        · exact absurd (by simp) hnot
    · simp [hid, Ne.symm hid]

/-- The events of a recomputation that continues the old hunks one by one:
the sink forgets the old hunks and knows the new ones. -/
theorem lookup_hunkDiffEvents {s : LocSink} (ht : Tracks O T) (hids : (O.map (·.id)).Nodup)
    (hnodup : ((T.map (handOn O)).map (·.id)).Nodup)
    (hold : ∀ o ∈ O, s.acc.lookup o.id = some o.counts)
    (hfresh : ∀ t ∈ T, s.acc.lookup t.id = none) (id : HunkId) (c : Int × Int) :
    ((hunkDiffEvents p O (T.map (handOn O)) source).foldl
        (LocSink.handleEvent ctx env) s).acc.lookup id = some c
      ↔ (∃ n ∈ T.map (handOn O), n.id = id ∧ n.counts = c)
        ∨ id ∉ (T.map (handOn O)).map (·.id) ∧ id ∉ O.map (·.id) ∧ s.acc.lookup id = some c := by
  -- old hunks that do not live on are forgotten first
  generalize hR : (O.filter fun o => !hasSuccessor (T.map (handOn O)) o) = R
  have hRmem : ∀ o, o ∈ R ↔ o ∈ O ∧ hasSuccessor T o = false := by
    intro o
    rw [← hR, mem_filter, hasSuccessor_handOn, Bool.not_eq_true']
  have hRid : ∀ o ∈ O, (o.id ∈ R.map (·.id) ↔ o ∈ R) := by
    intro o ho
    refine ⟨fun hm => ?_, List.mem_map_of_mem⟩
    obtain ⟨r, hr, hrid⟩ := List.mem_map.mp hm
    rwa [← inj_on_of_nodup_map hids ((hRmem r).mp hr).1 ho hrid]
  generalize hs1 :
    (Actor.removedEvents p R .superseded).foldl (LocSink.handleEvent ctx env) s = s1
  have hlook1 : ∀ id, s1.acc.lookup id = if id ∈ R.map (·.id) then none
      else s.acc.lookup id := by
    intro id
    rw [← hs1, LocSink.lookup_removedEvents]
  have hknows : ∀ t ∈ T, KnowsMatch s1 O t := by
    intro t htmem
    constructor
    · intro o ho
      obtain ⟨homem, hrel⟩ := findMatchingOldHunk_spec ho
      have hlives : hasSuccessor T o = true := by
        rw [hasSuccessor, List.any_eq_true]
        refine ⟨t, htmem, ?_⟩
        rcases hrel with hrel | hrel <;> simp [hrel]
      have hnot : o.id ∉ R.map (·.id) := by
        rw [hRid o homem, hRmem, hlives]
        simp
      rw [hlook1, if_neg hnot]
      exact hold o homem
    · intro _
      rw [hlook1, hfresh t htmem, ite_self]
  have hrun : (hunkDiffEvents p O (T.map (handOn O)) source).foldl (LocSink.handleEvent ctx env) s
      = ((T.map (handOn O)).flatMap (newHunkEvent p O source)).foldl
        (LocSink.handleEvent ctx env) s1 := by
    rw [hunkDiffEvents, foldl_append, hR, ← hs1]
    rfl
  rw [hrun, lookup_newHunkEvents hids T ht.sameCounts hnodup hknows id c]
  refine or_congr Iff.rfl (and_congr_right fun hout => ?_)
  rw [hlook1]
  -- an old id that no new hunk took has been forgotten
  by_cases hid : id ∈ O.map (·.id)
  · obtain ⟨o, ho, rfl⟩ := List.mem_map.mp hid
    have hgone : o ∈ R := by
      refine (hRmem o).mpr ⟨ho, Bool.eq_false_iff.mpr fun hlives => hout ?_⟩
      obtain ⟨t, htmem, hmatch⟩ := ht.noMerge o ho hlives
      exact List.mem_map.mpr ⟨handOn O t, List.mem_map_of_mem htmem, id_handOn hmatch⟩
    rw [if_pos ((hRid o ho).mpr hgone)]
    simp [hid]
  · have hnot : id ∉ R.map (·.id) := by
      intro hm
      obtain ⟨r, hr, rfl⟩ := List.mem_map.mp hm
      exact hid (List.mem_map_of_mem ((hRmem r).mp hr).1)
    rw [if_neg hnot]
    simp [hid]

end Recomputation

/-! ## The sink and the tracker -/

/-- The sink knows exactly the live hunks, at their line counts. -/
def Synced (ctx : LocSinkContext) (senv : SinkEnv) (a : Actor) : Prop :=
  ∀ id c, (LocSink.run ctx senv a.events).acc.lookup id = some c
    ↔ ∃ p, ∃ h ∈ a.hunksAt p, h.id = id ∧ h.counts = c

/-- The line counts of the live hunks. -/
def liveCounts (a : Actor) : Int × Int :=
  Ledger.total (fun st : FileHunkState => (st.hunks.map Hunk.counts).sum) a.fileStates

/-- The records written for a call add up to the change of its hunks. -/
def Recomputation.Conserved (ctx : LocSinkContext) (senv : SinkEnv) (c : Recomputation) : Prop :=
  (LocSink.run ctx senv (c.before ++ c.emitted)).total - (LocSink.run ctx senv c.before).total
    = (c.newHunks.map Hunk.counts).sum - (c.oldHunks.map Hunk.counts).sum

/-- The events of the tracker do not lose the sink. -/
structure LocOk (ctx : LocSinkContext) (senv : SinkEnv) (a : Actor) : Prop where
  synced : Synced ctx senv a
  calls : ∀ c ∈ a.recomputed, c.Conserved ctx senv

section Live

variable {ctx : LocSinkContext} {senv : SinkEnv} {a : Actor} {n : Nat}

theorem run_append (es es' : List HunkEvent) :
    LocSink.run ctx senv (es ++ es')
      = es'.foldl (LocSink.handleEvent ctx senv) (LocSink.run ctx senv es) :=
  foldl_append

/-- The live hunks of all files. -/
def liveHunks (a : Actor) : List Hunk := a.fileStates.entries.flatMap (·.2.hunks)

theorem mem_liveHunks {h : Hunk} : h ∈ liveHunks a ↔ ∃ p, h ∈ a.hunksAt p := by
  rw [liveHunks, mem_flatMap]
  constructor
  · rintro ⟨⟨p, st⟩, he, hh⟩
    have hst : a.file p = some st := AList.mem_lookup_iff.mpr he
    exact ⟨p, by rw [Actor.hunksAt, hst]; exact hh⟩
  · rintro ⟨p, hh⟩
    cases hst : a.file p with
    | none =>
      rw [Actor.hunksAt, hst] at hh
      cases hh
    | some st =>
      rw [Actor.hunksAt, hst] at hh
      exact ⟨⟨p, st⟩, AList.mem_lookup_iff.mp hst, hh⟩

theorem nodup_liveHunks (hi : DistinctIds a.file n) : ((liveHunks a).map (·.id)).Nodup := by
  rw [liveHunks, map_flatMap, nodup_flatMap]
  have hfile : ∀ e ∈ a.fileStates.entries, hunksOf (a.file e.1) = e.2.hunks := by
    intro e he
    have hst : a.file e.1 = some e.2 := AList.mem_lookup_iff.mpr he
    rw [hst]
    rfl
  constructor
  · intro e he
    have := hi.nodup e.1
    rwa [hfile e he] at this
  · have hkeys : a.fileStates.entries.Pairwise fun e e' => e.1 ≠ e'.1 :=
      pairwise_map.mp a.fileStates.nodupKeys
    refine hkeys.imp_of_mem fun {e e'} he he' hne => ?_
    rw [Function.onFun, disjoint_left]
    intro id hid hid'
    obtain ⟨h, hh, hhid⟩ := List.mem_map.mp hid
    obtain ⟨k, hk, hkid⟩ := List.mem_map.mp hid'
    exact hi.disjoint e.1 e'.1 hne h (by rw [hfile e he]; exact hh) k
      (by rw [hfile e' he']; exact hk) (hhid.trans hkid.symm)

theorem Synced.known_eq (h : Synced ctx senv a) (hi : DistinctIds a.file n) :
    (LocSink.run ctx senv a.events).known = liveCounts a := by
  have hsum := Ledger.total_eq_sum (fun x : Int × Int => x) (LocSink.run ctx senv a.events).acc
    (liveHunks a) (·.id) Hunk.counts (nodup_liveHunks hi) fun id c => by
      rw [h id c]
      constructor
      · rintro ⟨p, k, hk, hid, hc⟩
        exact ⟨k, mem_liveHunks.mpr ⟨p, hk⟩, hid, hc⟩
      · rintro ⟨k, hk, hid, hc⟩
        obtain ⟨p, hp⟩ := mem_liveHunks.mp hk
        exact ⟨p, k, hp, hid, hc⟩
  rw [LocSink.known, hsum, liveCounts, Ledger.total, liveHunks]
  induction a.fileStates.entries with
  | nil => rfl
  | cons e es ih => simp [flatMap_cons, ih]

theorem liveCounts_setFile (a : Actor) (p : PathBuf) (st : FileHunkState) :
    liveCounts (a.setFile p st)
      = liveCounts a - ((a.hunksAt p).map Hunk.counts).sum + (st.hunks.map Hunk.counts).sum := by
  rw [liveCounts, Actor.setFile, Ledger.total_insert]
  have hat : (a.fileStates.lookup p).elim 0 (fun st => (st.hunks.map Hunk.counts).sum)
      = ((a.hunksAt p).map Hunk.counts).sum := by
    rw [Actor.hunksAt, Actor.file]
    cases a.fileStates.lookup p <;> rfl
  rw [hat]
  rfl

theorem liveCounts_recomputeHunks (D : LineDiff) (env : Env) {p : PathBuf}
    {st : FileHunkState} (hst : a.file p = some st) (current : Option FileContentState)
    (source : HunkSource) :
    liveCounts (a.recomputeHunks D env p current source)
      = liveCounts a - ((a.hunksAt p).map Hunk.counts).sum
        + (((a.recomputeHunks D env p current source).hunksAt p).map Hunk.counts).sum := by
  have hfiles : ∃ st', (a.recomputeHunks D env p current source).fileStates
      = (a.setFile p st').fileStates := by
    simp only [Actor.recomputeHunks, hst]
    exact ⟨_, rfl⟩
  obtain ⟨st', hst'⟩ := hfiles
  have hat : (a.recomputeHunks D env p current source).hunksAt p = st'.hunks := by
    rw [Actor.hunksAt, Actor.file, hst']
    exact congrArg (Option.elim · [] _) (Actor.file_setFile_self a p st')
  rw [hat, ← liveCounts_setFile, liveCounts, hst']
  rfl

end Live

/-! ## Moves that keep the sink up to date -/

namespace Synced

variable {D : LineDiff} {ctx : LocSinkContext} {senv : SinkEnv} {ex : PathBuf → Prop}
  {env : Env} {a b : Actor} {p : PathBuf} {st : FileHunkState} {hs : List Hunk}

theorem congr (h : Synced ctx senv a) (hhunks : ∀ q, b.hunksAt q = a.hunksAt q)
    (hacc : (LocSink.run ctx senv b.events).acc = (LocSink.run ctx senv a.events).acc) :
    Synced ctx senv b := by
  intro id c
  rw [hacc, h id c]
  exact exists_congr fun q => by rw [hhunks q]

theorem remove (h : Synced ctx senv a) (hi : Inv D ex a) (reason : HunkRemovalReason)
    (frame : ∀ q, q ≠ p → b.hunksAt q = a.hunksAt q) (hsub : ∀ k ∈ hs, k ∈ a.hunksAt p)
    (hkeep : ∀ k, k ∈ b.hunksAt p ↔ k ∈ a.hunksAt p ∧ k.id ∉ hs.map (·.id))
    (he : b.events = a.events ++ Actor.removedEvents p hs reason) : Synced ctx senv b := by
  intro id c
  rw [he, run_append, LocSink.lookup_removedEvents]
  by_cases hid : id ∈ hs.map (·.id)
  · rw [if_pos hid]
    refine iff_of_false nofun ?_
    rintro ⟨q, k, hk, rfl, -⟩
    by_cases hq : q = p
    · subst hq
      exact absurd hid ((hkeep k).mp hk).2
    · -- an id of another file
      rw [frame q hq] at hk
      obtain ⟨l, hl, hlid⟩ := List.mem_map.mp hid
      exact absurd hlid (hi.ids.disjoint p q (Ne.symm hq) l (hsub l hl) k hk)
  · rw [if_neg hid, h id c]
    refine exists_congr fun q => ?_
    by_cases hq : q = p
    · subst hq
      constructor
      · rintro ⟨k, hk, rfl, hc⟩
        exact ⟨k, (hkeep k).mpr ⟨hk, hid⟩, rfl, hc⟩
      · rintro ⟨k, hk, hkid, hc⟩
        exact ⟨k, ((hkeep k).mp hk).1, hkid, hc⟩
    · rw [frame q hq]

theorem recomputeHunks (h : Synced ctx senv a) (hi : Inv D (fun q => ex q ∨ q = p) a)
    (hst : a.file p = some st) (current : Option FileContentState) (source : HunkSource)
    (ht : Tracks st.hunks
      (hunkTable D env a.nextId p source st.baseline (current.getD .missing))) :
    Synced ctx senv (a.recomputeHunks D env p current source) := by
  have hi' : Inv D ex (a.recomputeHunks D env p current source) := hi.recomputeHunks current source
  have hself := Actor.file_recomputeHunks_self D env hst current source
  have hold : a.hunksAt p = st.hunks := by
    rw [Actor.hunksAt, hst]
    rfl
  generalize hT : hunkTable D env a.nextId p source st.baseline (current.getD .missing) = T at ht
  have hN : preserveIds st.hunks [] T = T.map (handOn st.hunks) :=
    preserveIds_eq_map T [] ht.noSplit (by simp)
  rw [hT, hN] at hself
  have hnew : (a.recomputeHunks D env p current source).hunksAt p = T.map (handOn st.hunks) := by
    rw [Actor.hunksAt, hself]
    rfl
  have hframe : ∀ q, q ≠ p →
      (a.recomputeHunks D env p current source).hunksAt q = a.hunksAt q := by
    intro q hq
    rw [Actor.hunksAt, Actor.file_recomputeHunks_ne D env hq]
    rfl
  have hevents : (a.recomputeHunks D env p current source).events
      = a.events ++ hunkDiffEvents p st.hunks (T.map (handOn st.hunks)) source := by
    simp only [Actor.recomputeHunks, hst, hT, hN]
  have hids : (st.hunks.map (·.id)).Nodup := by
    have := hi.ids.nodup p
    rwa [hst] at this
  have hnodup : ((T.map (handOn st.hunks)).map (·.id)).Nodup := by
    have := hi'.ids.nodup p
    rwa [hself] at this
  have hfresh : ∀ t ∈ T, (LocSink.run ctx senv a.events).acc.lookup t.id = none := by
    intro t htmem
    -- the id was issued just now
    have hm : t.id ∈ T.map (·.id) := List.mem_map_of_mem htmem
    rw [← hT, hunkTable_ids] at hm
    obtain ⟨k, hk, hkid⟩ := List.mem_map.mp hm
    have hle := (mem_range'_1.mp hk).1
    rw [eq_none_iff_forall_ne_some]
    intro c hc
    obtain ⟨q, l, hl, hlid, -⟩ := (h t.id c).mp hc
    have hlt := hi.ids.fresh q l hl
    rw [hlid, ← hkid] at hlt
    exact absurd hlt (Nat.not_lt.mpr hle)
  intro id c
  rw [hevents, run_append, lookup_hunkDiffEvents ht hids hnodup
    (fun o ho => (h o.id o.counts).mpr ⟨p, o, by rw [hold]; exact ho, rfl, rfl⟩) hfresh, h id c]
  constructor
  · rintro (⟨n, hn, hnid, hc⟩ | ⟨-, hout, q, k, hk, hkid, hc⟩)
    · exact ⟨p, n, by rw [hnew]; exact hn, hnid, hc⟩
    · have hq : q ≠ p := by
        rintro rfl
        rw [hold] at hk
        exact hout (List.mem_map.mpr ⟨k, hk, hkid⟩)
      exact ⟨q, k, by rw [hframe q hq]; exact hk, hkid, hc⟩
  · rintro ⟨q, k, hk, rfl, hc⟩
    by_cases hq : q = p
    · subst hq
      rw [hnew] at hk
      exact .inl ⟨k, hk, rfl, hc⟩
    · -- a hunk of another file has another id
      refine .inr ⟨fun hm => ?_, fun hm => ?_, q, k, ?_, rfl, hc⟩
      · obtain ⟨n, hn, hnid⟩ := List.mem_map.mp hm
        exact hi'.ids.disjoint p q (Ne.symm hq) n (by rw [hself]; exact hn) k hk hnid
      · obtain ⟨o, ho, hoid⟩ := List.mem_map.mp hm
        rw [hframe q hq] at hk
        exact hi.ids.disjoint p q (Ne.symm hq) o (by rw [hst]; exact ho) k hk hoid
      · rw [← hframe q hq]
        exact hk

end Synced

/-- A recomputation accepts nothing. -/
theorem accepted_notMem_hunkDiffEvents (p : PathBuf) (O N : List Hunk) (source : HunkSource)
    (q : PathBuf) (id : HunkId) :
    HunkEvent.hunkRemoved q id .accepted ∉ hunkDiffEvents p O N source := by
  rw [hunkDiffEvents, mem_append, not_or]
  constructor
  · simp
  · rw [mem_flatMap]
    rintro ⟨n, -, hn⟩
    unfold newHunkEvent at hn
    split at hn
    · split at hn <;> simp at hn
    · split at hn <;> simp at hn

namespace LocOk

variable {D : LineDiff} {ctx : LocSinkContext} {senv : SinkEnv} {ex : PathBuf → Prop}
  {env : Env} {a b : Actor} {p : PathBuf}

theorem of_synced (h : LocOk ctx senv a) (hs : Synced ctx senv b)
    (hr : b.recomputed = a.recomputed) : LocOk ctx senv b :=
  ⟨hs, by rw [hr]; exact h.calls⟩

/-- When nothing is accepted, the records follow what the sink knows. -/
theorem conserved_of_known (hw : ∀ n, senv.writeOk n = true) {c : Recomputation}
    (hno : ∀ q id, HunkEvent.hunkRemoved q id .accepted ∉ c.emitted)
    (hknown : (LocSink.run ctx senv (c.before ++ c.emitted)).known
      = (LocSink.run ctx senv c.before).known - (c.oldHunks.map Hunk.counts).sum
        + (c.newHunks.map Hunk.counts).sum) : c.Conserved ctx senv := by
  have hbal : (LocSink.run ctx senv (c.before ++ c.emitted)).balance
      = (LocSink.run ctx senv c.before).balance := by
    rw [run_append]
    exact LocSink.balance_foldl hw c.emitted hno
  rw [LocSink.balance, LocSink.balance, hknown, sub_eq_iff_eq_add] at hbal
  rw [Recomputation.Conserved, hbal]
  abel

theorem exists_call (D : LineDiff) (env : Env) {st : FileHunkState}
    (hst : a.file p = some st) (current : Option FileContentState) (source : HunkSource) :
    ∃ c : Recomputation,
      (a.recomputeHunks D env p current source).recomputed = a.recomputed ++ [c]
        ∧ c.oldHunks = a.hunksAt p
        ∧ c.table = hunkTable D env a.nextId p source st.baseline (current.getD .missing)
        ∧ c.newHunks = (a.recomputeHunks D env p current source).hunksAt p
        ∧ c.before = a.events
        ∧ (a.recomputeHunks D env p current source).events = c.before ++ c.emitted
        ∧ ∀ q id, HunkEvent.hunkRemoved q id .accepted ∉ c.emitted := by
  have hself := Actor.file_recomputeHunks_self D env hst current source
  rw [Actor.hunksAt, hst, Actor.hunksAt, hself]
  simp only [Actor.recomputeHunks, hst]
  exact ⟨_, rfl, rfl, rfl, rfl, rfl, rfl, accepted_notMem_hunkDiffEvents _ _ _ _⟩

theorem recomputeHunks (hw : ∀ n, senv.writeOk n = true) (h : LocOk ctx senv a)
    (hi : Inv D (fun q => ex q ∨ q = p) a) (current : Option FileContentState)
    (source : HunkSource)
    (ht : ∀ c ∈ (a.recomputeHunks D env p current source).recomputed,
      Tracks c.oldHunks c.table) :
    LocOk ctx senv (a.recomputeHunks D env p current source) := by
  cases hst : a.file p with
  | none =>
    simp only [Actor.recomputeHunks, hst]
    exact h
  | some st =>
    obtain ⟨c, hrec, hold, htable, hnew, hbefore, hevents, hno⟩ :=
      exists_call D env hst current source
    have hat : a.hunksAt p = st.hunks := by
      rw [Actor.hunksAt, hst]
      rfl
    have htracks := ht c (by rw [hrec]; simp)
    rw [hold, htable, hat] at htracks
    have hsync : Synced ctx senv (a.recomputeHunks D env p current source) :=
      h.synced.recomputeHunks hi hst current source htracks
    have hi' : Inv D ex (a.recomputeHunks D env p current source) :=
      hi.recomputeHunks current source
    refine ⟨hsync, fun c' hc' => ?_⟩
    rw [hrec, mem_append, mem_singleton] at hc'
    rcases hc' with hc' | rfl
    · exact h.calls c' hc'
    · -- the live hunks change in one file
      refine conserved_of_known hw hno ?_
      rw [← hevents, hsync.known_eq hi'.ids, liveCounts_recomputeHunks D env hst, hbefore,
        h.synced.known_eq hi.ids, hold, hnew]

end LocOk

/-! ## Runs -/

/-- What the sink can live with: hunks do not go without a word, and a
restored snapshot has the hunks that are live. A rejection that fails sends
no event. -/
def locCaution : Caution where
  drop := fun hs => hs = []
  fail := fun _ => True
  restore := fun a s => ∀ p, hunksOf (s.fileStates.lookup p) = a.hunksAt p

/-- As long as every recomputation continues the old hunks one by one. -/
def LocOkIfTracking (ctx : LocSinkContext) (senv : SinkEnv) (a : Actor) : Prop :=
  (∀ c ∈ a.recomputed, Tracks c.oldHunks c.table) → LocOk ctx senv a

theorem acc_run_fileEvent (ctx : LocSinkContext) (senv : SinkEnv) (es : List HunkEvent)
    {e : HunkEvent} (he : e.IsFileEvent) :
    (LocSink.run ctx senv (es ++ [e])).acc = (LocSink.run ctx senv es).acc := by
  rw [run_append]
  cases e with
  | fileAdded p b => rfl
  | fileRemoved p => rfl
  | baselineUpdated p => rfl
  | _ => cases he

theorem hunksAt_setFile_ne (a : Actor) {p q : PathBuf} (st : FileHunkState) (hq : q ≠ p) :
    (a.setFile p st).hunksAt q = a.hunksAt q := by
  rw [Actor.hunksAt, Actor.file_setFile_ne a st hq]
  rfl

theorem hunksAt_setFile_self (a : Actor) (p : PathBuf) (st : FileHunkState) :
    (a.setFile p st).hunksAt p = st.hunks := by
  rw [Actor.hunksAt, Actor.file_setFile_self]
  rfl

theorem Synced.setFile {ctx : LocSinkContext} {senv : SinkEnv} {a : Actor} {p : PathBuf}
    {st : FileHunkState} (h : Synced ctx senv a) (hsame : st.hunks = a.hunksAt p) :
    Synced ctx senv (a.setFile p st) := by
  refine h.congr (fun q => ?_) rfl
  by_cases hq : q = p
  · subst hq
    rw [hunksAt_setFile_self, hsame]
  · exact hunksAt_setFile_ne a st hq

theorem loc_preserved (D : LineDiff) (ctx : LocSinkContext) (senv : SinkEnv)
    (hw : ∀ n, senv.writeOk n = true) : Preserved D locCaution (LocOkIfTracking ctx senv) where
  congr {a b} h hf _ he _ hr _ ht := by
    have h' := h (by rw [← hr]; exact ht)
    refine h'.of_synced (h'.synced.congr (fun q => ?_) (by rw [he])) hr
    rw [Actor.hunksAt, Actor.file, hf]
    rfl
  announce {a e} h he ht :=
    (h ht).of_synced ((h ht).synced.congr (fun _ => rfl) (acc_run_fileEvent ctx senv a.events he))
      rfl
  setFile h hsame ht := (h ht).of_synced ((h ht).synced.setFile hsame) rfl
  clear _ h hdrop hnil ht :=
    (h ht).of_synced ((h ht).synced.setFile (hnil.trans hdrop.symm)) rfl
  remove {ex a p st st' hs} hi h hst hsub hkeep reason ht := by
    have hat : a.hunksAt p = st.hunks := by
      rw [Actor.hunksAt, hst]
      rfl
    refine (h ht).of_synced ((h ht).synced.remove hi reason
      (fun q hq => hunksAt_setFile_ne a st' hq) (fun k hk => ?_) (fun k => ?_) (by rfl)) rfl
    · rw [hat]
      exact hsub.subset hk
    · change k ∈ (a.setFile p st').hunksAt p ↔ _
      rw [hunksAt_setFile_self, hkeep, hat, Actor.without, mem_filter, decide_eq_true_eq]
  untrack {ex a p st} hi h hst ht := by
    have hat : a.hunksAt p = st.hunks := by
      rw [Actor.hunksAt, hst]
      rfl
    refine (h ht).of_synced ((h ht).synced.remove hi .superseded (fun q hq => ?_)
      (fun k hk => ?_) (fun k => ?_) (by rfl)) rfl
    · change (a.eraseFile p).hunksAt q = _
      rw [Actor.hunksAt, Actor.file_eraseFile_ne a hq]
      rfl
    · rw [hat]
      exact hk
    · change k ∈ (a.eraseFile p).hunksAt p ↔ _
      rw [Actor.hunksAt, Actor.file_eraseFile_self, hat]
      exact iff_of_false not_mem_nil fun hk => hk.2 (List.mem_map_of_mem hk.1)
  fail h _ ht := (h ht).of_synced ((h ht).synced.congr (fun _ => rfl) rfl) rfl
  recompute {ex env a p} hi h current source ht := by
    refine LocOk.recomputeHunks hw (h fun c hc => ht c ?_) hi current source ht
    unfold Actor.recomputeHunks
    split
    · exact hc
    · exact mem_append_left _ hc
  snapshot h ht := (h ht).of_synced ((h ht).synced.congr (fun _ => rfl) rfl) rfl
  restore h _ hsame ht := (h ht).of_synced ((h ht).synced.congr hsame rfl) rfl

/-- **The records add up.** In a careful run whose recomputations continue
the old hunks one by one, and with a writer that does not fail, the records
of each call add up to the change of its hunks; and as long as nothing is
accepted, all records add up to the line counts of the live hunks. -/
theorem careful_run_loc (D : LineDiff) (ctx : LocSinkContext) (senv : SinkEnv)
    (workingDir : PathBuf) (mode : TrackingMode) (a : Actor)
    (hw : ∀ n, senv.writeOk n = true)
    (h : Relation.ReflTransGen (CarefulStep D locCaution) (Actor.new workingDir mode) a)
    (ht : ∀ c ∈ a.recomputed, Tracks c.oldHunks c.table) :
    (∀ c ∈ a.recomputed, c.Conserved ctx senv)
      ∧ ((∀ p id, HunkEvent.hunkRemoved p id .accepted ∉ a.events) →
        (LocSink.run ctx senv a.events).total = liveCounts a) := by
  have hnew : LocOkIfTracking ctx senv (Actor.new workingDir mode) := by
    refine fun _ => ⟨fun id c => iff_of_false nofun ?_, nofun⟩
    rintro ⟨p, k, hk, -⟩
    cases hk
  obtain ⟨hok, hi⟩ := (loc_preserved D ctx senv hw).run hnew h
  refine ⟨(hok ht).calls, fun hno => ?_⟩
  have hbal : (LocSink.run ctx senv a.events).balance = 0 :=
    LocSink.balance_foldl hw a.events hno
  rw [LocSink.balance, sub_eq_zero] at hbal
  rw [hbal, (hok ht).synced.known_eq hi.ids]

/-- A sink whose writes all succeed. -/
def SinkEnv.reliable : SinkEnv where
  now := fun _ => 0
  writeOk := fun _ => true

def LocSinkContext.local : LocSinkContext where
  sessionId := "session"
  agentId := "agent"
  userId := none
  aggregateTx := false

/-- An agent write that changes three lines. -/
def rewritten : Actor :=
  (Actor.new [] .agentOnly).handleCommand .lcs .quiet
    (.recordAgentWrite ["f"] "X\nY\nZ\n".toList 0 (some "a\nb\nc\n".toList))

theorem careful_run_loc_write :
    (LocSink.run .local .reliable rewritten.events).total = liveCounts rewritten := by
  have hcalls : ∀ c ∈ rewritten.recomputed, Tracks c.oldHunks c.table := by decide
  have hkinds : ∀ e ∈ rewritten.events,
      (match e with | .hunkRemoved _ _ .accepted => false | _ => true) = true := by decide
  exact (careful_run_loc .lcs .local .reliable [] .agentOnly rewritten (fun _ => rfl)
    (.single (.command .quiet _ _ trivial (.inl (by decide)))) hcalls).2
      fun p id hm => Bool.false_ne_true (hkinds _ hm)

/-- The agent puts the middle line back: one hunk becomes two. -/
def splitInTwo : Actor :=
  rewritten.handleCommand .lcs .quiet (.recordAgentWrite ["f"] "X\nb\nZ\n".toList 0 none)

/-- Two lines are left of three, but the second call takes four away. -/
theorem splitInTwo_miscounted :
    Actor.Reachable .lcs splitInTwo
      ∧ (∃ c ∈ splitInTwo.recomputed, ¬ c.Conserved .local .reliable)
      ∧ (LocSink.run .local .reliable splitInTwo.events).total = (-1, -1)
      ∧ liveCounts splitInTwo = (2, 2) := by
  refine ⟨?_, ?_, by decide, by decide⟩
  · have hfirst : Actor.Step .lcs (Actor.new [] .agentOnly) rewritten :=
      .command .quiet _ _ trivial
    have hsecond : Actor.Step .lcs rewritten splitInTwo := .command .quiet _ _ trivial
    exact ⟨[], .agentOnly, .tail (.single hfirst) hsecond⟩
  · unfold Recomputation.Conserved
    decide

end GrokBuild.HunkTracker
