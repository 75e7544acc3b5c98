import GrokBuild.HunkTracker.Careful

/-!
# Hunk tracker: the turn index

The turn index is a second copy of the agent attributions of the live
hunks, kept up to date by hand. `Coherent` says that it is exact; the moves
that drop or book hunks without the index keep it only when none of these
hunks is an agent's.
-/

namespace GrokBuild.HunkTracker

open TextLines Str EditScript List

/-! ## The index as a set -/

/-- Some hunk of the list is attributed to turn `k` and has this id. -/
def InTurn (k : Nat) (hs : List Hunk) (id : HunkId) : Prop :=
  ∃ h ∈ hs, h.source.promptIndex = some k ∧ h.id = id

/-- No hunk of the list is attributed to the agent. -/
def NoAgent (hs : List Hunk) : Prop := ∀ h ∈ hs, h.source.promptIndex = none

theorem NoAgent.not_inTurn {hs : List Hunk} (h : NoAgent hs) (k : Nat) (id : HunkId) :
    ¬ InTurn k hs id := by
  rintro ⟨g, hg, hk, -⟩
  rw [h g hg] at hk
  cases hk

theorem inTurn_cons {k : Nat} {h : Hunk} {hs : List Hunk} {id : HunkId} :
    InTurn k (h :: hs) id ↔ (h.source.promptIndex = some k ∧ h.id = id) ∨ InTurn k hs id := by
  simp [InTurn]

namespace TurnIndex

theorem mem_remove (t : TurnIndex) (h : Hunk) (k : Nat) (id : HunkId) :
    id ∈ (t.remove h) k ↔ id ∈ t k ∧ ¬ (h.source.promptIndex = some k ∧ h.id = id) := by
  unfold remove
  cases hp : h.source.promptIndex with
  | none => simp
  | some j =>
    by_cases hk : k = j
    · subst hk
      simp only [Function.update_self, Finset.mem_erase, ne_eq, true_and]
      exact ⟨fun ⟨h1, h2⟩ => ⟨h2, fun h3 => h1 h3.symm⟩, fun ⟨h1, h2⟩ => ⟨fun h3 => h2 h3.symm, h1⟩⟩
    · have hjk : j ≠ k := Ne.symm hk
      simp [Function.update_of_ne hk, hjk]

theorem mem_insert (t : TurnIndex) (h : Hunk) (k : Nat) (id : HunkId) :
    id ∈ (t.insert h) k ↔ (h.source.promptIndex = some k ∧ h.id = id) ∨ id ∈ t k := by
  unfold insert
  cases hp : h.source.promptIndex with
  | none => simp
  | some j =>
    by_cases hk : k = j
    · subst hk
      simp only [Function.update_self, Finset.mem_insert, true_and]
      exact or_congr eq_comm Iff.rfl
    · have hjk : j ≠ k := Ne.symm hk
      simp [Function.update_of_ne hk, hjk]

theorem mem_removeAll (hs : List Hunk) : ∀ (t : TurnIndex) (k : Nat) (id : HunkId),
    id ∈ (t.removeAll hs) k ↔ id ∈ t k ∧ ¬ InTurn k hs id := by
  induction hs with
  | nil => simp [removeAll, InTurn]
  | cons h hs ih =>
    intro t k id
    have := ih (t.remove h) k id
    rw [removeAll, foldl_cons]
    rw [removeAll] at this
    rw [this, mem_remove, inTurn_cons, not_or, and_assoc]

theorem mem_insertAll (hs : List Hunk) : ∀ (t : TurnIndex) (k : Nat) (id : HunkId),
    id ∈ (t.insertAll hs) k ↔ id ∈ t k ∨ InTurn k hs id := by
  induction hs with
  | nil => simp [insertAll, InTurn]
  | cons h hs ih =>
    intro t k id
    have := ih (t.insert h) k id
    rw [insertAll, foldl_cons]
    rw [insertAll] at this
    rw [this, mem_insert, inTurn_cons]
    tauto

end TurnIndex

/-! ## Coherence -/

/-- The index lists exactly the agent hunks of the files. -/
def IndexOf (t : TurnIndex) (f : PathBuf → Option FileHunkState) : Prop :=
  ∀ k id, id ∈ t k ↔ ∃ p, InTurn k (hunksOf (f p)) id

structure Coherent (a : Actor) : Prop where
  index : IndexOf a.turnIndex a.file
  snapshots : ∀ s ∈ a.snapshots, IndexOf s.turnIndex s.fileStates.lookup

section Rewriting

variable {t u : TurnIndex} {f g : PathBuf → Option FileHunkState} {n : Nat} {p : PathBuf}

theorem IndexOf.rewrite (h : IndexOf t f) (hi : DistinctIds f n)
    (frame : ∀ q, q ≠ p → g q = f q)
    (hu : ∀ k id, id ∈ u k ↔
      (id ∈ t k ∧ ¬ InTurn k (hunksOf (f p)) id) ∨ InTurn k (hunksOf (g p)) id) :
    IndexOf u g := by
  intro k id
  rw [hu, h k id]
  constructor
  · rintro (⟨⟨q, hq⟩, hp⟩ | hp)
    · by_cases hqp : q = p
      · exact absurd (hqp ▸ hq) hp
      · exact ⟨q, by rw [frame q hqp]; exact hq⟩
    · exact ⟨p, hp⟩
  · rintro ⟨q, hq⟩
    by_cases hqp : q = p
    · exact .inr (hqp ▸ hq)
    · rw [frame q hqp] at hq
      refine .inl ⟨⟨q, hq⟩, ?_⟩
      -- ids of different files are different
      rintro ⟨l, hl, -, hlid⟩
      obtain ⟨m, hm, -, hmid⟩ := hq
      exact hi.disjoint q p hqp m hm l hl (hmid.trans hlid.symm)

theorem IndexOf.drop {hs : List Hunk} (h : IndexOf t f) (hi : DistinctIds f n)
    (frame : ∀ q, q ≠ p → g q = f q) (hsub : ∀ k ∈ hs, k ∈ hunksOf (f p))
    (hkeep : ∀ k, k ∈ hunksOf (g p) ↔ k ∈ hunksOf (f p) ∧ k.id ∉ hs.map (·.id)) :
    IndexOf (t.removeAll hs) g := by
  refine h.rewrite hi frame fun k id => ?_
  rw [TurnIndex.mem_removeAll]
  -- the hunks of the turn are those dropped and those kept
  have hsplit : InTurn k (hunksOf (f p)) id ↔ InTurn k hs id ∨ InTurn k (hunksOf (g p)) id := by
    constructor
    · rintro ⟨l, hl, hlk, hlid⟩
      by_cases hm : l.id ∈ hs.map (·.id)
      · obtain ⟨m, hm, hmid⟩ := List.mem_map.mp hm
        have : m = l := inj_on_of_nodup_map (hi.nodup p) (hsub m hm) hl hmid
        exact .inl ⟨l, this ▸ hm, hlk, hlid⟩
      · exact .inr ⟨l, (hkeep l).mpr ⟨hl, hm⟩, hlk, hlid⟩
    · rintro (⟨l, hl, hlk⟩ | ⟨l, hl, hlk⟩)
      · exact ⟨l, hsub l hl, hlk⟩
      · exact ⟨l, ((hkeep l).mp hl).1, hlk⟩
  have hapart : InTurn k (hunksOf (g p)) id → ¬ InTurn k hs id := by
    rintro ⟨l, hl, -, hlid⟩ ⟨m, hm, -, hmid⟩
    exact ((hkeep l).mp hl).2 (List.mem_map.mpr ⟨m, hm, hmid.trans hlid.symm⟩)
  have hin : InTurn k (hunksOf (g p)) id → id ∈ t k := fun hg =>
    (h k id).mpr ⟨p, hsplit.mpr (.inr hg)⟩
  rw [hsplit]
  tauto

theorem IndexOf.clear (h : IndexOf t f) (hi : DistinctIds f n)
    (frame : ∀ q, q ≠ p → g q = f q) (hno : NoAgent (hunksOf (f p)))
    (hnil : hunksOf (g p) = []) : IndexOf t g := by
  refine h.rewrite hi frame fun k id => ?_
  have h1 := hno.not_inTurn k id
  have h2 : ¬ InTurn k (hunksOf (g p)) id := by simp [hnil, InTurn]
  tauto

theorem IndexOf.same (h : IndexOf t f) (hfg : ∀ q, hunksOf (g q) = hunksOf (f q)) :
    IndexOf t g := by
  intro k id
  rw [h k id]
  exact exists_congr fun q => by rw [hfg q]

end Rewriting

/-! ## Moves that keep the index -/

namespace Coherent

variable {D : LineDiff} {env : Env} {ex : PathBuf → Prop} {a a' : Actor} {p : PathBuf}
  {st st' : FileHunkState} {hs : List Hunk}

theorem congr (h : Coherent a) (hf : a'.file = a.file) (ht : a'.turnIndex = a.turnIndex)
    (hs : a'.snapshots = a.snapshots) : Coherent a' where
  index := by rw [hf, ht]; exact h.index
  snapshots s hs' := h.snapshots s (by rw [← hs]; exact hs')

theorem setFile_same (h : Coherent a) (hsame : st.hunks = a.hunksAt p) :
    Coherent (a.setFile p st) where
  index := by
    refine h.index.same fun q => ?_
    by_cases hq : q = p
    · subst hq
      rw [Actor.file_setFile_self]
      exact hsame
    · rw [Actor.file_setFile_ne a st hq]
  snapshots := h.snapshots

theorem dropHunks (h : Coherent a) (hi : Inv D ex a) (hst : a.file p = some st)
    (hsub : hs.Sublist st.hunks) (hkeep : st'.hunks = Actor.without st hs) :
    Coherent ((a.setFile p st').unindex hs) where
  index := by
    refine h.index.drop hi.ids (fun q hq => Actor.file_setFile_ne a st' hq)
      (by rw [hst]; exact fun k hk => hsub.subset hk) fun k => ?_
    rw [Actor.file_unindex, Actor.file_setFile_self, hst]
    simp only [hunksOf, Option.elim_some, hkeep, Actor.without, mem_filter,
      decide_eq_true_eq]
  snapshots := h.snapshots

theorem eraseFile (h : Coherent a) (hi : Inv D ex a) (hst : a.file p = some st) :
    Coherent ((a.eraseFile p).unindex st.hunks) where
  index := by
    refine h.index.drop hi.ids (fun q hq => Actor.file_eraseFile_ne a hq)
      (by rw [hst]; exact fun _ hk => hk) fun k => ?_
    rw [Actor.file_unindex, Actor.file_eraseFile_self, hst]
    simp only [hunksOf, Option.elim_some, Option.elim_none, not_mem_nil, false_iff]
    exact fun hk => hk.2 (List.mem_map_of_mem hk.1)
  snapshots := h.snapshots

theorem setFile_clear (h : Coherent a) (hi : Inv D ex a) (hno : NoAgent (a.hunksAt p))
    (hnil : st.hunks = []) : Coherent (a.setFile p st) where
  index := by
    refine h.index.clear hi.ids (fun q hq => Actor.file_setFile_ne a st hq) hno ?_
    rw [Actor.file_setFile_self]
    exact hnil
  snapshots := h.snapshots

theorem recomputeHunks (h : Coherent a) (hi : Inv D ex a)
    (current : Option FileContentState) (source : HunkSource) :
    Coherent (a.recomputeHunks D env p current source) := by
  cases hst : a.file p with
  | none =>
    simp only [Actor.recomputeHunks, hst]
    exact h
  | some st =>
    have hself := Actor.file_recomputeHunks_self D env hst current source
    refine ⟨h.index.rewrite hi.ids
      (fun q hq => Actor.file_recomputeHunks_ne D env hq current source) fun k id => ?_, ?_⟩
    · rw [hself, hst]
      simp only [Actor.recomputeHunks, hst, TurnIndex.mem_insertAll, TurnIndex.mem_removeAll]
      rfl
    · simp only [Actor.recomputeHunks, hst]
      exact h.snapshots

theorem book (h : Coherent a) (hno : NoAgent hs) (action : HunkAction) :
    Coherent (a.book hs action) where
  index k id := by
    have := hno.not_inTurn k id
    simp only [Actor.book, Actor.unindex, TurnIndex.mem_removeAll, this, not_false_eq_true,
      and_true]
    exact h.index k id
  snapshots := h.snapshots

theorem restoreSnapshot (h : Coherent a) {s : HunkTrackerSnapshot} (hs : s ∈ a.snapshots) :
    Coherent (a.restoreSnapshot s) :=
  ⟨h.snapshots s hs, h.snapshots⟩

theorem handleQuery (h : Coherent a) (q : Query) : Coherent (a.handleQuery q) := by
  cases q with
  | snapshotState =>
    refine ⟨h.index, fun s hs => ?_⟩
    rcases mem_append.mp hs with hs | hs
    · exact h.snapshots s hs
    · rw [mem_singleton.mp hs]
      exact h.index
  | _ => exact h

theorem new (workingDir : PathBuf) (mode : TrackingMode) :
    Coherent (Actor.new workingDir mode) where
  index k id := by simp [Actor.new, InTurn, hunksOf, Actor.file]
  snapshots s hs := by cases hs

end Coherent

/-- What the index can live with: nothing may happen to agent hunks behind
its back. Any snapshot taken earlier may be restored. -/
def indexCaution : Caution where
  drop := NoAgent
  fail := NoAgent
  restore := fun _ _ => True

theorem coherent_preserved (D : LineDiff) : Preserved D indexCaution Coherent where
  congr h hf ht _ hs _ _ := h.congr (by funext q; simp only [Actor.file, hf]) ht hs
  announce h _ := h.congr rfl rfl rfl
  setFile h hsame := h.setFile_same hsame
  clear hi h hno hnil := h.setFile_clear hi hno hnil
  remove hi h hst hsub hkeep _ := (h.dropHunks hi hst hsub hkeep).congr rfl rfl rfl
  untrack hi h hst := (h.eraseFile hi hst).congr rfl rfl rfl
  fail h hno := h.book hno .reject
  recompute hi h current source := h.recomputeHunks hi current source
  snapshot h := h.handleQuery .snapshotState
  restore h hs _ := h.restoreSnapshot hs

/-! ## In every state of a careful run -/

/-- The index of a turn is the set of ids of the live hunks of the turn. -/
def IndexExact (a : Actor) : Prop :=
  ∀ k id, id ∈ a.turnIndex k ↔ ∃ p, ∃ h ∈ a.hunksAt p, h.source = .agentEdit k ∧ h.id = id

theorem HunkSource.promptIndex_eq_some {s : HunkSource} {k : Nat} :
    s.promptIndex = some k ↔ s = .agentEdit k := by
  cases s <;> simp [HunkSource.promptIndex]

/-- **The turn index is exact** in every state that careful turns of the
loop lead to. -/
theorem careful_run_indexExact (D : LineDiff) (workingDir : PathBuf) (mode : TrackingMode)
    (a : Actor) (h : Relation.ReflTransGen (CarefulStep D indexCaution) (Actor.new workingDir mode) a) :
    IndexExact a := by
  intro k id
  have hcoherent := ((coherent_preserved D).run (Coherent.new workingDir mode) h).1
  rw [hcoherent.index k id]
  refine exists_congr fun p => exists_congr fun l => and_congr_right fun _ => ?_
  rw [HunkSource.promptIndex_eq_some]

/-- One agent write, in turn 0. -/
def writtenOnce : Actor :=
  (Actor.new [] .agentOnly).handleCommand .lcs .quiet
    (.recordAgentWrite ["f"] "a\nX\nc\n".toList 0 (some "a\nb\nc\n".toList))

theorem careful_run_indexExact_write :
    IndexExact writtenOnce ∧ HunkId.mk 0 ∈ writtenOnce.turnIndex 0 :=
  ⟨careful_run_indexExact .lcs [] .agentOnly writtenOnce
    (.single (.command .quiet _ _ trivial (.inl (by decide)))), by decide⟩

/-- A second write of a content that cannot be diffed, in turn 1. -/
def writtenOpaque : Actor :=
  writtenOnce.handleCommand .lcs .quiet
    (.recordAgentWrite ["f"] [Char.ofNat 0] 1 none)

/-- The hunk of turn 0 is gone, its id is still listed. -/
theorem opaqueWrite_leaves_index :
    Actor.Reachable .lcs writtenOpaque ∧ ¬ IndexExact writtenOpaque := by
  constructor
  · have hfirst : Actor.Step .lcs (Actor.new [] .agentOnly) writtenOnce :=
      .command .quiet _ _ trivial
    have hsecond : Actor.Step .lcs writtenOnce writtenOpaque := .command .quiet _ _ trivial
    exact ⟨[], .agentOnly, .tail (.single hfirst) hsecond⟩
  · intro h
    have hlisted : HunkId.mk 0 ∈ writtenOpaque.turnIndex 0 := by decide
    obtain ⟨p, k, hk, -, -⟩ := (h 0 ⟨0⟩).mp hlisted
    have hkeys : writtenOpaque.fileStates.keys = [["f"]] := by decide
    have hnil : writtenOpaque.hunksAt ["f"] = [] := by decide
    by_cases hp : p = ["f"]
    · rw [hp, hnil] at hk
      cases hk
    · have hnone : writtenOpaque.file p = none := by
        rw [Actor.file, AList.lookup_eq_none, AList.mem_keys, hkeys]
        simpa using hp
      simp [Actor.hunksAt, hnone] at hk

end GrokBuild.HunkTracker
