import GrokBuild.HunkTracker.Agree
import GrokBuild.HunkTracker.Checkpoints
import GrokBuild.HunkTracker.TurnIndex
import Mathlib.Data.List.TakeWhile

/-!
# Hunk tracker: re-seeding

When the tracker that is put together from the checkpoints is the tracker
that there was at the end of an earlier prompt.
-/

namespace GrokBuild.HunkTracker

open TextLines Str EditScript Numbered List Option

variable {D : LineDiff}

/-! ## One write -/

variable {k : Nat}

theorem source_of_mem_preserveIds {oldHunks : List Hunk} {hs : List Hunk}
    (hsource : ∀ h ∈ hs, h.source = .agentEdit k) (claimed : List HunkId) :
    ∀ h ∈ preserveIds oldHunks claimed hs, h.source = .agentEdit k := by
  induction hs generalizing claimed with
  | nil => simp [preserveIds]
  | cons g hs ih =>
    have hg := hsource g (.head _)
    have hrest := ih fun h hh => hsource h (.tail _ hh)
    intro h hh
    unfold preserveIds at hh
    split at hh
    · rcases mem_cons.mp hh with rfl | hh
      · exact hg
      · exact hrest claimed h hh
    · split at hh
      · rcases mem_cons.mp hh with rfl | hh
        · exact hg
        · exact hrest claimed h hh
      · rcases mem_cons.mp hh with rfl | hh
        · simp [hg, HunkSource.isExternal]
        · exact hrest _ h hh

/-- A write of turn `k` to a file: the hunks of the file are the turn's from
then on. The index keeps pace, unless the hunks were just dropped. -/
structure Rewrites (k : Nat) (p : PathBuf) (a a' : Actor) : Prop where
  frame : ∀ q, q ≠ p → a'.file q = a.file q
  source : ∀ h ∈ a'.hunksAt p, h.source = .agentEdit k
  ids : ∀ h ∈ a'.hunksAt p, (∃ o ∈ a.hunksAt p, o.id = h.id) ∨ a.nextId ≤ h.id.val
  nextId : a.nextId ≤ a'.nextId
  index : (a'.hunksAt p = [] ∧ a'.turnIndex = a.turnIndex) ∨
    ∀ j id, id ∈ a'.turnIndex j ↔
      (id ∈ a.turnIndex j ∧ ¬ InTurn j (a.hunksAt p) id) ∨ InTurn j (a'.hunksAt p) id

namespace Rewrites

variable {env : Env} {a b : Actor} {p : PathBuf} {k : Nat}

theorem recomputeHunks (hi : Sound D b) {st : FileHunkState} (hst : b.file p = some st)
    (current : FileContentState) :
    Rewrites k p b (b.recomputeHunks D env p (some current) (.agentEdit k)) := by
  have hself := Actor.file_recomputeHunks_self D env hst (some current) (.agentEdit k)
  have hold : b.hunksAt p = st.hunks := by
    rw [Actor.hunksAt, hst]
    rfl
  have hnew : (b.recomputeHunks D env p (some current) (.agentEdit k)).hunksAt p =
      preserveIds st.hunks [] (hunkTable D env b.nextId p (.agentEdit k) st.baseline current) := by
    rw [Actor.hunksAt, hself]
    rfl
  refine ⟨fun q hq => Actor.file_recomputeHunks_ne D env hq _ _, ?_, ?_, ?_, .inr fun j id => ?_⟩
  · rw [hnew]
    exact source_of_mem_preserveIds (fun h hh => (of_mem_hunkTable hh).2) []
  · rw [hnew, hold]
    have hfresh : ∀ o ∈ st.hunks, o.id.val < b.nextId := fun o ho =>
      hi.ids.fresh p o (by rw [hst]; exact ho)
    intro h hh
    rcases (table_preserveIds D env p (.agentEdit k) st.baseline current hfresh).2 h hh with
      hsame | ⟨hge, -⟩
    · exact .inl hsame
    · exact .inr hge
  · simp only [Actor.recomputeHunks, hst]
    exact Nat.le_add_right _ _
  · rw [hnew, hold]
    simp only [Actor.recomputeHunks, hst, TurnIndex.mem_insertAll, TurnIndex.mem_removeAll]
    rfl

theorem after {a' : Actor} (h : Rewrites k p b a') (hframe : ∀ q, q ≠ p → b.file q = a.file q)
    (hhunks : b.hunksAt p = a.hunksAt p) (hindex : b.turnIndex = a.turnIndex)
    (hnext : b.nextId = a.nextId) : Rewrites k p a a' where
  frame q hq := (h.frame q hq).trans (hframe q hq)
  source := h.source
  ids := by
    rw [← hhunks, ← hnext]
    exact h.ids
  nextId := hnext ▸ h.nextId
  index := by
    rw [← hhunks, ← hindex]
    exact h.index

theorem turnIndex_discover (env : Env) (a : Actor) :
    (a.discover env).turnIndex = a.turnIndex := by
  obtain ⟨g, hg⟩ := a.discover_eq env
  rw [hg]

theorem nextId_discover (env : Env) (a : Actor) : (a.discover env).nextId = a.nextId := by
  obtain ⟨g, hg⟩ := a.discover_eq env
  rw [hg]

theorem recordOpaqueWrite (current : FileContentState) (previous : Option Text)
    (hframe : ∀ q, q ≠ p → (a.recordOpaqueWrite env p current previous).file q = a.file q) :
    Rewrites k p a (a.recordOpaqueWrite env p current previous) := by
  have hdropped : (a.recordOpaqueWrite env p current previous).hunksAt p = [] ∧
      (a.recordOpaqueWrite env p current previous).turnIndex = a.turnIndex ∧
      (a.recordOpaqueWrite env p current previous).nextId = a.nextId := by
    unfold Actor.recordOpaqueWrite
    split
    · refine ⟨?_, ?_, ?_⟩
      · simp [Actor.hunksAt, Actor.trackFile, Actor.agentFile]
      · cases previous with
        | none => exact turnIndex_discover env a
        | some text => rfl
      · cases previous with
        | none => exact nextId_discover env a
        | some text => rfl
    · exact ⟨by simp [Actor.hunksAt], rfl, rfl⟩
  obtain ⟨hnil, hindex, hnext⟩ := hdropped
  refine ⟨hframe, ?_, ?_, Nat.le_of_eq hnext.symm, .inl ⟨hnil, hindex⟩⟩
  · rw [hnil]
    exact fun _ hh => by cases hh
  · rw [hnil]
    exact fun _ hh => by cases hh

theorem recordAgentWrite (hi : Sound D a) (content : Text) (previous : Option Text) :
    Rewrites k p a (a.recordAgentWrite D env p content k previous) := by
  have hlocal := Actor.Local.recordAgentWrite D env p a content k previous
  unfold Actor.recordAgentWrite at hlocal ⊢
  dsimp only at hlocal ⊢
  split
  · next hopaque =>
    rw [if_pos hopaque] at hlocal
    exact recordOpaqueWrite _ previous hlocal.file
  · split
    · next hnone =>
      have htracked : Sound D ((a.discover env).trackFile p (Actor.agentFile
          (Actor.agentBaseline (a.headContent env p) previous) (classifyString content))) :=
        Inv.trackFile (Inv.discover hi env) rfl
      refine (recomputeHunks htracked (Actor.file_setFile_self _ p _) _).after
        (fun q hq => ?_) ?_ (turnIndex_discover env a) (nextId_discover env a)
      · exact (Actor.file_setFile_ne _ _ hq).trans (Actor.file_discover a q env)
      · simp [Actor.hunksAt, hnone, Actor.trackFile, Actor.agentFile]
    · next st hst =>
      refine (recomputeHunks (Sound.setFlags hi hst) (Actor.file_setFile_self a p _) _).after
        (fun q hq => Actor.file_setFile_ne a _ hq) ?_ rfl rfl
      simp [Actor.hunksAt, hst]

end Rewrites

/-! ## Turns -/

/-- A live hunk is in the index under its turn, and under no other. What else
the index lists is gone. -/
structure Attributed (a : Actor) : Prop where
  index : ∀ p, ∀ h ∈ a.hunksAt p, ∀ k, h.id ∈ a.turnIndex k ↔ h.source = .agentEdit k
  issued : ∀ k, ∀ id ∈ a.turnIndex k, id.val < a.nextId

variable {a : Actor} {p : PathBuf}

theorem Attributed.rewrites {a' : Actor} (h : Attributed a) (hi : Sound D a) (hi' : Sound D a')
    (hw : Rewrites k p a a') : Attributed a' := by
  rcases hw.index with ⟨hnil, hsame⟩ | hindex
  · refine ⟨fun q l hl j => ?_, fun j id hid => ?_⟩
    · have hq : q ≠ p := by
        rintro rfl
        rw [hnil] at hl
        cases hl
      rw [Actor.hunksAt, hw.frame q hq] at hl
      rw [hsame]
      exact h.index q l hl j
    · rw [hsame] at hid
      exact Nat.lt_of_lt_of_le (h.issued j id hid) hw.nextId
  · refine ⟨fun q l hl j => ?_, fun j id hid => ?_⟩
    · rw [hindex]
      by_cases hq : q = p
      · subst hq
        constructor
        · rintro (⟨hlisted, hnot⟩ | ⟨m, hm, hsource, hid⟩)
          · rcases hw.ids l hl with ⟨o, ho, hid⟩ | hfresh
            · rw [← hid] at hlisted
              have hsource := HunkSource.promptIndex_eq_some.mpr ((h.index q o ho j).mp hlisted)
              exact absurd ⟨o, ho, hsource, hid⟩ hnot
            · have hlt := h.issued j l.id hlisted
              omega
          · have hm' := hw.source m hm
            rw [HunkSource.promptIndex_eq_some, hm'] at hsource
            rw [hw.source l hl, hsource]
        · exact fun hsource => .inr ⟨l, hl, HunkSource.promptIndex_eq_some.mpr hsource, rfl⟩
      · -- ids of different files are different
        have hold : l ∈ a.hunksAt q := by
          rw [Actor.hunksAt, hw.frame q hq] at hl
          exact hl
        have hnot : ¬ InTurn j (a.hunksAt p) l.id := by
          rintro ⟨m, hm, -, hid⟩
          exact hi.ids.disjoint p q (Ne.symm hq) m hm l hold hid
        have hnot' : ¬ InTurn j (a'.hunksAt p) l.id := by
          rintro ⟨m, hm, -, hid⟩
          exact hi'.ids.disjoint p q (Ne.symm hq) m hm l hl hid
        simp only [hnot, hnot', not_false_eq_true, and_true, or_false]
        exact h.index q l hold j
    · rcases (hindex j id).mp hid with ⟨hlisted, -⟩ | ⟨m, hm, -, rfl⟩
      · exact Nat.lt_of_lt_of_le (h.issued j id hlisted) hw.nextId
      · exact hi'.ids.fresh p m hm

theorem Attributed.new (workingDir : PathBuf) (mode : TrackingMode) :
    Attributed (.new workingDir mode) where
  index p h hh := by simp [Actor.new, Actor.hunksAt, Actor.file] at hh
  issued k id hid := by simp [Actor.new] at hid

/-- A turn leaves a file alone, or takes all its hunks; ids that were issued
before it come from hunks that were live before it. -/
structure Turned (k : Nat) (a a' : Actor) : Prop where
  file : ∀ p, a'.file p = a.file p ∨ ∀ h ∈ a'.hunksAt p, h.source = .agentEdit k
  ids : ∀ p, ∀ h ∈ a'.hunksAt p, (∃ q, ∃ o ∈ a.hunksAt q, o.id = h.id) ∨ a.nextId ≤ h.id.val
  nextId : a.nextId ≤ a'.nextId

theorem Turned.refl (k : Nat) (a : Actor) : Turned k a a where
  file _ := .inl rfl
  ids p h hh := .inl ⟨p, h, hh, rfl⟩
  nextId := Nat.le_refl _

theorem Turned.rewrites_trans {b c : Actor} (hw : Rewrites k p a b) (h : Turned k b c) :
    Turned k a c where
  file q := by
    rcases h.file q with hsame | hall
    · by_cases hq : q = p
      · subst hq
        refine .inr fun l hl => hw.source l ?_
        rw [Actor.hunksAt, hsame] at hl
        exact hl
      · exact .inl (hsame.trans (hw.frame q hq))
    · exact .inr hall
  ids q l hl := by
    rcases h.ids q l hl with ⟨r, o, ho, hid⟩ | hfresh
    · by_cases hr : r = p
      · subst hr
        rcases hw.ids o ho with ⟨o', ho', hid'⟩ | hfresh
        · exact .inl ⟨r, o', ho', hid'.trans hid⟩
        · exact .inr (hid ▸ hfresh)
      · rw [Actor.hunksAt, hw.frame r hr] at ho
        exact .inl ⟨r, o, ho, hid⟩
    · exact .inr (Nat.le_trans hw.nextId hfresh)
  nextId := Nat.le_trans hw.nextId h.nextId

theorem runTurn_spec (hi : Sound D a) (h : Attributed a) (turn : Turn) :
    Sound D (a.runTurn D turn) ∧ Attributed (a.runTurn D turn) ∧
      Turned turn.promptIndex a (a.runTurn D turn) := by
  obtain ⟨k, writes⟩ := turn
  show Sound D (writes.foldl (Actor.runWrite D k) a) ∧ _
  unfold Actor.runTurn
  induction writes generalizing a with
  | nil => exact ⟨hi, h, .refl k a⟩
  | cons w writes ih =>
    have hw : Rewrites k w.path a (a.runWrite D k w) :=
      .recordAgentWrite hi w.content w.previousContent
    have hi' : Sound D (a.runWrite D k w) := hi.recordAgentWrite w.content k w.previousContent
    obtain ⟨hsound, hattr, hturned⟩ := ih hi' (h.rewrites hi hi' hw)
    exact ⟨hsound, hattr, .rewrites_trans hw hturned⟩

section Turns

variable {workingDir : PathBuf} {mode : TrackingMode} {turns : List Turn}

theorem runTurns_snoc (a : Actor) (turns : List Turn) (turn : Turn) :
    a.runTurns D (turns ++ [turn]) = (a.runTurns D turns).runTurn D turn := by
  simp [Actor.runTurns]

theorem runTurns_spec (D : LineDiff) (workingDir : PathBuf) (mode : TrackingMode)
    (turns : List Turn) :
    Sound D ((Actor.new workingDir mode).runTurns D turns) ∧
      Attributed ((Actor.new workingDir mode).runTurns D turns) := by
  induction turns using List.reverseRecOn with
  | nil => exact ⟨Sound.new workingDir mode, .new workingDir mode⟩
  | append_singleton turns turn ih =>
    rw [runTurns_snoc]
    obtain ⟨hsound, hattr, -⟩ := runTurn_spec ih.1 ih.2 turn
    exact ⟨hsound, hattr⟩

theorem turned_snoc (D : LineDiff) (workingDir : PathBuf) (mode : TrackingMode)
    (turns : List Turn) (turn : Turn) :
    Turned turn.promptIndex ((Actor.new workingDir mode).runTurns D turns)
      ((Actor.new workingDir mode).runTurns D (turns ++ [turn])) := by
  rw [runTurns_snoc]
  obtain ⟨hsound, hattr⟩ := runTurns_spec D workingDir mode turns
  exact (runTurn_spec hsound hattr turn).2.2

theorem source_runTurns {p : PathBuf} {h : Hunk}
    (hh : h ∈ ((Actor.new workingDir mode).runTurns D turns).hunksAt p) :
    ∃ turn ∈ turns, h.source = .agentEdit turn.promptIndex := by
  induction turns using List.reverseRecOn with
  | nil => simp [Actor.runTurns, Actor.new, Actor.hunksAt, Actor.file] at hh
  | append_singleton turns turn ih =>
    rcases (turned_snoc D workingDir mode turns turn).file p with hsame | hall
    · rw [Actor.hunksAt, hsame] at hh
      obtain ⟨turn', hturn', hsource⟩ := ih hh
      exact ⟨turn', mem_append_left _ hturn', hsource⟩
    · exact ⟨turn, mem_append_right _ (.head _), hall h hh⟩

theorem live_runTurns (earlier later : List Turn) {p : PathBuf} {h : Hunk}
    (hh : h ∈ ((Actor.new workingDir mode).runTurns D (earlier ++ later)).hunksAt p)
    (hissued : h.id.val < ((Actor.new workingDir mode).runTurns D earlier).nextId) :
    ∃ q, ∃ o ∈ ((Actor.new workingDir mode).runTurns D earlier).hunksAt q, o.id = h.id := by
  have hmono : ∀ later : List Turn, ((Actor.new workingDir mode).runTurns D earlier).nextId ≤
      ((Actor.new workingDir mode).runTurns D (earlier ++ later)).nextId := by
    intro later
    induction later using List.reverseRecOn with
    | nil => simp
    | append_singleton later turn ih =>
      rw [← append_assoc]
      exact Nat.le_trans ih (turned_snoc D workingDir mode (earlier ++ later) turn).nextId
  induction later using List.reverseRecOn generalizing p h with
  | nil => exact ⟨p, h, by simpa using hh, rfl⟩
  | append_singleton later turn ih =>
    rw [← append_assoc] at hh
    rcases (turned_snoc D workingDir mode (earlier ++ later) turn).ids p h hh with ⟨q, o, ho, hid⟩ | hfresh
    · obtain ⟨r, o', ho', hid'⟩ := ih ho (hid ▸ hissued)
      exact ⟨r, o', ho', hid'.trans hid⟩
    · have hle := hmono later
      omega

end Turns

/-! ## What the deltas add up to -/

/-- The files and the index that the deltas below the target make. -/
def composedBelow (target : Nat) (s : WorkspaceSession) : FileStates × TurnIndex :=
  foldBelow compose (∅, fun _ => ∅) target s.hunkCheckpoints

/-- A session after turns before the target, and what its deltas make: each
file as it last was with a hunk, and each turn's hunks when it ended. -/
structure Recorded (D : LineDiff) (a₀ : Actor) (target : Nat) (turns : List Turn)
    (s : WorkspaceSession) : Prop where
  tracker : s.hunkTracker = a₀.runTurns D turns
  keys : ∀ k ∈ s.hunkCheckpoints, ∃ turn ∈ turns, turn.promptIndex = k
  missing : ∀ p, (composedBelow target s).1.lookup p = none → s.hunkTracker.hunksAt p = []
  found : ∀ p st, (composedBelow target s).1.lookup p = some st →
    st.hunks ≠ [] ∧ (s.hunkTracker.hunksAt p ≠ [] → s.hunkTracker.file p = some st)
  listed : ∀ p, ∀ h ∈ s.hunkTracker.hunksAt p, ∀ k, h.source = .agentEdit k →
    h.id ∈ (composedBelow target s).2 k
  held : ∀ p, (composedBelow target s).1.lookup p ≠ none →
    ∃ earlier later, turns = earlier ++ later ∧ (a₀.runTurns D earlier).hunksAt p ≠ []
  traced : ∀ k, ∀ id ∈ (composedBelow target s).2 k,
    ∃ earlier later, turns = earlier ++ later ∧ id ∈ (a₀.runTurns D earlier).turnIndex k
  /-- Nothing that was there is missing. -/
  past : ∀ earlier later, turns = earlier ++ later → ∀ p, ∀ h ∈ (a₀.runTurns D earlier).hunksAt p,
    (composedBelow target s).1.lookup p ≠ none ∧
      ∀ k, h.source = .agentEdit k → h.id ∈ (composedBelow target s).2 k

namespace WorkspaceSession

variable (s : WorkspaceSession) (turn : Turn) {target : Nat}

theorem hunkTracker_runTurn :
    (s.runTurn D turn).hunkTracker = s.hunkTracker.runTurn D turn := by
  unfold runTurn captureHunkDelta
  dsimp only
  split <;> rfl

/-- What the turn adds to the store: its delta, or nothing. -/
theorem hunkCheckpoints_runTurn :
    ((s.runTurn D turn).hunkCheckpoints = s.hunkCheckpoints ∧
      ∀ p, ((s.hunkTracker.runTurn D turn).takeTurnDelta turn.promptIndex).fileStates.lookup p =
        none) ∨
    (s.runTurn D turn).hunkCheckpoints = s.hunkCheckpoints.insert turn.promptIndex
      ((s.hunkTracker.runTurn D turn).takeTurnDelta turn.promptIndex) := by
  unfold runTurn captureHunkDelta
  dsimp only
  split
  · next hempty =>
    refine .inl ⟨rfl, fun p => ?_⟩
    rw [AList.lookup, hempty]
    rfl
  · exact .inr rfl

theorem composedBelow_runTurn (hlt : turn.promptIndex < target)
    (hlast : ∀ k ∈ s.hunkCheckpoints, k < turn.promptIndex) :
    (∀ p, (composedBelow target (s.runTurn D turn)).1.lookup p =
      (((s.hunkTracker.runTurn D turn).takeTurnDelta turn.promptIndex).fileStates.lookup p).or
        ((composedBelow target s).1.lookup p)) ∧
    (((composedBelow target (s.runTurn D turn)).2 = (composedBelow target s).2 ∧
      ∀ p, ((s.hunkTracker.runTurn D turn).takeTurnDelta turn.promptIndex).fileStates.lookup p =
        none) ∨
    (composedBelow target (s.runTurn D turn)).2 =
      Function.update (composedBelow target s).2 turn.promptIndex
        ((s.hunkTracker.runTurn D turn).turnIndex turn.promptIndex)) := by
  unfold composedBelow
  rcases s.hunkCheckpoints_runTurn turn with ⟨hsame, hnone⟩ | hinsert
  · rw [hsame]
    exact ⟨fun p => by rw [hnone p, none_or], .inl ⟨rfl, hnone⟩⟩
  · rw [hinsert, foldBelow_insert_last compose _ hlt hlast]
    exact ⟨fun p => lookup_compose _ _ p, .inr rfl⟩

theorem composedBelow_runTurns_ge (turns : List Turn) (hge : ∀ turn ∈ turns, target ≤ turn.promptIndex)
    (hinc : turns.Pairwise fun turn turn' => turn.promptIndex < turn'.promptIndex)
    (hlast : ∀ k ∈ s.hunkCheckpoints, ∀ turn ∈ turns, k < turn.promptIndex) :
    composedBelow target (s.runTurns D turns) = composedBelow target s := by
  induction turns generalizing s with
  | nil => rfl
  | cons turn turns ih =>
    obtain ⟨hturn, hinc⟩ := pairwise_cons.mp hinc
    have hnew : turn.promptIndex ∉ s.hunkCheckpoints := fun hk =>
      Nat.lt_irrefl _ (hlast _ hk turn (.head _))
    have hone : composedBelow target (s.runTurn D turn) = composedBelow target s := by
      unfold composedBelow
      rcases s.hunkCheckpoints_runTurn turn with ⟨hsame, -⟩ | hinsert
      · rw [hsame]
      · rw [hinsert, foldBelow_insert_ge compose _ (hge turn (.head _)) hnew]
    have hrest := ih (s.runTurn D turn) (fun turn' hturn' => hge turn' (.tail _ hturn')) hinc ?_
    · exact hrest.trans hone
    · intro k hk turn' hturn'
      rcases s.hunkCheckpoints_runTurn turn with ⟨hsame, -⟩ | hinsert
      · rw [hsame] at hk
        exact hlast k hk turn' (.tail _ hturn')
      · rw [hinsert, AList.mem_insert] at hk
        rcases hk with rfl | hk
        · exact hturn turn' hturn'
        · exact hlast k hk turn' (.tail _ hturn')

end WorkspaceSession

theorem mem_hunksAt {h : Hunk} : h ∈ a.hunksAt p ↔ ∃ st, a.file p = some st ∧ h ∈ st.hunks := by
  unfold Actor.hunksAt
  cases a.file p <;> simp

theorem not_listed_of_none {h : Hunk} (hnone : (a.takeTurnDelta k).fileStates.lookup p = none)
    (hh : h ∈ a.hunksAt p) : h.id ∉ a.turnIndex k := by
  intro hlisted
  obtain ⟨st, hst, hmem⟩ := mem_hunksAt.mp hh
  have hsome := (file_takeTurnDelta a).mpr ⟨hst, h, hmem, hlisted⟩
  rw [hnone] at hsome
  cases hsome

namespace Recorded

variable {workingDir : PathBuf} {mode : TrackingMode} {target : Nat} {turns : List Turn}
  {s : WorkspaceSession}

theorem new (D : LineDiff) (workingDir : PathBuf) (mode : TrackingMode) (target : Nat) :
    Recorded D (.new workingDir mode) target [] (.new workingDir mode) where
  tracker := rfl
  keys k hk := absurd hk (AList.notMem_empty k)
  missing _ _ := rfl
  found p st hst := by cases hst
  listed p h hh := by cases hh
  held p hne := absurd rfl hne
  traced k id hid := absurd hid (Finset.notMem_empty id)
  past earlier later hsplit p h hh := by
    obtain ⟨rfl, -⟩ := append_eq_nil_iff.mp hsplit.symm
    cases hh

theorem runTurn (h : Recorded D (.new workingDir mode) target turns s) {turn : Turn}
    (hlt : turn.promptIndex < target)
    (hlast : ∀ turn' ∈ turns, turn'.promptIndex < turn.promptIndex) :
    Recorded D (.new workingDir mode) target (turns ++ [turn]) (s.runTurn D turn) := by
  have hkeys : ∀ k ∈ s.hunkCheckpoints, k < turn.promptIndex := by
    intro k hk
    obtain ⟨turn', hturn', rfl⟩ := h.keys k hk
    exact hlast turn' hturn'
  obtain ⟨hfiles, hindex⟩ := s.composedBelow_runTurn (D := D) turn hlt hkeys
  have htracker : s.hunkTracker.runTurn D turn =
      (Actor.new workingDir mode).runTurns D (turns ++ [turn]) := by
    rw [h.tracker, runTurns_snoc]
  have hattr := (runTurns_spec D workingDir mode (turns ++ [turn])).2
  have hturned := turned_snoc D workingDir mode turns turn
  rw [← htracker, ← h.tracker] at hturned
  rw [← htracker] at hattr
  have hnow := s.hunkTracker_runTurn (D := D) turn
  generalize s.hunkTracker.runTurn D turn = a' at *
  -- a hunk of the file that is not the turn's is an old one
  have hold : ∀ p, (a'.takeTurnDelta turn.promptIndex).fileStates.lookup p = none →
      ∀ l ∈ a'.hunksAt p, a'.file p = s.hunkTracker.file p := by
    intro p hnone l hl
    refine (hturned.file p).resolve_right fun hall => not_listed_of_none hnone hl ?_
    exact (hattr.index p l hl _).mpr (hall l hl)
  have hmissing : ∀ p, (composedBelow target (s.runTurn D turn)).1.lookup p = none →
      a'.hunksAt p = [] := by
    intro p hnone
    rw [hfiles, or_eq_none_iff] at hnone
    by_contra hne
    obtain ⟨l, hl⟩ := exists_mem_of_ne_nil _ hne
    have hsame := hold p hnone.1 l hl
    rw [Actor.hunksAt, hsame] at hne
    exact hne (h.missing p hnone.2)
  have hlisted : ∀ p, ∀ l ∈ a'.hunksAt p, ∀ k, l.source = .agentEdit k →
      l.id ∈ (composedBelow target (s.runTurn D turn)).2 k := by
    intro p l hl k hsource
    have hin : k = turn.promptIndex → l.id ∈ a'.turnIndex turn.promptIndex := fun hk =>
      (hattr.index p l hl _).mpr (hk ▸ hsource)
    have hbefore : k ≠ turn.promptIndex → l.id ∈ (composedBelow target s).2 k := by
      intro hk
      have hsame := (hturned.file p).resolve_right fun hall => hk <| by
        rw [hall l hl] at hsource
        exact (HunkSource.agentEdit.inj hsource).symm
      rw [Actor.hunksAt, hsame] at hl
      exact h.listed p l hl k hsource
    by_cases hk : k = turn.promptIndex
    · rcases hindex with ⟨-, hnone⟩ | hupdate
      · exact absurd (hin hk) (not_listed_of_none (hnone p) hl)
      · rw [hupdate, hk, Function.update_self]
        exact hin hk
    · rcases hindex with ⟨hsame, -⟩ | hupdate
      · rw [hsame]
        exact hbefore hk
      · rw [hupdate, Function.update_of_ne hk]
        exact hbefore hk
  refine ⟨hnow.trans htracker, ?_, hnow ▸ hmissing, ?_, hnow ▸ hlisted, ?_, ?_, ?_⟩
  · intro k hk
    have hcases : k = turn.promptIndex ∨ k ∈ s.hunkCheckpoints := by
      rcases s.hunkCheckpoints_runTurn (D := D) turn with ⟨hsame, -⟩ | hinsert
      · exact .inr (hsame ▸ hk)
      · rw [hinsert, AList.mem_insert] at hk
        exact hk
    rcases hcases with rfl | hk
    · exact ⟨turn, mem_append_right _ (.head _), rfl⟩
    · obtain ⟨turn', hturn', hindex'⟩ := h.keys k hk
      exact ⟨turn', mem_append_left _ hturn', hindex'⟩
  · intro p st hst
    rw [hnow]
    rw [hfiles] at hst
    rcases or_eq_some_iff.mp hst with hdelta | ⟨hnone, hearlier⟩
    · obtain ⟨hfile, l, hl, -⟩ := (file_takeTurnDelta a').mp hdelta
      exact ⟨List.ne_nil_of_mem hl, fun _ => hfile⟩
    · obtain ⟨hne, hfound⟩ := h.found p st hearlier
      refine ⟨hne, fun hlive => ?_⟩
      obtain ⟨l, hl⟩ := exists_mem_of_ne_nil _ hlive
      have hsame := hold p hnone l hl
      rw [Actor.hunksAt, hsame] at hlive
      exact hsame.trans (hfound hlive)
  · intro p hne
    rw [hfiles] at hne
    cases hdelta : (a'.takeTurnDelta turn.promptIndex).fileStates.lookup p with
    | none =>
      rw [hdelta, none_or] at hne
      obtain ⟨earlier, later, hsplit, hlive⟩ := h.held p hne
      exact ⟨earlier, later ++ [turn], by rw [hsplit, append_assoc], hlive⟩
    | some st =>
      obtain ⟨hfile, l, hl, -⟩ := (file_takeTurnDelta a').mp hdelta
      refine ⟨turns ++ [turn], [], (append_nil _).symm, ?_⟩
      rw [← htracker]
      exact List.ne_nil_of_mem (mem_hunksAt.mpr ⟨st, hfile, hl⟩)
  · intro k id hid
    have hcases : id ∈ (composedBelow target s).2 k ∨
        k = turn.promptIndex ∧ id ∈ a'.turnIndex turn.promptIndex := by
      rcases hindex with ⟨hsame, -⟩ | hupdate
      · exact .inl (hsame ▸ hid)
      · rw [hupdate] at hid
        by_cases hk : k = turn.promptIndex
        · rw [hk, Function.update_self] at hid
          exact .inr ⟨hk, hid⟩
        · rw [Function.update_of_ne hk] at hid
          exact .inl hid
    rcases hcases with hearlier | ⟨rfl, hlast'⟩
    · obtain ⟨earlier, later, hsplit, htraced⟩ := h.traced k id hearlier
      exact ⟨earlier, later ++ [turn], by rw [hsplit, append_assoc], htraced⟩
    · exact ⟨turns ++ [turn], [], (append_nil _).symm, htracker ▸ hlast'⟩
  · intro earlier later hsplit p l hl
    rcases eq_nil_or_concat' later with rfl | ⟨later', last, rfl⟩
    · rw [append_nil] at hsplit
      rw [← hsplit, ← htracker] at hl
      refine ⟨fun hnone => ?_, fun k hsource => hlisted p l hl k hsource⟩
      rw [hmissing p hnone] at hl
      cases hl
    · rw [← append_assoc] at hsplit
      obtain ⟨hsplit', -⟩ := append_inj' hsplit rfl
      obtain ⟨hne, hlisted'⟩ := h.past earlier later' hsplit' p l hl
      refine ⟨fun hnone => hne ?_, fun k hsource => ?_⟩
      · rw [hfiles, or_eq_none_iff] at hnone
        exact hnone.2
      · have hin := hlisted' k hsource
        rcases hindex with ⟨hsame, -⟩ | hupdate
        · rw [hsame]
          exact hin
        · obtain ⟨turn', hturn', hsource'⟩ := source_runTurns hl
          have hlt' := hlast turn' (hsplit' ▸ mem_append_left _ hturn')
          rw [hsource] at hsource'
          have hk : k ≠ turn.promptIndex := by
            have hk' := HunkSource.agentEdit.inj hsource'
            omega
          rw [hupdate, Function.update_of_ne hk]
          exact hin

end Recorded

variable {target : Nat}

theorem Recorded.runTurns (D : LineDiff) (workingDir : PathBuf) (mode : TrackingMode)
    {turns : List Turn} (hinc : turns.Pairwise fun turn turn' => turn.promptIndex < turn'.promptIndex)
    (hlt : ∀ turn ∈ turns, turn.promptIndex < target) :
    Recorded D (.new workingDir mode) target turns
      ((WorkspaceSession.new workingDir mode).runTurns D turns) := by
  induction turns using List.reverseRecOn with
  | nil => exact .new D workingDir mode target
  | append_singleton turns turn ih =>
    obtain ⟨hinc, -, hlast⟩ := pairwise_append.mp hinc
    have h := ih hinc fun turn' hturn' => hlt turn' (mem_append_left _ hturn')
    have hrun : (WorkspaceSession.new workingDir mode).runTurns D (turns ++ [turn]) =
        ((WorkspaceSession.new workingDir mode).runTurns D turns).runTurn D turn := by
      simp [WorkspaceSession.runTurns]
    rw [hrun]
    exact h.runTurn (hlt turn (mem_append_right _ (.head _)))
      fun turn' hturn' => hlast turn' hturn' turn (.head _)

/-! ## The restored tracker -/

/-- The tracker is as it was then, up to files that had no hunk. -/
structure Reseeded (past a : Actor) : Prop where
  files : ∀ p, a.file p = past.file p ∨ (a.file p = none ∧ past.hunksAt p = [])
  turnIndex : a.turnIndex = past.turnIndex

/-- What the turns made is still there at their end: no file lost its last
hunk, no hunk went over to another turn, and the index lists nothing else. -/
structure Kept (D : LineDiff) (a₀ : Actor) (turns : List Turn) : Prop where
  files : ∀ earlier later, turns = earlier ++ later → ∀ p,
    (a₀.runTurns D earlier).hunksAt p ≠ [] → (a₀.runTurns D turns).hunksAt p ≠ []
  sources : ∀ earlier later, turns = earlier ++ later →
    ∀ p, ∀ h ∈ (a₀.runTurns D earlier).hunksAt p, ∀ q, ∀ h' ∈ (a₀.runTurns D turns).hunksAt q,
      h'.id = h.id → h'.source = h.source
  listed : ∀ k, ∀ id ∈ (a₀.runTurns D turns).turnIndex k,
    ∃ p, ∃ h ∈ (a₀.runTurns D turns).hunksAt p, h.id = id

/-- The snapshots, and the index pruned to them, as a tracker state. -/
def seeded (composed : FileStates × TurnIndex) (a : Actor) : Actor :=
  a.restoreSnapshot ⟨composed.1, fun k => composed.2 k ∩ presentIds composed.1, a.sessionStats⟩

theorem file_seeded (composed : FileStates × TurnIndex) (a : Actor) (p : PathBuf) :
    (seeded composed a).file p = composed.1.lookup p := rfl

theorem mem_turnIndex_seeded {composed : FileStates × TurnIndex} {id : HunkId} :
    id ∈ (seeded composed a).turnIndex k ↔ id ∈ composed.2 k ∧
      ∃ p st, composed.1.lookup p = some st ∧ ∃ h ∈ st.hunks, h.id = id := by
  show id ∈ composed.2 k ∩ presentIds composed.1 ↔ _
  rw [Finset.mem_inter, mem_presentIds]

section Seeded

variable {workingDir : PathBuf} {mode : TrackingMode} {target : Nat} {turns : List Turn}
  {s : WorkspaceSession}

theorem Recorded.reseeded (h : Recorded D (.new workingDir mode) target turns s)
    (hkept : Kept D (.new workingDir mode) turns) (a : Actor) :
    Reseeded s.hunkTracker (seeded (composedBelow target s) a) := by
  have hattr := (runTurns_spec D workingDir mode turns).2
  rw [← h.tracker] at hattr
  -- a snapshot is of a file that still has hunks
  have hfile : ∀ p st, (composedBelow target s).1.lookup p = some st →
      s.hunkTracker.file p = some st := by
    intro p st hst
    obtain ⟨earlier, later, hsplit, hlive⟩ := h.held p (by rw [hst]; exact some_ne_none st)
    refine (h.found p st hst).2 ?_
    rw [h.tracker]
    exact hkept.files earlier later hsplit p hlive
  refine ⟨fun p => ?_, ?_⟩
  · rw [file_seeded]
    cases hst : (composedBelow target s).1.lookup p with
    | none => exact .inr ⟨rfl, h.missing p hst⟩
    | some st => exact .inl (hfile p st hst).symm
  · funext k
    ext id
    rw [mem_turnIndex_seeded]
    constructor
    · rintro ⟨hid, p, st, hst, l, hl, rfl⟩
      have hlive : l ∈ s.hunkTracker.hunksAt p := mem_hunksAt.mpr ⟨st, hfile p st hst, hl⟩
      obtain ⟨earlier, later, hsplit, hlisted⟩ := h.traced k l.id hid
      have hattr' := (runTurns_spec D workingDir mode earlier).2
      have hlive' := hlive
      rw [h.tracker, hsplit] at hlive'
      obtain ⟨q, o, ho, hoid⟩ := live_runTurns earlier later hlive' (hattr'.issued k l.id hlisted)
      have hsource := (hattr'.index q o ho k).mp (hoid ▸ hlisted)
      rw [h.tracker] at hlive
      have hsame := hkept.sources earlier later hsplit q o ho p l hlive hoid.symm
      rw [← h.tracker] at hlive
      exact (hattr.index p l hlive k).mpr (hsame.trans hsource)
    · intro hid
      have hid' := hid
      rw [h.tracker] at hid'
      obtain ⟨p, l, hl, rfl⟩ := hkept.listed k id hid'
      rw [← h.tracker] at hl
      refine ⟨h.listed p l hl k ((hattr.index p l hl k).mp hid), ?_⟩
      obtain ⟨st, hst, hmem⟩ := mem_hunksAt.mp hl
      cases hst' : (composedBelow target s).1.lookup p with
      | none =>
        rw [h.missing p hst'] at hl
        cases hl
      | some st' =>
        have hsame := hfile p st' hst'
        rw [hst] at hsame
        exact ⟨p, st', hst', l, some.inj hsame ▸ hmem, rfl⟩

theorem Recorded.kept (h : Recorded D (.new workingDir mode) target turns s) {a : Actor}
    (hseed : Reseeded s.hunkTracker (seeded (composedBelow target s) a)) :
    Kept D (.new workingDir mode) turns := by
  have hattr := (runTurns_spec D workingDir mode turns).2
  rw [← h.tracker] at hattr
  have hfile : ∀ p st, (composedBelow target s).1.lookup p = some st →
      s.hunkTracker.file p = some st := by
    intro p st hst
    have hsome : (seeded (composedBelow target s) a).file p = some st := hst
    rcases hseed.files p with hsame | ⟨hnone, -⟩
    · rw [← hsame]
      exact hsome
    · rw [hnone] at hsome
      cases hsome
  refine ⟨fun earlier later hsplit p hlive => ?_, ?_, fun k id hid => ?_⟩
  · obtain ⟨l, hl⟩ := exists_mem_of_ne_nil _ hlive
    obtain ⟨st, hst⟩ := ne_none_iff_exists'.mp (h.past earlier later hsplit p l hl).1
    obtain ⟨l', hl'⟩ := exists_mem_of_ne_nil _ (h.found p st hst).1
    rw [← h.tracker]
    exact List.ne_nil_of_mem (mem_hunksAt.mpr ⟨st, hfile p st hst, hl'⟩)
  · intro earlier later hsplit p l hl q l' hl' hid
    obtain ⟨turn, -, hsource⟩ := source_runTurns hl
    rw [← h.tracker] at hl'
    have hin := (h.past earlier later hsplit p l hl).2 _ hsource
    -- the hunk is in the snapshot of its file
    have hpresent : ∃ st, (composedBelow target s).1.lookup q = some st ∧ l' ∈ st.hunks := by
      obtain ⟨st, hst, hmem⟩ := mem_hunksAt.mp hl'
      cases hst' : (composedBelow target s).1.lookup q with
      | none =>
        rw [h.missing q hst'] at hl'
        cases hl'
      | some st' =>
        have hsame := hfile q st' hst'
        rw [hst] at hsame
        exact ⟨st', rfl, some.inj hsame ▸ hmem⟩
    obtain ⟨st, hst, hmem⟩ := hpresent
    have hlisted : l'.id ∈ (seeded (composedBelow target s) a).turnIndex turn.promptIndex :=
      mem_turnIndex_seeded.mpr ⟨hid ▸ hin, q, st, hst, l', hmem, rfl⟩
    rw [hseed.turnIndex] at hlisted
    rw [(hattr.index q l' hl' _).mp hlisted, hsource]
  · rw [← h.tracker, ← hseed.turnIndex, mem_turnIndex_seeded] at hid
    obtain ⟨-, p, st, hst, l, hl, hid⟩ := hid
    refine ⟨p, l, ?_, hid⟩
    rw [← h.tracker]
    exact mem_hunksAt.mpr ⟨st, hfile p st hst, hl⟩

end Seeded

/-- The documented no-op: nothing is stored, or nothing from before the
target, unless the target is the very first prompt. -/
def WorkspaceSession.Restorable (s : WorkspaceSession) (target : Nat) : Prop :=
  s.hunkCheckpoints.keys ≠ [] ∧ (target = 0 ∨ ∃ k ∈ s.hunkCheckpoints, k < target)

instance (s : WorkspaceSession) (target : Nat) : Decidable (s.Restorable target) :=
  inferInstanceAs (Decidable (_ ∧ (_ ∨ ∃ k ∈ s.hunkCheckpoints.keys, _)))

theorem WorkspaceSession.restoreHunkCheckpoints_of_not {s : WorkspaceSession}
    (h : ¬ s.Restorable target) : s.restoreHunkCheckpoints target = s := by
  unfold restoreHunkCheckpoints
  dsimp only
  split
  · rfl
  · next hkeys =>
    refine if_pos ⟨eq_nil_iff_forall_not_mem.mpr fun k hk => ?_, Nat.pos_of_ne_zero ?_⟩
    · obtain ⟨hlt, hmem⟩ := mem_numbersBelow.mp hk
      exact h ⟨hkeys, .inr ⟨k, hmem, hlt⟩⟩
    · exact fun hzero => h ⟨hkeys, .inl hzero⟩

theorem WorkspaceSession.hunkTracker_restoreHunkCheckpoints {s : WorkspaceSession}
    (h : s.Restorable target) :
    (s.restoreHunkCheckpoints target).hunkTracker =
      seeded (composedBelow target s) s.hunkTracker := by
  obtain ⟨hkeys, hprompts⟩ := h
  have hnot : ¬ (numbersBelow target s.hunkCheckpoints = [] ∧ 0 < target) := by
    rintro ⟨hnil, hpos⟩
    rcases hprompts with hzero | ⟨k, hmem, hlt⟩
    · omega
    · have hk := mem_numbersBelow.mpr ⟨hlt, hmem⟩
      rw [hnil] at hk
      cases hk
  unfold restoreHunkCheckpoints
  dsimp only
  rw [if_neg hkeys, if_neg hnot]
  rfl

section Whole

variable (D) (workingDir : PathBuf) (mode : TrackingMode)

/-- The turns before the target, which are the first ones. -/
def turnsBefore (target : Nat) (turns : List Turn) : List Turn :=
  turns.takeWhile (·.promptIndex < target)

/-- A restore that is not the no-op brings back what the tracker was at the
end of the last prompt before the target, exactly if the turns until then kept
what they made. -/
theorem reseeded_iff_kept {turns : List Turn}
    (hinc : turns.Pairwise fun turn turn' => turn.promptIndex < turn'.promptIndex)
    (hrestorable : ((WorkspaceSession.new workingDir mode).runTurns D turns).Restorable target) :
    Reseeded ((Actor.new workingDir mode).runTurns D (turnsBefore target turns))
        (((WorkspaceSession.new workingDir mode).runTurns D turns).restoreHunkCheckpoints
          target).hunkTracker ↔
      Kept D (.new workingDir mode) (turnsBefore target turns) := by
  have hsplit : turns = turnsBefore target turns ++ turns.dropWhile (·.promptIndex < target) :=
    takeWhile_append_dropWhile.symm
  have hbefore : ∀ turn ∈ turnsBefore target turns, turn.promptIndex < target := fun turn hturn => by
    simpa using mem_takeWhile_imp hturn
  have hparts := hinc
  rw [hsplit] at hparts
  obtain ⟨hincBefore, hincAfter, hacross⟩ := pairwise_append.mp hparts
  have hafter : ∀ turn ∈ turns.dropWhile (·.promptIndex < target), target ≤ turn.promptIndex := by
    intro turn hturn
    cases hdrop : turns.dropWhile (·.promptIndex < target) with
    | nil =>
      rw [hdrop] at hturn
      cases hturn
    | cons first rest =>
      have hne : turns.dropWhile (·.promptIndex < target) ≠ [] := by
        rw [hdrop]
        exact cons_ne_nil _ _
      have hfirst := head_dropWhile_not (fun turn : Turn => turn.promptIndex < target) hne
      simp only [hdrop, head_cons, decide_eq_false_iff_not] at hfirst
      rw [hdrop] at hturn hincAfter
      rcases mem_cons.mp hturn with rfl | hturn
      · exact Nat.not_lt.mp hfirst
      · have hlt := (pairwise_cons.mp hincAfter).1 turn hturn
        omega
  have hrecorded := Recorded.runTurns D workingDir mode hincBefore hbefore
  have hrun : (WorkspaceSession.new workingDir mode).runTurns D turns =
      ((WorkspaceSession.new workingDir mode).runTurns D (turnsBefore target turns)).runTurns D
        (turns.dropWhile (·.promptIndex < target)) := by
    conv_lhs => rw [hsplit]
    simp [WorkspaceSession.runTurns]
  have hcomposed := WorkspaceSession.composedBelow_runTurns_ge (D := D)
    ((WorkspaceSession.new workingDir mode).runTurns D (turnsBefore target turns)) _ hafter
    hincAfter fun k hk turn hturn => by
      obtain ⟨turn', hturn', rfl⟩ := hrecorded.keys k hk
      exact hacross turn' hturn' turn hturn
  rw [WorkspaceSession.hunkTracker_restoreHunkCheckpoints hrestorable, hrun, hcomposed,
    ← hrecorded.tracker]
  exact ⟨hrecorded.kept, fun hkept => hrecorded.reseeded hkept _⟩

/-- A rewind of the hunks: nothing happens where the deltas do not reach back,
and else the tracker is as it was then, if no turn undid or took over what an
earlier one made. -/
theorem restoreHunkCheckpoints_reseeds (turns : List Turn)
    (hinc : turns.Pairwise fun turn turn' => turn.promptIndex < turn'.promptIndex)
    (target : Nat) :
    (¬ ((WorkspaceSession.new workingDir mode).runTurns D turns).Restorable target →
      ((WorkspaceSession.new workingDir mode).runTurns D turns).restoreHunkCheckpoints target =
        (WorkspaceSession.new workingDir mode).runTurns D turns) ∧
    (((WorkspaceSession.new workingDir mode).runTurns D turns).Restorable target →
      Kept D (.new workingDir mode) (turnsBefore target turns) →
      Reseeded ((Actor.new workingDir mode).runTurns D (turnsBefore target turns))
        (((WorkspaceSession.new workingDir mode).runTurns D turns).restoreHunkCheckpoints
          target).hunkTracker) :=
  ⟨WorkspaceSession.restoreHunkCheckpoints_of_not, fun hrestorable hkept =>
    (reseeded_iff_kept D workingDir mode hinc hrestorable).mpr hkept⟩

end Whole

/-! Two files, written in two turns. -/

def changeF : AgentWrite := ⟨.quiet, ["f"], "a\nX\nc\n".toList, some "a\nb\nc\n".toList⟩

def createG : AgentWrite := ⟨.quiet, ["g"], "new\n".toList, none⟩

/-- The first turn writes nothing, so there is no delta for it. -/
theorem noDelta_keeps_hunks :
    ¬ ∀ (D : LineDiff) (workingDir : PathBuf) (mode : TrackingMode) (turns : List Turn),
      turns.Pairwise (fun turn turn' => turn.promptIndex < turn'.promptIndex) →
      ∀ target : Nat, Reseeded ((Actor.new workingDir mode).runTurns D (turnsBefore target turns))
        (((WorkspaceSession.new workingDir mode).runTurns D turns).restoreHunkCheckpoints
          target).hunkTracker := by
  intro h
  have hseed := h .lcs [] .agentOnly [⟨0, []⟩, ⟨1, [changeF]⟩] (by decide) 1
  have hsame : (((WorkspaceSession.new [] .agentOnly).runTurns .lcs
      [⟨0, []⟩, ⟨1, [changeF]⟩]).restoreHunkCheckpoints 1) =
      (WorkspaceSession.new [] .agentOnly).runTurns .lcs [⟨0, []⟩, ⟨1, [changeF]⟩] :=
    WorkspaceSession.restoreHunkCheckpoints_of_not (by decide)
  rw [hsame] at hseed
  have hlive : (((WorkspaceSession.new [] .agentOnly).runTurns .lcs
      [⟨0, []⟩, ⟨1, [changeF]⟩]).hunkTracker.file ["f"]).isSome = true := by decide
  have hnone : ((Actor.new [] .agentOnly).runTurns .lcs
      (turnsBefore 1 [⟨0, []⟩, ⟨1, [changeF]⟩])).file ["f"] = none := rfl
  rcases hseed.files ["f"] with hfile | ⟨hfile, -⟩
  · rw [hfile, hnone] at hlive
    cases hlive
  · rw [hfile] at hlive
    cases hlive

theorem kept_changeF : Kept .lcs (.new [] .agentOnly) [⟨0, [changeF]⟩] := by
  have hempty : ∀ p, ((Actor.new [] .agentOnly).runTurns .lcs []).hunksAt p = [] := fun _ => rfl
  have hspec := runTurns_spec .lcs [] .agentOnly [⟨0, [changeF]⟩]
  refine ⟨fun earlier later hsplit p hlive => ?_, fun earlier later hsplit p h hh q h' hh' hid => ?_,
    fun k id hid => ?_⟩
  · rcases append_eq_singleton_iff.mp hsplit.symm with ⟨rfl, -⟩ | ⟨rfl, -⟩
    · exact absurd (hempty p) hlive
    · exact hlive
  · rcases append_eq_singleton_iff.mp hsplit.symm with ⟨rfl, -⟩ | ⟨rfl, -⟩
    · rw [hempty] at hh
      cases hh
    · by_cases hpq : q = p
      · subst hpq
        rw [inj_on_of_nodup_map (hspec.1.ids.nodup q) hh' hh hid]
      · exact absurd hid (hspec.1.ids.disjoint q p hpq h' hh' h hh)
  · have hstep : Relation.ReflTransGen (CarefulStep .lcs indexCaution) (Actor.new [] .agentOnly)
        ((Actor.new [] .agentOnly).runTurns .lcs [⟨0, [changeF]⟩]) :=
      .single (.command .quiet _ (.recordAgentWrite ["f"] "a\nX\nc\n".toList 0
        (some "a\nb\nc\n".toList)) trivial (.inl (by decide)))
    have hcoherent := ((coherent_preserved .lcs).run (Coherent.new [] .agentOnly) hstep).1
    obtain ⟨p, h, hh, -, hid⟩ := (hcoherent.index k id).mp hid
    exact ⟨p, h, hh, hid⟩

theorem restoreHunkCheckpoints_reseeds_changeF :
    Reseeded ((Actor.new [] .agentOnly).runTurns .lcs [⟨0, [changeF]⟩])
      (((WorkspaceSession.new [] .agentOnly).runTurns .lcs
        [⟨0, [changeF]⟩, ⟨1, [createG]⟩]).restoreHunkCheckpoints 1).hunkTracker :=
  (restoreHunkCheckpoints_reseeds .lcs [] .agentOnly [⟨0, [changeF]⟩, ⟨1, [createG]⟩] (by decide)
    1).2 (by decide) kept_changeF

end GrokBuild.HunkTracker
