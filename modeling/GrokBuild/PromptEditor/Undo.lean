import GrokBuild.Lib.Guided
import GrokBuild.PromptEditor.History

/-!
# Undo and redo over whole runs

A run from a cleared history is a run of an `UndoLog`: every operation is some of
its steps, so the oldest state is the one of the beginning all the time. While a
group is open nothing touches the stacks or the checkpoint, so closing it leaves
one entry and cancelling it leaves none.
-/

namespace GrokBuild.PromptEditor

open TextLines Str ByteText List Option

namespace TextArea

variable {u : Unicode} {ta ta' : TextArea} {ops : List Op}

/-! ## The history as a log -/

def contentOf (entry : UndoEntry) : Text × List TextElement := (entry.text, entry.elements)

/-- The texts and elements of the history; the cursors are left out. -/
def log (ta : TextArea) : UndoLog (Text × List TextElement) where
  past := ta.undo.stack.map contentOf
  future := ta.undo.redo.map contentOf
  opened := ta.undo.groupCheckpoint.map contentOf
  now := contentOf ta.snapshot

/-- What every operation keeps, whatever the state was. -/
structure Historic (u : Unicode) (ta : TextArea) : Prop where
  sound : Sound u ta
  grouped : Grouped ta
  maxDepth : 0 < ta.undo.maxDepth

/-- A batch goes on only with its checkpoint on the stack. -/
def Batched (ta : TextArea) : Prop := ta.undo.lastKind ≠ none → ta.undo.stack ≠ []

theorem push_of_room {undo : UndoState} (h : undo.stack.length < undo.maxDepth) (entry : UndoEntry) :
    (undo.push entry).stack = undo.stack ++ [entry] := by
  rw [UndoState.push]
  exact if_neg (by rw [length_append, length_singleton]; omega)

theorem push_ne_nil {undo : UndoState} (h : 0 < undo.maxDepth) (entry : UndoEntry) :
    (undo.push entry).stack ≠ [] := by
  rw [UndoState.push]
  simp only
  split
  · rename_i hlong
    intro hnil
    have hlen := congrArg List.length hnil
    simp only [length_tail, length_append, length_singleton, length_nil] at hlen hlong
    omega
  · simp

/-- An operation that leaves a checkpoint finds room for it. -/
def Roomy (ta ta' : TextArea) : Prop :=
  ta'.undo.stack = ta.undo.stack ∨ ta.undo.stack.length < ta.undo.maxDepth

theorem stack_ne_nil_of_full (hmax : 0 < ta.undo.maxDepth)
    (h : ¬ ta.undo.stack.length < ta.undo.maxDepth) : ta.undo.stack ≠ [] := by
  intro hnil
  rw [hnil, length_nil] at h
  exact h hmax

theorem steps_of_logged (hh : Historic u ta) (hb : Batched ta) (h : Logged ta ta')
    (hroom : Roomy ta ta') : Relation.ReflTransGen UndoLog.Step ta.log ta'.log := by
  rcases h.noted with ⟨hzero, hredo, hstack⟩ | ⟨hagrees, hsame⟩
  · have hnone := hh.grouped.mp hzero
    have hopened : ta'.undo.groupCheckpoint = none := h.checkpoint.trans hnone
    have hjoin : ta'.undo.stack = ta.undo.stack → ta.undo.stack ≠ [] →
        Relation.ReflTransGen UndoLog.Step ta.log ta'.log := by
      intro heq hne
      have hstep := UndoLog.Step.join (ta.undo.stack.map contentOf)
        (ta.undo.redo.map contentOf) (ta.undo.groupCheckpoint.map contentOf) (contentOf ta.snapshot)
        (contentOf ta'.snapshot) (by simpa using hne)
      rw [log, log, heq, hredo, hopened]
      exact .single hstep
    rcases hstack with hpush | ⟨heq, hkind⟩
    · by_cases hlt : ta.undo.stack.length < ta.undo.maxDepth
      · have hstep := UndoLog.Step.note (ta.undo.stack.map contentOf) (ta.undo.redo.map contentOf)
          (contentOf ta.snapshot) (contentOf ta'.snapshot)
        rw [log, log, hpush, push_of_room hlt, hredo, hopened, hnone, map_append]
        exact .single hstep
      · exact hjoin (hroom.resolve_right hlt) (stack_ne_nil_of_full hh.maxDepth hlt)
    · exact hjoin heq (hb hkind)
  · have hlog : ta'.log = { ta.log with now := contentOf ta'.snapshot } := by
      rw [log, log, hagrees.stack, hagrees.redo, hagrees.checkpoint]
    rcases Nat.eq_zero_or_pos ta.undo.groupDepth with hzero | hpos
    · obtain ⟨htext, helements⟩ := hsame hzero
      have heq : contentOf ta'.snapshot = contentOf ta.snapshot := by
        rw [contentOf, contentOf, snapshot, snapshot, htext, helements]
      rw [hlog, heq]
      exact .refl
    · obtain ⟨checkpoint, hcheckpoint⟩ : ∃ x, ta.undo.groupCheckpoint = some x := by
        cases hc : ta.undo.groupCheckpoint with
        | none => exact absurd (hh.grouped.mpr hc) hpos.ne'
        | some x => exact ⟨x, rfl⟩
      have hstep := UndoLog.Step.inside (ta.undo.stack.map contentOf) (ta.undo.redo.map contentOf)
        (contentOf checkpoint) (contentOf ta.snapshot) (contentOf ta'.snapshot)
      rw [hlog, log, hcheckpoint]
      exact .single hstep

theorem batched_of_logged (hmax : 0 < ta.undo.maxDepth) (hb : Batched ta) (h : Logged ta ta') :
    Batched ta' := by
  intro hkind
  rcases h.noted with ⟨-, -, hpush | ⟨heq, hold⟩⟩ | ⟨hagrees, -⟩
  · rw [hpush]
    exact push_ne_nil hmax _
  · rw [heq]
    exact hb hold
  · rw [hagrees.stack]
    rcases hagrees.kind with hnone | hsame
    · exact absurd hnone hkind
    · exact hb (hsame ▸ hkind)

/-! ## The operations on the history -/

theorem exists_checkpoint (hg : Grouped ta) (hpos : 0 < ta.undo.groupDepth) :
    ∃ checkpoint, ta.undo.groupCheckpoint = some checkpoint := by
  cases hc : ta.undo.groupCheckpoint with
  | none => exact absurd (hg.mpr hc) hpos.ne'
  | some checkpoint => exact ⟨checkpoint, rfl⟩

theorem undoStep_empty (h : ta.undo.stack = []) : ta.undoStep u = ta := by
  rw [undoStep, h]
  rfl

theorem undoStep_eq {stack : List UndoEntry} {entry : UndoEntry} (h : ta.undo.stack = stack ++ [entry]) :
    ta.undoStep u = (restore u { ta with undo := { ta.undo with
      stack := stack, redo := ta.undo.redo ++ [ta.snapshot] } } entry).resetBatch := by
  rw [undoStep, h, getLast?_concat]
  simp only [dropLast_concat]

theorem redoStep_empty (h : ta.undo.redo = []) : ta.redoStep u = ta := by
  rw [redoStep, h]
  rfl

theorem redoStep_eq {redo : List UndoEntry} {entry : UndoEntry} (h : ta.undo.redo = redo ++ [entry]) :
    ta.redoStep u = (restore u { ta with undo := { ta.undo with
      redo := redo, stack := ta.undo.stack ++ [ta.snapshot] } } entry).resetBatch := by
  rw [redoStep, h, getLast?_concat]
  simp only [dropLast_concat]

theorem cancelUndoGroup_eq {checkpoint : UndoEntry} (hpos : 0 < ta.undo.groupDepth)
    (hcheckpoint : ta.undo.groupCheckpoint = some checkpoint) :
    ta.cancelUndoGroup u = (restore u { ta with undo := { ta.undo with
      groupDepth := 0, groupCheckpoint := none } } checkpoint).resetBatch := by
  rw [cancelUndoGroup, if_neg hpos.ne', hcheckpoint]

theorem cancelUndoGroup_closed (hdepth : ta.undo.groupDepth = 0) : ta.cancelUndoGroup u = ta := by
  rw [cancelUndoGroup, if_pos hdepth]

variable {op : Op}

/-- No operation changes the limit, and a checkpoint goes with its group. -/
theorem grouped_step (hu : BreaksLines u) (hh : Historic u ta) (h : ta.step u op = some ta') :
    Grouped ta' ∧ ta'.undo.maxDepth = ta.undo.maxDepth := by
  by_cases hop : op.ofHistory = true
  · have hkept : ∀ t : TextArea, t.undo.maxDepth = ta.undo.maxDepth →
        t.undo.groupDepth = ta.undo.groupDepth → t.undo.groupCheckpoint = ta.undo.groupCheckpoint →
        Grouped t ∧ t.undo.maxDepth = ta.undo.maxDepth := by
      intro t hmax hdepth hcheckpoint
      rw [Grouped, hdepth, hcheckpoint]
      exact ⟨hh.grouped, hmax⟩
    cases op with
    | clearHistory =>
      obtain rfl := some.inj h
      exact hkept _ rfl rfl rfl
    | undo =>
      obtain rfl := some.inj h
      rcases eq_nil_or_concat' ta.undo.stack with hnil | ⟨stack, entry, hstack⟩
      · rw [undoStep_empty hnil]
        exact hkept _ rfl rfl rfl
      · rw [undoStep_eq hstack]
        exact hkept _ rfl rfl rfl
    | redo =>
      obtain rfl := some.inj h
      rcases eq_nil_or_concat' ta.undo.redo with hnil | ⟨redo, entry, hredo⟩
      · rw [redoStep_empty hnil]
        exact hkept _ rfl rfl rfl
      · rw [redoStep_eq hredo]
        exact hkept _ rfl rfl rfl
    | beginUndoGroup =>
      obtain rfl := some.inj h
      refine ⟨?_, rfl⟩
      rw [Grouped, beginUndoGroup]
      simp only [Nat.add_eq_zero_iff, Nat.one_ne_zero, and_false, false_iff]
      split
      · simp
      · rename_i hpos
        obtain ⟨checkpoint, hcheckpoint⟩ := exists_checkpoint hh.grouped (Nat.pos_of_ne_zero hpos)
        simp [hcheckpoint]
    | endUndoGroup =>
      obtain rfl := some.inj h
      rcases Nat.lt_trichotomy ta.undo.groupDepth 1 with hzero | hone | hmany
      · rw [endUndoGroup_closed (by omega)]
        exact hkept _ rfl rfl rfl
      · obtain ⟨checkpoint, hcheckpoint⟩ := exists_checkpoint hh.grouped (by omega)
        have hcloses := closes_endUndoGroup hone hcheckpoint
        rw [Grouped, hcloses.depth, hcloses.none]
        exact ⟨iff_of_true rfl rfl, hcloses.maxDepth⟩
      · obtain ⟨checkpoint, hcheckpoint⟩ := exists_checkpoint hh.grouped (by omega)
        rw [endUndoGroup_inner hmany]
        refine ⟨iff_of_false ?_ ?_, rfl⟩
        · simp only
          omega
        · simp [hcheckpoint]
    | cancelUndoGroup =>
      obtain rfl := some.inj h
      rcases Nat.eq_zero_or_pos ta.undo.groupDepth with hzero | hpos
      · rw [cancelUndoGroup_closed hzero]
        exact hkept _ rfl rfl rfl
      · obtain ⟨checkpoint, hcheckpoint⟩ := exists_checkpoint hh.grouped hpos
        rw [cancelUndoGroup_eq hpos hcheckpoint]
        exact ⟨iff_of_true rfl rfl, rfl⟩
    | _ => cases hop
  · have hlogged := logged_step hu hh.sound hh.grouped (by simpa using hop) h
    rw [Grouped, hlogged.depth, hlogged.checkpoint]
    exact ⟨hh.grouped, hlogged.maxDepth⟩

theorem historic_step (hu : BreaksLines u) (hh : Historic u ta) (op : Op)
    (h : ta.step u op = some ta') : Historic u ta' := by
  obtain ⟨next, hnext, hsound⟩ := step_sound hu hh.sound op
  obtain rfl : ta' = next := some.inj (h.symm.trans hnext)
  obtain ⟨hgrouped, hmax⟩ := grouped_step hu hh h
  exact ⟨hsound, hgrouped, hmax ▸ hh.maxDepth⟩

theorem historic_new (u : Unicode) (identity : BufferIdentity) : Historic u (new identity) :=
  ⟨sound_new u identity, iff_of_true rfl rfl, Nat.zero_lt_succ 99⟩

theorem historic_run (hu : BreaksLines u) (hh : Historic u ta) (h : ta.run u ops = some ta') :
    Historic u ta' := by
  induction ops generalizing ta with
  | nil =>
    obtain rfl := some.inj h
    exact hh
  | cons op ops ih =>
    obtain ⟨next, hnext, hrest⟩ := bind_eq_some_iff.mp h
    exact ih (historic_step hu hh _ hnext) hrest

/-! ## Steps of the log -/

/-- The runs in question: the history is not cleared, undo and redo come outside
groups, and no group ends with other elements while the text, the cursor and the
number of elements are those of its beginning. -/
def Linear (ta : TextArea) (op : Op) : Prop :=
  op ≠ .clearHistory ∧ (op = .undo ∨ op = .redo → ta.undo.groupDepth = 0) ∧
    (op = .endUndoGroup → ta.undo.groupDepth = 1 → ∀ checkpoint,
      ta.undo.groupCheckpoint = some checkpoint → ¬ Changed checkpoint ta →
        checkpoint.elements = ta.elements)

theorem steps_undo (hnone : ta.undo.groupCheckpoint = none) :
    Relation.ReflTransGen UndoLog.Step ta.log (ta.undoStep u).log := by
  rcases eq_nil_or_concat' ta.undo.stack with hnil | ⟨stack, entry, hstack⟩
  · rw [undoStep_empty hnil]
  · have hstep := UndoLog.Step.undo (stack.map contentOf) (ta.undo.redo.map contentOf)
      (contentOf entry) (contentOf ta.snapshot)
    have hbefore : ta.log = ⟨stack.map contentOf ++ [contentOf entry], ta.undo.redo.map contentOf, none,
        contentOf ta.snapshot⟩ := by
      rw [log, hstack, hnone, map_append]
      rfl
    have hafter : (ta.undoStep u).log = ⟨stack.map contentOf,
        ta.undo.redo.map contentOf ++ [contentOf ta.snapshot], none, contentOf entry⟩ := by
      rw [undoStep_eq hstack, log]
      simp only [resetBatch, restore, hnone, map_append, map_cons, map_nil]
      rfl
    rw [hbefore, hafter]
    exact .single hstep

theorem steps_redo (hnone : ta.undo.groupCheckpoint = none) :
    Relation.ReflTransGen UndoLog.Step ta.log (ta.redoStep u).log := by
  rcases eq_nil_or_concat' ta.undo.redo with hnil | ⟨redo, entry, hredo⟩
  · rw [redoStep_empty hnil]
  · have hstep := UndoLog.Step.redo (ta.undo.stack.map contentOf) (redo.map contentOf)
      (contentOf entry) (contentOf ta.snapshot)
    have hbefore : ta.log = ⟨ta.undo.stack.map contentOf, redo.map contentOf ++ [contentOf entry], none,
        contentOf ta.snapshot⟩ := by
      rw [log, hredo, hnone, map_append]
      rfl
    have hafter : (ta.redoStep u).log = ⟨ta.undo.stack.map contentOf ++ [contentOf ta.snapshot],
        redo.map contentOf, none, contentOf entry⟩ := by
      rw [redoStep_eq hredo, log]
      simp only [resetBatch, restore, hnone, map_append, map_cons, map_nil]
      rfl
    rw [hbefore, hafter]
    exact .single hstep

theorem steps_begin (hg : Grouped ta) :
    Relation.ReflTransGen UndoLog.Step ta.log ta.beginUndoGroup.log := by
  rcases Nat.eq_zero_or_pos ta.undo.groupDepth with hzero | hpos
  · have hstep := UndoLog.Step.openGroup (ta.undo.stack.map contentOf) (ta.undo.redo.map contentOf)
      (contentOf ta.snapshot)
    have hafter : ta.beginUndoGroup.log = ⟨ta.undo.stack.map contentOf, ta.undo.redo.map contentOf,
        some (contentOf ta.snapshot), contentOf ta.snapshot⟩ := by
      rw [log, beginUndoGroup]
      simp only [if_pos hzero]
      rfl
    rw [hafter, log, hg.mp hzero]
    exact .single hstep
  · have hsame : ta.beginUndoGroup.log = ta.log := by
      rw [log, log, beginUndoGroup]
      simp only [if_neg hpos.ne']
      rfl
    rw [hsame]

theorem steps_cancel (hg : Grouped ta) :
    Relation.ReflTransGen UndoLog.Step ta.log (ta.cancelUndoGroup u).log := by
  rcases Nat.eq_zero_or_pos ta.undo.groupDepth with hzero | hpos
  · rw [cancelUndoGroup_closed hzero]
  · obtain ⟨checkpoint, hcheckpoint⟩ := exists_checkpoint hg hpos
    have hstep := UndoLog.Step.cancel (ta.undo.stack.map contentOf) (ta.undo.redo.map contentOf)
      (contentOf checkpoint) (contentOf ta.snapshot)
    have hafter : (ta.cancelUndoGroup u).log = ⟨ta.undo.stack.map contentOf,
        ta.undo.redo.map contentOf, none, contentOf checkpoint⟩ := by
      rw [cancelUndoGroup_eq hpos hcheckpoint]
      rfl
    rw [hafter, log, hcheckpoint]
    exact .single hstep

theorem steps_end (hh : Historic u ta) (hroom : Roomy ta ta.endUndoGroup)
    (hseen : ta.undo.groupDepth = 1 → ∀ checkpoint, ta.undo.groupCheckpoint = some checkpoint →
      ¬ Changed checkpoint ta → checkpoint.elements = ta.elements) :
    Relation.ReflTransGen UndoLog.Step ta.log ta.endUndoGroup.log := by
  rcases Nat.lt_trichotomy ta.undo.groupDepth 1 with hzero | hone | hmany
  · rw [endUndoGroup_closed (by omega)]
  · obtain ⟨checkpoint, hcheckpoint⟩ := exists_checkpoint hh.grouped (by omega)
    have hcloses := closes_endUndoGroup hone hcheckpoint
    obtain ⟨htext, helements, -⟩ := endUndoGroup_frame ta
    have hnow : contentOf ta.endUndoGroup.snapshot = contentOf ta.snapshot := by
      rw [contentOf, contentOf, snapshot, snapshot, htext, helements]
    have hbefore : ta.log = ⟨ta.undo.stack.map contentOf, ta.undo.redo.map contentOf,
        some (contentOf checkpoint), contentOf ta.snapshot⟩ := by
      rw [log, hcheckpoint]
      rfl
    rcases hcloses.push with ⟨-, hstack, hredo⟩ | ⟨hsame, hstack, hredo⟩
    · by_cases hlt : ta.undo.stack.length < ta.undo.maxDepth
      · have hstep := UndoLog.Step.close (ta.undo.stack.map contentOf) (ta.undo.redo.map contentOf)
          (contentOf checkpoint) (contentOf ta.snapshot)
        have hafter : ta.endUndoGroup.log = ⟨ta.undo.stack.map contentOf ++ [contentOf checkpoint], [],
            none, contentOf ta.snapshot⟩ := by
          rw [log, hstack, push_of_room hlt, hredo, hcloses.none, hnow, map_append]
          rfl
        rw [hbefore, hafter]
        exact .single hstep
      · have hne := stack_ne_nil_of_full hh.maxDepth hlt
        have hstep := UndoLog.Step.join (ta.undo.stack.map contentOf)
          (ta.undo.redo.map contentOf) (some (contentOf checkpoint)) (contentOf ta.snapshot)
          (contentOf ta.snapshot) (by simpa using hne)
        have hafter : ta.endUndoGroup.log = ⟨ta.undo.stack.map contentOf, [], none,
            contentOf ta.snapshot⟩ := by
          rw [log, hroom.resolve_right hlt, hredo, hcloses.none, hnow]
          rfl
        rw [hbefore, hafter]
        exact .single hstep
    · -- the comparison sees no change, and there is none
      have hstep := UndoLog.Step.cancel (ta.undo.stack.map contentOf) (ta.undo.redo.map contentOf)
        (contentOf checkpoint) (contentOf ta.snapshot)
      have hkept : contentOf ta.snapshot = contentOf checkpoint := by
        have htext : checkpoint.text = ta.text.text := by
          by_contra hne
          exact hsame (Or.inl hne)
        rw [contentOf, contentOf, htext, hseen hone checkpoint hcheckpoint hsame]
        rfl
      have hafter : ta.endUndoGroup.log = ⟨ta.undo.stack.map contentOf, ta.undo.redo.map contentOf,
          none, contentOf checkpoint⟩ := by
        rw [log, hstack, hredo, hcloses.none, hnow, hkept]
        rfl
      rw [hbefore, hafter]
      exact .single hstep
  · have hsame : ta.endUndoGroup.log = ta.log := by
      rw [endUndoGroup_inner hmany]
      rfl
    rw [hsame]

theorem steps_of_step (hu : BreaksLines u) (hh : Historic u ta) (hb : Batched ta)
    (hlinear : Linear ta op) (hroom : op ≠ .undo → op ≠ .redo → Roomy ta ta')
    (h : ta.step u op = some ta') : Relation.ReflTransGen UndoLog.Step ta.log ta'.log := by
  by_cases hop : op.ofHistory = true
  · cases op with
    | clearHistory => exact absurd rfl hlinear.1
    | undo =>
      obtain rfl := some.inj h
      exact steps_undo (hh.grouped.mp (hlinear.2.1 (Or.inl rfl)))
    | redo =>
      obtain rfl := some.inj h
      exact steps_redo (hh.grouped.mp (hlinear.2.1 (Or.inr rfl)))
    | beginUndoGroup =>
      obtain rfl := some.inj h
      exact steps_begin hh.grouped
    | endUndoGroup =>
      obtain rfl := some.inj h
      exact steps_end hh (hroom (by simp) (by simp)) (hlinear.2.2 rfl)
    | cancelUndoGroup =>
      obtain rfl := some.inj h
      exact steps_cancel hh.grouped
    | _ => cases hop
  · have hlogged := logged_step hu hh.sound hh.grouped (by simpa using hop) h
    refine steps_of_logged hh hb hlogged (hroom ?_ ?_)
    · rintro rfl
      exact hop rfl
    · rintro rfl
      exact hop rfl

theorem batched_step (hu : BreaksLines u) (hh : Historic u ta) (hb : Batched ta)
    (h : ta.step u op = some ta') : Batched ta' := by
  by_cases hop : op.ofHistory = true
  · have hended : ∀ t : TextArea, t.undo.lastKind = none → Batched t := fun t hnone hkind =>
      absurd hnone hkind
    cases op with
    | clearHistory =>
      obtain rfl := some.inj h
      exact hended _ rfl
    | undo =>
      obtain rfl := some.inj h
      rcases eq_nil_or_concat' ta.undo.stack with hnil | ⟨stack, entry, hstack⟩
      · rwa [undoStep_empty hnil]
      · exact hended _ (by rw [undoStep_eq hstack]; rfl)
    | redo =>
      obtain rfl := some.inj h
      rcases eq_nil_or_concat' ta.undo.redo with hnil | ⟨redo, entry, hredo⟩
      · rwa [redoStep_empty hnil]
      · exact hended _ (by rw [redoStep_eq hredo]; rfl)
    | beginUndoGroup =>
      obtain rfl := some.inj h
      exact hb
    | endUndoGroup =>
      obtain rfl := some.inj h
      rcases Nat.lt_trichotomy ta.undo.groupDepth 1 with hzero | hone | hmany
      · rwa [endUndoGroup_closed (by omega)]
      · obtain ⟨checkpoint, hcheckpoint⟩ := exists_checkpoint hh.grouped (by omega)
        exact hended _ (closes_endUndoGroup hone hcheckpoint).kind
      · rw [endUndoGroup_inner hmany]
        exact hb
    | cancelUndoGroup =>
      obtain rfl := some.inj h
      rcases Nat.eq_zero_or_pos ta.undo.groupDepth with hzero | hpos
      · rwa [cancelUndoGroup_closed hzero]
      · obtain ⟨checkpoint, hcheckpoint⟩ := exists_checkpoint hh.grouped hpos
        exact hended _ (by rw [cancelUndoGroup_eq hpos hcheckpoint]; rfl)
    | _ => cases hop
  · exact batched_of_logged hh.maxDepth hb
      (logged_step hu hh.sound hh.grouped (by simpa using hop) h)

/-! ## Counting checkpoints -/

/-- The steps of a run that left a checkpoint on the stack. -/
def checkpointsMade (u : Unicode) : TextArea → List Op → Nat
  | _, [] => 0
  | ta, op :: ops =>
    match ta.step u op with
    | none => 0
    | some next =>
      (if op = .undo ∨ op = .redo ∨ next.undo.stack = ta.undo.stack then 0 else 1) +
        checkpointsMade u next ops

theorem length_push_le (undo : UndoState) (entry : UndoEntry) :
    (undo.push entry).stack.length ≤ undo.stack.length + 1 := by
  rw [UndoState.push]
  simp only
  split
  · rw [length_tail, length_append, length_singleton]
    omega
  · rw [length_append, length_singleton]

/-- The entries of both stacks. -/
def depthOf (ta : TextArea) : Nat := ta.undo.stack.length + ta.undo.redo.length

/-- Undo and redo move an entry from one stack to the other; what leaves a
checkpoint empties the redo stack. -/
theorem depthOf_step (hu : BreaksLines u) (hh : Historic u ta) (hclear : op ≠ .clearHistory)
    (h : ta.step u op = some ta') :
    depthOf ta' ≤
      (if op = .undo ∨ op = .redo ∨ ta'.undo.stack = ta.undo.stack then 0 else 1) + depthOf ta := by
  have hgrows : ta'.undo.redo.length ≤ ta.undo.redo.length →
      ta'.undo.stack.length ≤ ta.undo.stack.length + 1 → ¬ (op = .undo ∨ op = .redo) →
      (ta'.undo.stack ≠ ta.undo.stack → ta'.undo.redo = []) →
      depthOf ta' ≤ (if op = .undo ∨ op = .redo ∨ ta'.undo.stack = ta.undo.stack then 0 else 1) +
        depthOf ta := by
    intro hredo hstack hop hempty
    rw [depthOf, depthOf]
    split_ifs with hsame
    · have heq : ta'.undo.stack = ta.undo.stack := by tauto
      rw [heq]
      omega
    · have hnil := hempty (by tauto)
      rw [hnil, length_nil]
      omega
  by_cases hop : op.ofHistory = true
  · cases op with
    | clearHistory => exact absurd rfl hclear
    | undo =>
      obtain rfl := some.inj h
      rw [if_pos (Or.inl rfl), Nat.zero_add]
      rcases eq_nil_or_concat' ta.undo.stack with hnil | ⟨stack, entry, hstack⟩
      · rw [undoStep_empty hnil]
      · rw [undoStep_eq hstack, depthOf, depthOf, hstack]
        simp only [resetBatch, restore, length_append, length_singleton]
        omega
    | redo =>
      obtain rfl := some.inj h
      rw [if_pos (Or.inr (Or.inl rfl)), Nat.zero_add]
      rcases eq_nil_or_concat' ta.undo.redo with hnil | ⟨redo, entry, hredo⟩
      · rw [redoStep_empty hnil]
      · rw [redoStep_eq hredo, depthOf, depthOf, hredo]
        simp only [resetBatch, restore, length_append, length_singleton]
        omega
    | beginUndoGroup =>
      obtain rfl := some.inj h
      exact hgrows le_rfl (Nat.le_succ _) (by simp) fun hne => absurd rfl hne
    | endUndoGroup =>
      obtain rfl := some.inj h
      rcases Nat.lt_trichotomy ta.undo.groupDepth 1 with hzero | hone | hmany
      · rw [endUndoGroup_closed (by omega)] at hgrows ⊢
        exact hgrows le_rfl (Nat.le_succ _) (by simp) fun hne => absurd rfl hne
      · obtain ⟨checkpoint, hcheckpoint⟩ := exists_checkpoint hh.grouped (by omega)
        rcases (closes_endUndoGroup hone hcheckpoint).push with ⟨-, hstack, hredo⟩ | ⟨-, hstack, hredo⟩
        · refine hgrows ?_ ?_ (by simp) fun _ => hredo
          · rw [hredo]
            exact Nat.zero_le _
          · rw [hstack]
            exact length_push_le _ _
        · refine hgrows ?_ ?_ (by simp) fun hne => absurd hstack hne
          · rw [hredo]
          · rw [hstack]
            exact Nat.le_succ _
      · rw [endUndoGroup_inner hmany] at hgrows ⊢
        exact hgrows le_rfl (Nat.le_succ _) (by simp) fun hne => absurd rfl hne
    | cancelUndoGroup =>
      obtain rfl := some.inj h
      rcases Nat.eq_zero_or_pos ta.undo.groupDepth with hzero | hpos
      · rw [cancelUndoGroup_closed hzero] at hgrows ⊢
        exact hgrows le_rfl (Nat.le_succ _) (by simp) fun hne => absurd rfl hne
      · obtain ⟨checkpoint, hcheckpoint⟩ := exists_checkpoint hh.grouped hpos
        rw [cancelUndoGroup_eq hpos hcheckpoint] at hgrows ⊢
        exact hgrows le_rfl (Nat.le_succ _) (by simp) fun hne => absurd rfl hne
    | _ => cases hop
  · have hlogged := logged_step hu hh.sound hh.grouped (by simpa using hop) h
    have hother : ¬ (op = .undo ∨ op = .redo) := by
      rintro (rfl | rfl)
      · exact hop rfl
      · exact hop rfl
    rcases hlogged.noted with ⟨-, hredo, hstack⟩ | ⟨hagrees, -⟩
    · refine hgrows ?_ ?_ hother fun _ => hredo
      · rw [hredo]
        exact Nat.zero_le _
      · rcases hstack with hpush | ⟨heq, -⟩
        · rw [hpush]
          exact length_push_le _ _
        · rw [heq]
          exact Nat.le_succ _
    · refine hgrows ?_ ?_ hother fun hne => absurd hagrees.stack hne
      · rw [hagrees.redo]
      · rw [hagrees.stack]
        exact Nat.le_succ _

/-- What holds all along a run of at most `maxDepth` checkpoints. -/
theorem run_linear (hu : BreaksLines u) (hh : Historic u ta) (hb : Batched ta)
    (hlinear : Guided.EachTaken (step u) Linear ta ops) (hrun : ta.run u ops = some ta')
    (hcount : checkpointsMade u ta ops + depthOf ta ≤ ta.undo.maxDepth) :
    Historic u ta' ∧ Batched ta' ∧ ta'.undo.maxDepth = ta.undo.maxDepth ∧
      depthOf ta' ≤ checkpointsMade u ta ops + depthOf ta ∧
      Relation.ReflTransGen UndoLog.Step ta.log ta'.log := by
  induction ops generalizing ta with
  | nil =>
    obtain rfl := some.inj hrun
    exact ⟨hh, hb, rfl, Nat.le_add_left _ _, .refl⟩
  | cons op ops ih =>
    obtain ⟨next, hnext, hrest⟩ := bind_eq_some_iff.mp hrun
    have hmade : checkpointsMade u ta (op :: ops) =
        (if op = .undo ∨ op = .redo ∨ next.undo.stack = ta.undo.stack then 0 else 1) +
          checkpointsMade u next ops := by
      rw [checkpointsMade, hnext]
    have hdepth := depthOf_step hu hh hlinear.1.1 hnext
    have hmax := (grouped_step hu hh hnext).2
    have hroom : op ≠ .undo → op ≠ .redo → Roomy ta next := by
      intro hundo hredo
      by_cases hstack : next.undo.stack = ta.undo.stack
      · exact Or.inl hstack
      · right
        rw [hmade, if_neg (by tauto), depthOf] at hcount
        omega
    have hsteps := steps_of_step hu hh hb hlinear.1 hroom hnext
    obtain ⟨hh', hb', hmax', hdepth', hsteps'⟩ := ih (historic_step hu hh _ hnext)
      (batched_step hu hh hb hnext) (hlinear.2 next hnext) hrest (by omega)
    exact ⟨hh', hb', hmax'.trans hmax, by omega, hsteps.trans hsteps'⟩

/-! ## Undo and redo -/

theorem snapshot_restore (hs : Sound u ta) (t : TextArea) :
    ((restore u t ta.snapshot).resetBatch).snapshot = ta.snapshot := by
  have hcursor := (snaps_normalizeExternalCursor u ta.text.text ta.cursor).eq_of_boundary hs.cursor
  simp only [resetBatch, restore, EditBuffer.fromParts, snapshot, cursor] at hcursor ⊢
  rw [hcursor]

/-- After an undo that did something redo brings the state back, and the other way round. -/
def UndoRedoes (u : Unicode) (ta : TextArea) : Prop :=
  (ta.canUndo = true →
    (ta.undoStep u).canRedo = true ∧ ((ta.undoStep u).redoStep u).snapshot = ta.snapshot) ∧
  (ta.canRedo = true →
    (ta.redoStep u).canUndo = true ∧ ((ta.redoStep u).undoStep u).snapshot = ta.snapshot)

theorem undoRedoes (hs : Sound u ta) : UndoRedoes u ta := by
  constructor
  · intro hcan
    rcases eq_nil_or_concat' ta.undo.stack with hnil | ⟨stack, entry, hstack⟩
    · rw [canUndo, hnil] at hcan
      cases hcan
    · have hredo : (ta.undoStep u).undo.redo = ta.undo.redo ++ [ta.snapshot] := by
        rw [undoStep_eq hstack]
        rfl
      rw [canRedo, hredo, redoStep_eq hredo]
      exact ⟨by simp, snapshot_restore hs _⟩
  · intro hcan
    rcases eq_nil_or_concat' ta.undo.redo with hnil | ⟨redo, entry, hredo⟩
    · rw [canRedo, hnil] at hcan
      cases hcan
    · have hstack : (ta.redoStep u).undo.stack = ta.undo.stack ++ [ta.snapshot] := by
        rw [redoStep_eq hredo]
        rfl
      rw [canUndo, hstack, undoStep_eq hstack]
      exact ⟨by simp, snapshot_restore hs _⟩

/-! ## Undoing everything -/

theorem undo_iterate (hnone : ta.undo.groupCheckpoint = none) (n : Nat) :
    Relation.ReflTransGen UndoLog.Step ta.log ((undoStep u)^[n] ta).log ∧
      ((undoStep u)^[n] ta).undo.groupCheckpoint = none ∧
      ((undoStep u)^[n] ta).undo.stack.length = ta.undo.stack.length - n := by
  induction n generalizing ta with
  | zero => exact ⟨.refl, hnone, rfl⟩
  | succ n ih =>
    have hstep := steps_undo (u := u) hnone
    have hkept : (ta.undoStep u).undo.groupCheckpoint = none ∧
        (ta.undoStep u).undo.stack.length = ta.undo.stack.length - 1 := by
      rcases eq_nil_or_concat' ta.undo.stack with hnil | ⟨stack, entry, hstack⟩
      · rw [undoStep_empty hnil, hnil]
        exact ⟨hnone, rfl⟩
      · rw [undoStep_eq hstack, hstack, length_append, length_singleton]
        exact ⟨hnone, rfl⟩
    obtain ⟨hsteps, hnone', hlen⟩ := ih hkept.1
    rw [Function.iterate_succ_apply]
    exact ⟨hstep.trans hsteps, hnone', by rw [hlen, hkept.2]; omega⟩

theorem canUndo_eq_false : ta.canUndo = false ↔ ta.undo.stack = [] := by
  rw [canUndo]
  simp

/-- With the oldest state known, undoing everything leads to it. -/
theorem undo_to_origin (hnone : ta.undo.groupCheckpoint = none) {text : Text}
    {elements : List TextElement} (horigin : ta.log.origin = (text, elements)) :
    ((undoStep u)^[ta.undo.stack.length] ta).canUndo = false ∧
      ∀ n, ((undoStep u)^[n] ta).canUndo = false →
        ((undoStep u)^[n] ta).text.text = text ∧ ((undoStep u)^[n] ta).elements = elements := by
  constructor
  · obtain ⟨-, -, hlen⟩ := undo_iterate (u := u) hnone ta.undo.stack.length
    rw [canUndo_eq_false, ← length_eq_zero_iff, hlen, Nat.sub_self]
  · intro n hempty
    obtain ⟨hsteps, hclosed, -⟩ := undo_iterate (u := u) hnone n
    have heq := UndoLog.origin_eq_of_steps hsteps
    rw [UndoLog.origin_of_nil, horigin] at heq
    · exact Prod.mk.inj heq
    · rw [log, canUndo_eq_false.mp hempty]
      rfl
    · rw [log, hclosed]
      rfl

/-! ## Groups -/

/-- What a group holds: mutations, moves and inner groups. -/
def Inside (ta : TextArea) (op : Op) : Prop :=
  op ≠ .clearHistory ∧ op ≠ .undo ∧ op ≠ .redo ∧ op ≠ .cancelUndoGroup ∧
    (op = .endUndoGroup → 1 < ta.undo.groupDepth)

theorem inside_step (hu : BreaksLines u) (hh : Historic u ta) (hpos : 0 < ta.undo.groupDepth)
    (hinside : Inside ta op) (h : ta.step u op = some ta') :
    0 < ta'.undo.groupDepth ∧ ta'.undo.stack = ta.undo.stack ∧ ta'.undo.redo = ta.undo.redo ∧
      ta'.undo.groupCheckpoint = ta.undo.groupCheckpoint := by
  by_cases hop : op.ofHistory = true
  · cases op with
    | beginUndoGroup =>
      obtain rfl := some.inj h
      exact ⟨Nat.succ_pos _, rfl, rfl, if_neg hpos.ne'⟩
    | endUndoGroup =>
      obtain rfl := some.inj h
      have hmany := hinside.2.2.2.2 rfl
      rw [endUndoGroup_inner hmany]
      refine ⟨?_, rfl, rfl, rfl⟩
      simp only
      omega
    | clearHistory => exact absurd rfl hinside.1
    | undo => exact absurd rfl hinside.2.1
    | redo => exact absurd rfl hinside.2.2.1
    | cancelUndoGroup => exact absurd rfl hinside.2.2.2.1
    | _ => cases hop
  · have hlogged := logged_step hu hh.sound hh.grouped (by simpa using hop) h
    rcases hlogged.noted with ⟨hzero, -⟩ | ⟨hagrees, -⟩
    · omega
    · exact ⟨hagrees.depth ▸ hpos, hagrees.stack, hagrees.redo, hagrees.checkpoint⟩

theorem inside_run (hu : BreaksLines u) (hh : Historic u ta) (hpos : 0 < ta.undo.groupDepth)
    (hinside : Guided.EachTaken (step u) Inside ta ops) (hrun : ta.run u ops = some ta') :
    Historic u ta' ∧ ta'.undo.maxDepth = ta.undo.maxDepth ∧ 0 < ta'.undo.groupDepth ∧
      ta'.undo.stack = ta.undo.stack ∧ ta'.undo.redo = ta.undo.redo ∧
      ta'.undo.groupCheckpoint = ta.undo.groupCheckpoint := by
  induction ops generalizing ta with
  | nil =>
    obtain rfl := some.inj hrun
    exact ⟨hh, rfl, hpos, rfl, rfl, rfl⟩
  | cons op ops ih =>
    obtain ⟨next, hnext, hrest⟩ := bind_eq_some_iff.mp hrun
    obtain ⟨hpos', hstack, hredo, hcheckpoint⟩ := inside_step hu hh hpos hinside.1 hnext
    obtain ⟨hh', hmax, hend, hstack', hredo', hcheckpoint'⟩ :=
      ih (historic_step hu hh _ hnext) hpos' (hinside.2 next hnext) hrest
    exact ⟨hh', hmax.trans (grouped_step hu hh hnext).2, hend, hstack'.trans hstack,
      hredo'.trans hredo, hcheckpoint'.trans hcheckpoint⟩

/-- A group begun here is taken back by one undo when its end sees a change, and
by cancelling it. -/
def GroupsRevert (u : Unicode) (ta : TextArea) : Prop :=
  ∀ inner last, Guided.EachTaken (step u) Inside ta.beginUndoGroup inner →
    ta.beginUndoGroup.run u inner = some last →
      ((last.cancelUndoGroup u).snapshot = ta.snapshot ∧
        (last.cancelUndoGroup u).undo.stack = ta.undo.stack ∧
        (last.cancelUndoGroup u).undo.redo = ta.undo.redo) ∧
      (last.undo.groupDepth = 1 → Changed ta.snapshot last →
        last.endUndoGroup.canUndo = true ∧ last.endUndoGroup.canRedo = false ∧
          (last.endUndoGroup.undoStep u).snapshot = ta.snapshot ∧
          (last.endUndoGroup.undoStep u).undo.stack = ta.undo.stack)

theorem groupsRevert (hu : BreaksLines u) (hh : Historic u ta) (hclosed : ta.undo.groupDepth = 0)
    (hroom : ta.undo.stack.length < ta.undo.maxDepth) : GroupsRevert u ta := by
  intro inner last hinside hrun
  have hbegun : Historic u ta.beginUndoGroup := historic_step hu hh .beginUndoGroup rfl
  obtain ⟨-, hmax, hopen, hstack, hredo, hcheckpoint⟩ :=
    inside_run hu hbegun (Nat.succ_pos _) hinside hrun
  have hcheckpoint : last.undo.groupCheckpoint = some ta.snapshot :=
    hcheckpoint.trans (if_pos hclosed)
  refine ⟨?_, fun hlast hchanged => ?_⟩
  · rw [cancelUndoGroup_eq hopen hcheckpoint]
    exact ⟨snapshot_restore hh.sound _, hstack, hredo⟩
  · have hcloses := closes_endUndoGroup hlast hcheckpoint
    obtain ⟨-, hpush, hempty⟩ | ⟨hsame, -⟩ := hcloses.push
    · have hend : last.endUndoGroup.undo.stack = ta.undo.stack ++ [ta.snapshot] := by
        rw [hpush, push_of_room, hstack]
        · rfl
        · rw [hstack, hmax]
          exact hroom
      rw [undoStep_eq hend, canUndo, canRedo, hend, hempty]
      exact ⟨by simp, rfl, snapshot_restore hh.sound _, rfl⟩
    · exact absurd hchanged hsame

/-! ## Redo -/

/-- A mutation that changed the text or the elements leaves nothing to redo. -/
def EndsRedo (u : Unicode) (ta : TextArea) : Prop :=
  ∀ op ta', op.ofHistory = false → ta.step u op = some ta' →
    (ta'.text.text ≠ ta.text.text ∨ ta'.elements ≠ ta.elements) → ta'.canRedo = false

theorem endsRedo (hu : BreaksLines u) (hh : Historic u ta) (hclosed : ta.undo.groupDepth = 0) :
    EndsRedo u ta := by
  intro op ta' hop hok hchanged
  have hlogged := logged_step hu hh.sound hh.grouped hop hok
  rcases hlogged.noted with ⟨-, hredo, -⟩ | ⟨-, hsame⟩
  · rw [canRedo, hredo]
    rfl
  · obtain ⟨htext, helements⟩ := hsame hclosed
    rcases hchanged with hne | hne
    · exact absurd htext hne
    · exact absurd helements hne

/-! ## The history -/

/-- From a cleared history: undo and redo take each other back, undoing everything
leads to where the history was cleared, a group is taken back by one undo, and a
mutation ends the redoing. -/
theorem undo_linear (hu : BreaksLines u) (identity : BufferIdentity) {before : List Op} {t : TextArea}
    (ht : (new identity).run u before = some t) (hclosed : t.undo.groupDepth = 0)
    (hlinear : Guided.EachTaken (step u) Linear t.clearHistory ops)
    (hrun : t.clearHistory.run u ops = some ta)
    (hcount : checkpointsMade u t.clearHistory ops ≤ t.undo.maxDepth) :
    UndoRedoes u ta ∧
      (ta.undo.groupDepth = 0 →
        (((undoStep u)^[ta.undo.stack.length] ta).canUndo = false ∧
          ∀ n, ((undoStep u)^[n] ta).canUndo = false →
            ((undoStep u)^[n] ta).text.text = t.text.text ∧
              ((undoStep u)^[n] ta).elements = t.elements) ∧
        (checkpointsMade u t.clearHistory ops < t.undo.maxDepth → GroupsRevert u ta) ∧
        EndsRedo u ta) := by
  have hstart : Historic u t.clearHistory :=
    historic_step hu (historic_run hu (historic_new u identity) ht) .clearHistory rfl
  have hbatched : Batched t.clearHistory := fun hkind => absurd rfl hkind
  obtain ⟨hh, -, hmax, hdepth, hsteps⟩ := run_linear hu hstart hbatched hlinear hrun hcount
  refine ⟨undoRedoes hh.sound, fun hend => ⟨?_, fun hroom => ?_, endsRedo hu hh hend⟩⟩
  · apply undo_to_origin (hh.grouped.mp hend)
    rw [UndoLog.origin_eq_of_steps hsteps, UndoLog.origin_of_nil]
    · rfl
    · rfl
    · rw [log]
      have hnone : t.clearHistory.undo.groupCheckpoint = none := hstart.grouped.mp hclosed
      rw [hnone]
      rfl
  · apply groupsRevert hu hh hend
    have hmax : ta.undo.maxDepth = t.undo.maxDepth := hmax
    have hle : ta.undo.stack.length ≤ depthOf ta := Nat.le_add_right _ _
    have hzero : depthOf t.clearHistory = 0 := rfl
    omega

/-- Two letters typed with one undo in between. -/
theorem undo_linear_two_letters : ∃ ta,
    (new ⟨0, 0⟩).clearHistory.run (Unicode.ofRule plainRule)
        [.insertStr ['a'], .undo, .insertStr ['b']] = some ta ∧
      ∀ n, ((undoStep (Unicode.ofRule plainRule))^[n] ta).canUndo = false →
        ((undoStep (Unicode.ofRule plainRule))^[n] ta).text.text = [] ∧
          ((undoStep (Unicode.ofRule plainRule))^[n] ta).elements = [] := by
  have hdone : ((new ⟨0, 0⟩).clearHistory.run (Unicode.ofRule plainRule)
      [.insertStr ['a'], .undo, .insertStr ['b']]).map (fun ta => ta.undo.groupDepth) = some 0 := by
    decide +kernel
  obtain ⟨ta, hrun, hend⟩ := map_eq_some_iff.mp hdone
  have hfirst : ((new ⟨0, 0⟩).clearHistory.step (Unicode.ofRule plainRule) (.insertStr ['a'])).map
      (fun ta => ta.undo.groupDepth) = some 0 := by
    decide +kernel
  have hlinear : Guided.EachTaken (step (Unicode.ofRule plainRule)) Linear (new ⟨0, 0⟩).clearHistory
      [.insertStr ['a'], .undo, .insertStr ['b']] := by
    refine ⟨⟨by simp, by simp, by simp⟩, fun typed htyped =>
      ⟨⟨by simp, fun _ => ?_, by simp⟩, fun undone _ => ⟨⟨by simp, by simp, by simp⟩, fun _ _ => trivial⟩⟩⟩
    rw [htyped] at hfirst
    exact some.inj hfirst
  have hnew : (new ⟨0, 0⟩).run (.ofRule plainRule) [] = some (new ⟨0, 0⟩) := rfl
  have hlin := undo_linear breaksLines_plainRule ⟨0, 0⟩ hnew rfl hlinear hrun
    (by decide +kernel)
  exact ⟨ta, hrun, (hlin.2 hend).1.2⟩

/-- An inner group is not undone by itself: one undo takes back the outer one. -/
theorem inner_group_not_reverted :
    ((new ⟨0, 0⟩).run (Unicode.ofRule plainRule) [.beginUndoGroup, .insertStr ['a']]).map
        (fun ta => ta.text.text) = some ['a'] ∧
    ((new ⟨0, 0⟩).run (Unicode.ofRule plainRule) [.beginUndoGroup, .insertStr ['a'], .beginUndoGroup,
        .insertStr ['b'], .endUndoGroup, .endUndoGroup]).map
        (fun ta => (ta.text.text, ta.canUndo, (ta.undoStep (Unicode.ofRule plainRule)).text.text,
          (ta.undoStep (Unicode.ofRule plainRule)).canUndo)) =
      some (['a', 'b'], true, [], false) := by
  decide +kernel

end TextArea

end GrokBuild.PromptEditor
