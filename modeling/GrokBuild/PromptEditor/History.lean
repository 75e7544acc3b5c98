import GrokBuild.Lib.UndoLog
import GrokBuild.PromptEditor.Clear

/-!
# The undo history is linear

What one operation does to the two stacks and to the open group (`Logged`, and
the group operations beside it), seen as steps of an `UndoLog` of texts with
their elements. From a cleared history, undoing everything leads back to where it
was cleared, as long as no checkpoint is dropped and no group ends with other
elements but the text, the cursor and the number of elements it began with:
`end_undo_group` does not see such a change.
-/

namespace GrokBuild.PromptEditor

open TextLines Str ByteText Option

namespace TextArea

variable {u : Unicode} {ta ta' ta'' : TextArea} {plan : EditPlan} {kind : Option MutationKind}
  {outcome : EditOutcome}

def canUndo (ta : TextArea) : Bool := !ta.undo.stack.isEmpty

def canRedo (ta : TextArea) : Bool := !ta.undo.redo.isEmpty

/-! ## What a mutation does to the history -/

/-- A checkpoint is kept exactly while a group is open. -/
def Grouped (ta : TextArea) : Prop := ta.undo.groupDepth = 0 ↔ ta.undo.groupCheckpoint = none

/-- Histories that differ in the batch at most: it may have been ended. -/
structure Agrees (undo undo' : UndoState) : Prop where
  stack : undo'.stack = undo.stack
  redo : undo'.redo = undo.redo
  maxDepth : undo'.maxDepth = undo.maxDepth
  depth : undo'.groupDepth = undo.groupDepth
  checkpoint : undo'.groupCheckpoint = undo.groupCheckpoint
  kind : undo'.lastKind = none ∨ undo'.lastKind = undo.lastKind

theorem Agrees.refl (undo : UndoState) : Agrees undo undo := ⟨rfl, rfl, rfl, rfl, rfl, Or.inr rfl⟩

theorem Agrees.trans {undo undo' undo'' : UndoState} (h : Agrees undo undo')
    (h' : Agrees undo' undo'') : Agrees undo undo'' := by
  refine ⟨h'.stack.trans h.stack, h'.redo.trans h.redo, h'.maxDepth.trans h.maxDepth,
    h'.depth.trans h.depth, h'.checkpoint.trans h.checkpoint, ?_⟩
  rcases h'.kind with hnone | hsame
  · exact Or.inl hnone
  · rw [hsame]
    exact h.kind

/-- A mutation outside a group notes the state before it or belongs to the batch
of the one before; a change that is not noted is inside a group. -/
structure Logged (ta ta' : TextArea) : Prop where
  maxDepth : ta'.undo.maxDepth = ta.undo.maxDepth
  depth : ta'.undo.groupDepth = ta.undo.groupDepth
  checkpoint : ta'.undo.groupCheckpoint = ta.undo.groupCheckpoint
  noted : (ta.undo.groupDepth = 0 ∧ ta'.undo.redo = [] ∧
      (ta'.undo.stack = (ta.undo.push ta.snapshot).stack ∨
        (ta'.undo.stack = ta.undo.stack ∧ ta.undo.lastKind ≠ none))) ∨
    (Agrees ta.undo ta'.undo ∧
      (ta.undo.groupDepth = 0 → ta'.text.text = ta.text.text ∧ ta'.elements = ta.elements))

theorem logged_of_agrees (h : Agrees ta.undo ta'.undo) (htext : ta'.text.text = ta.text.text)
    (helements : ta'.elements = ta.elements) : Logged ta ta' :=
  ⟨h.maxDepth, h.depth, h.checkpoint, Or.inr ⟨h, fun _ => ⟨htext, helements⟩⟩⟩

theorem logged_of_preMutate (kind : MutationKind) (h : Agrees (ta.preMutate kind).undo ta'.undo) :
    Logged ta ta' := by
  rw [preMutate] at h
  split at h
  · rename_i hopen
    exact ⟨h.maxDepth, h.depth, h.checkpoint, Or.inr ⟨h, fun hclosed => absurd hclosed hopen.ne'⟩⟩
  · rename_i hclosed
    have hzero : ta.undo.groupDepth = 0 := by omega
    cases hpush : ta.shouldPush kind with
    | true =>
      rw [hpush] at h
      exact ⟨h.maxDepth, h.depth, h.checkpoint, Or.inl ⟨hzero, h.redo, Or.inl h.stack⟩⟩
    | false =>
      rw [hpush] at h
      refine ⟨h.maxDepth, h.depth, h.checkpoint, Or.inl ⟨hzero, h.redo, Or.inr ⟨h.stack, ?_⟩⟩⟩
      intro hnone
      simp [shouldPush, hnone] at hpush

theorem Logged.after (h : Logged ta' ta'') (hagrees : Agrees ta.undo ta'.undo)
    (htext : ta'.text = ta.text) (helements : ta'.elements = ta.elements) : Logged ta ta'' := by
  refine ⟨h.maxDepth.trans hagrees.maxDepth, h.depth.trans hagrees.depth,
    h.checkpoint.trans hagrees.checkpoint, ?_⟩
  have hsnapshot : ta'.snapshot = ta.snapshot := by
    rw [snapshot, snapshot, cursor, cursor, htext, helements]
  rcases h.noted with ⟨hzero, hredo, hstack⟩ | ⟨hnext, hsame⟩
  · left
    refine ⟨hagrees.depth ▸ hzero, hredo, ?_⟩
    rcases hstack with hstack | ⟨hstack, hkind⟩
    · left
      rw [hstack, UndoState.push, UndoState.push, hagrees.stack, hagrees.maxDepth, hsnapshot]
    · right
      refine ⟨hstack.trans hagrees.stack, fun hnone => hkind ?_⟩
      rcases hagrees.kind with h | h
      · exact h
      · exact h.trans hnone
  · right
    refine ⟨hagrees.trans hnext, fun hzero => ?_⟩
    obtain ⟨htext', helements'⟩ := hsame (hagrees.depth ▸ hzero)
    exact ⟨htext' ▸ htext ▸ rfl, helements'.trans helements⟩

/-! ## Edits -/

theorem logged_applyEditPlan (hchecked : EditBuffer.Checked u ta.text plan)
    (hkind : kind = none → isSemanticEdit plan = false)
    (h : ta.applyEditPlan u plan kind = some (ta', outcome)) : Logged ta ta' := by
  obtain ⟨c, o, hc, happ⟩ := applyEditPlan_applied hchecked kind
  obtain rfl : c = ta' := (Prod.mk.inj (some.inj (hc.symm.trans h))).1
  obtain ⟨hok, -, h⟩ := bind_eq_some_iff.mp h
  obtain ⟨⟨edited, o'⟩, hedit, h⟩ := bind_eq_some_iff.mp h
  have hundo := (applyValidatedEditPlan_buffer hedit).2
  obtain ⟨rfl, -⟩ := Prod.mk.inj (some.inj h)
  cases hsem : isSemanticEdit plan with
  | true =>
    rw [hsem] at hundo
    cases kind with
    | none =>
      rw [hkind rfl] at hsem
      cases hsem
    | some k =>
      apply logged_of_preMutate k
      have hundo : edited.undo = (ta.preMutate k).undo := hundo
      rw [← hundo]
      exact ⟨rfl, rfl, rfl, rfl, rfl, Or.inr rfl⟩
  | false =>
    obtain ⟨pre, post, htext, -, -, htext'⟩ := happ.text
    have hsame : plan.removedText = plan.replacement := by
      simp only [isSemanticEdit, Bool.or_eq_false_iff, bne_eq_false_iff_eq] at hsem
      exact hsem.1
    have helements := happ.elements
    rw [hsem] at hundo helements htext'
    apply logged_of_agrees
    · have hundo : edited.undo = ta.undo := by
        cases kind with
        | none => exact hundo
        | some k => exact hundo
      simp only [Bool.false_and, Bool.false_eq_true, if_false, hundo]
      exact Agrees.refl _
    · rw [htext', htext, hsame]
    · exact helements
variable {command : EditCommand}

theorem isSemanticEdit_navigation {b : EditBuffer} {atomic : List ByteRange}
    (hnav : command.category = .navigation) (h : b.planCommand u command atomic = some plan) :
    isSemanticEdit plan = false := by
  have hmove : ∀ cursorByte target, b.makeMove cursorByte target = some plan →
      isSemanticEdit plan = false := by
    intro cursorByte target hmove
    obtain ⟨hrange, hreplacement, -, hslice⟩ := EditBuffer.makePlan_eq_some hmove
    obtain ⟨pre, post, -, -, hlen⟩ := slice_eq_some.mp hslice
    simp only at hlen
    have hremoved : plan.removedText = [] := byteLen_eq_zero.mp (by omega)
    simp [isSemanticEdit, hremoved, hreplacement, hrange]
  cases command with
  | moveGraphemeLeft => exact hmove _ _ h
  | moveGraphemeRight => exact hmove _ _ h
  | moveWordLeft style =>
    obtain ⟨target, -, h⟩ := bind_eq_some_iff.mp h
    exact hmove _ _ h
  | moveWordRight style =>
    obtain ⟨target, -, h⟩ := bind_eq_some_iff.mp h
    exact hmove _ _ h
  | moveLogicalLineStart => exact hmove _ _ h
  | moveLogicalLineEnd => exact hmove _ _ h
  | _ => cases hnav

theorem logged_applyEditCommand (hu : BreaksLines u) (hs : Sound u ta)
    (hkind : kind = none → command.category = .navigation)
    (h : ta.applyEditCommand u command kind = some (ta', outcome)) : Logged ta ta' := by
  obtain ⟨plan, hplan, hvalid⟩ := EditBuffer.planCommand_valid hu hs.cursor command ta.elementRanges
  simp only [applyEditCommand, hplan, bind_eq_bind, bind_some] at h
  exact logged_applyEditPlan (EditBuffer.validatePlan_eq_ok.mp hvalid.accepted)
    (fun hnone => isSemanticEdit_navigation (hkind hnone) hplan) h

theorem logged_applyEditCommand_map (hu : BreaksLines u) (hs : Sound u ta)
    (hkind : kind = none → command.category = .navigation)
    (h : (ta.applyEditCommand u command kind).map (·.1) = some ta') : Logged ta ta' := by
  obtain ⟨⟨edited, o⟩, hok, rfl⟩ := map_eq_some_iff.mp h
  exact logged_applyEditCommand hu hs hkind hok
variable {range : ByteRange}

theorem logged_applyEditReplacement (hs : Sound u ta) {replacement : Text}
    {kind : MutationKind} (h : ta.applyEditReplacement u range replacement (some kind) = some ta') :
    Logged ta ta' := by
  obtain ⟨plan, hplan, -, hvalid⟩ := EditBuffer.planReplaceByteRange_valid hs.cursor range
    (ta.expandTabs replacement) ta.elementRanges
  simp only [applyEditReplacement, planEditReplacement, hplan, bind_eq_bind, bind_some,
    bind_eq_some_iff] at h
  obtain ⟨⟨edited, o⟩, hok, hrest⟩ := h
  obtain rfl := some.inj hrest
  exact logged_applyEditPlan (EditBuffer.validatePlan_eq_ok.mp hvalid.accepted)
    (fun hnone => by cases hnone) hok

theorem Logged.before (h : Logged ta ta') (hagrees : Agrees ta'.undo ta''.undo)
    (htext : ta''.text.text = ta'.text.text) (helements : ta''.elements = ta'.elements) :
    Logged ta ta'' := by
  refine ⟨hagrees.maxDepth.trans h.maxDepth, hagrees.depth.trans h.depth,
    hagrees.checkpoint.trans h.checkpoint, ?_⟩
  rcases h.noted with ⟨hzero, hredo, hstack⟩ | ⟨hfirst, hsame⟩
  · left
    refine ⟨hzero, hagrees.redo.trans hredo, ?_⟩
    rw [hagrees.stack]
    exact hstack
  · right
    refine ⟨hfirst.trans hagrees, fun hzero => ?_⟩
    obtain ⟨htext', helements'⟩ := hsame hzero
    exact ⟨htext.trans htext', helements.trans helements'⟩

theorem logged_noteInserted (h : Logged ta ta') (text : Text) : Logged ta (ta'.noteInserted text) := by
  rw [noteInserted]
  split
  · exact h.before ⟨rfl, rfl, rfl, rfl, rfl, Or.inr rfl⟩ rfl rfl
  · exact h
variable {text : Text}

theorem logged_insert (hs : Sound u ta) {kind : MutationKind}
    (h : (do
      let edited ← ta.applyEditReplacement u range text (some kind)
      some (edited.noteInserted text)) = some ta') : Logged ta ta' := by
  obtain ⟨edited, hedit, hrest⟩ := bind_eq_some_iff.mp h
  obtain rfl := some.inj hrest
  exact logged_noteInserted (logged_applyEditReplacement hs hedit) text

theorem logged_insertStr (hs : Sound u ta) (h : ta.insertStr u text = some ta') :
    Logged ta ta' := by
  cases text with
  | nil =>
    obtain rfl := some.inj h
    exact logged_of_agrees (Agrees.refl _) rfl rfl
  | cons first rest =>
    have hbroken : ∀ broken : TextArea, broken = (if ta.undo.lastKind = some .insert ∧
        ta.undo.lastInsertWs ≠ isWhitespace first then
          { ta with undo := { ta.undo with lastKind := none } } else ta) →
        Sound u broken ∧ Agrees ta.undo broken.undo ∧ broken.text = ta.text ∧
          broken.elements = ta.elements := by
      intro broken heq
      rw [heq]
      split
      · exact ⟨(withUndo_sound hs { ta.undo with lastKind := none } fun _ hx => Or.inl hx).1,
          ⟨rfl, rfl, rfl, rfl, rfl, Or.inl rfl⟩, rfl, rfl⟩
      · exact ⟨hs, Agrees.refl _, rfl, rfl⟩
    obtain ⟨hsb, hagrees, htext, helements⟩ := hbroken _ rfl
    exact (logged_insert hsb h).after hagrees htext helements

theorem logged_insertStrAt (hs : Sound u ta) {pos : Nat}
    (h : ta.insertStrAt u pos text = some ta') : Logged ta ta' := by
  rw [insertStrAt] at h
  split at h
  · obtain rfl := some.inj h
    exact logged_of_agrees (Agrees.refl _) rfl rfl
  · exact logged_insert hs h

theorem logged_yank (hs : Sound u ta) (h : ta.yank u = some ta') : Logged ta ta' := by
  rw [yank] at h
  split at h
  · obtain rfl := some.inj h
    exact logged_of_agrees (Agrees.refl _) rfl rfl
  · exact logged_insert hs h

theorem logged_killCurrentLine (hs : Sound u ta) (h : ta.killCurrentLine u = some ta') :
    Logged ta ta' := by
  simp only [killCurrentLine] at h
  split_ifs at h
  · exact logged_applyEditReplacement hs h
  · obtain rfl := some.inj h
    exact logged_of_agrees (Agrees.refl _) rfl rfl
  · exact logged_applyEditReplacement hs h

theorem logged_setText (h : ta.setText u text = some ta') : Logged ta ta' := by
  obtain ⟨plan, -, h⟩ := bind_eq_some_iff.mp h
  obtain ⟨-, -, h⟩ := bind_eq_some_iff.mp h
  obtain ⟨⟨buffer, o⟩, -, h⟩ := bind_eq_some_iff.mp h
  obtain rfl := some.inj h
  exact logged_of_preMutate .replace ⟨rfl, rfl, rfl, rfl, rfl, Or.inr rfl⟩

theorem logged_deleteSelection (hs : Sound u ta) (h : (ta.deleteSelection u).map (·.1) = some ta') :
    Logged ta ta' := by
  obtain ⟨⟨edited, deleted⟩, hdeleted, rfl⟩ := map_eq_some_iff.mp h
  obtain ⟨selected, -, h⟩ := bind_eq_some_iff.mp hdeleted
  cases selected with
  | none =>
    obtain ⟨rfl, -⟩ := Prod.mk.inj (some.inj h)
    exact logged_of_agrees (Agrees.refl _) rfl rfl
  | some range =>
    obtain ⟨removed, hremoved, h⟩ := bind_eq_some_iff.mp h
    obtain ⟨rfl, -⟩ := Prod.mk.inj (some.inj h)
    have htext : (removed.setCursorInner u (min range.start (byteLen removed.text.text))).text.text =
        removed.text.text := (EditBuffer.ite_advanceGeneration _ _).1
    exact (logged_applyEditReplacement hs hremoved).before ⟨rfl, rfl, rfl, rfl, rfl, Or.inr rfl⟩ htext
      rfl

theorem logged_replaceRangeWithElement {elementKind : ElementKind}
    (h : (ta.replaceRangeWithElement u range text elementKind).map (·.1) = some ta') :
    Logged ta ta' := by
  obtain ⟨⟨added, id⟩, hadded, rfl⟩ := map_eq_some_iff.mp h
  obtain ⟨plan, -, h⟩ := bind_eq_some_iff.mp hadded
  obtain ⟨-, -, h⟩ := bind_eq_some_iff.mp h
  obtain ⟨⟨edited, o⟩, hedit, h⟩ := bind_eq_some_iff.mp h
  have hundo := (applyValidatedEditPlan_buffer hedit).2
  obtain ⟨rfl, -⟩ := Prod.mk.inj (some.inj h)
  apply logged_of_preMutate .element
  rw [← hundo]
  exact ⟨rfl, rfl, rfl, rfl, rfl, Or.inr rfl⟩

theorem logged_inlineElement (ta : TextArea) (id : ElementId) : Logged ta (ta.inlineElement u id).1 := by
  rw [inlineElement]
  split
  · exact logged_of_agrees (Agrees.refl _) rfl rfl
  · exact logged_of_preMutate .element ⟨rfl, rfl, rfl, rfl, rfl, Or.inl rfl⟩

theorem logged_setCursorInner (ta : TextArea) (pos : Nat) : Logged ta (ta.setCursorInner u pos) :=
  logged_of_agrees (Agrees.refl _) (EditBuffer.ite_advanceGeneration _ _).1 rfl

/-! ## Deleting several clusters -/

/-- A deletion that does not shorten the text changes nothing. -/
def Shrinks (ta ta' : TextArea) : Prop :=
  byteLen ta'.text.text ≤ byteLen ta.text.text ∧
    (byteLen ta'.text.text = byteLen ta.text.text →
      ta'.text.text = ta.text.text ∧ ta'.elements = ta.elements)

theorem Shrinks.refl (ta : TextArea) : Shrinks ta ta := ⟨le_rfl, fun _ => ⟨rfl, rfl⟩⟩

theorem Shrinks.trans (h : Shrinks ta ta') (h' : Shrinks ta' ta'') : Shrinks ta ta'' := by
  refine ⟨h'.1.trans h.1, fun heq => ?_⟩
  have hle := h.1
  have hle' := h'.1
  obtain ⟨htext, helements⟩ := h.2 (by omega)
  obtain ⟨htext', helements'⟩ := h'.2 (by omega)
  exact ⟨htext'.trans htext, helements'.trans helements⟩

theorem shrinks_delete (hu : BreaksLines u) (hs : Sound u ta)
    (hdelete : command.category = .delete)
    (h : ta.applyEditCommand u command kind = some (ta', outcome)) : Shrinks ta ta' := by
  obtain ⟨plan, hplan, hvalid⟩ := EditBuffer.planCommand_valid hu hs.cursor command ta.elementRanges
  have hreplacement : plan.replacement = [] := by
    have hdeletion : ∀ range, ta.text.makeDeletion range = some plan → plan.replacement = [] :=
      fun range h => (EditBuffer.makePlan_eq_some h).2.1
    cases command with
    | deleteGraphemeBackward => exact hdeletion _ hplan
    | deleteGraphemeForward => exact hdeletion _ hplan
    | _ => cases hdelete
  simp only [applyEditCommand, hplan, bind_eq_bind, bind_some] at h
  obtain ⟨c, o, hc, happ⟩ :=
    applyEditPlan_applied (EditBuffer.validatePlan_eq_ok.mp hvalid.accepted) kind
  obtain rfl : c = ta' := (Prod.mk.inj (some.inj (hc.symm.trans h))).1
  obtain ⟨pre, post, htext, hstart, hstop, htext'⟩ := happ.text
  rw [hreplacement] at htext'
  have hlen : byteLen ta.text.text = byteLen c.text.text + byteLen plan.removedText := by
    rw [htext, htext']
    simp only [byteLen_append, byteLen_nil]
    omega
  refine ⟨by omega, fun heq => ?_⟩
  have hremoved : plan.removedText = [] := byteLen_eq_zero.mp (by omega)
  have hempty : plan.replacedByteRange.stop ≤ plan.replacedByteRange.start := by
    rw [hremoved, byteLen_nil] at hstop
    omega
  have hsem : isSemanticEdit plan = false := by simp [isSemanticEdit, hremoved, hreplacement, hempty]
  have helements := happ.elements
  rw [hsem] at helements
  exact ⟨by rw [htext, htext', hremoved], helements⟩

theorem logged_repeatCommand (hu : BreaksLines u)
    (hdelete : command.category = .delete) {n : Nat} {ta : TextArea} (hs : Sound u ta)
    (hopen : ta.undo.groupDepth > 0) (h : repeatCommand u command n ta = some ta') :
    Agrees ta.undo ta'.undo ∧ Shrinks ta ta' := by
  induction n generalizing ta with
  | zero =>
    obtain rfl := some.inj h
    exact ⟨Agrees.refl _, Shrinks.refl _⟩
  | succ n ih =>
    obtain ⟨edited, o, hok, hse, -⟩ := applyEditCommand_sound hu hs command (some .delete)
    have hlogged := logged_applyEditCommand hu hs (fun hnone => by cases hnone) hok
    have hshrinks := shrinks_delete hu hs hdelete hok
    obtain ⟨hclosed, -⟩ | ⟨hagrees, -⟩ := hlogged.noted
    · omega
    simp only [repeatCommand, hok, bind_eq_bind, bind_some] at h
    split at h
    · obtain rfl := some.inj h
      exact ⟨hagrees, hshrinks⟩
    · obtain ⟨hrest, hrest'⟩ := ih hse (by rw [hagrees.depth]; exact hopen) h
      exact ⟨hagrees.trans hrest, hshrinks.trans hrest'⟩

/-! ## Groups -/

/-- The comparison at the end of a group. -/
def Changed (checkpoint : UndoEntry) (ta : TextArea) : Prop :=
  checkpoint.text ≠ ta.text.text ∨ checkpoint.cursor ≠ ta.cursor ∨
    checkpoint.elements.length ≠ ta.elements.length

/-- What closing the outermost group does: the checkpoint is pushed when the
comparison sees a change. -/
structure Closes (checkpoint : UndoEntry) (ta ta' : TextArea) : Prop where
  maxDepth : ta'.undo.maxDepth = ta.undo.maxDepth
  depth : ta'.undo.groupDepth = 0
  none : ta'.undo.groupCheckpoint = none
  kind : ta'.undo.lastKind = Option.none
  push : (Changed checkpoint ta ∧ ta'.undo.stack = (ta.undo.push checkpoint).stack ∧
      ta'.undo.redo = []) ∨
    (¬ Changed checkpoint ta ∧ ta'.undo.stack = ta.undo.stack ∧ ta'.undo.redo = ta.undo.redo)

theorem closes_endUndoGroup {checkpoint : UndoEntry} (hdepth : ta.undo.groupDepth = 1)
    (hcheckpoint : ta.undo.groupCheckpoint = some checkpoint) : Closes checkpoint ta ta.endUndoGroup := by
  have hend : ta.endUndoGroup = (({ ta with undo :=
      { ta.undo with groupDepth := 0, groupCheckpoint := none } } : TextArea).closeGroup
        checkpoint).resetBatch := by
    simp [endUndoGroup, hdepth, hcheckpoint]
  rw [hend, closeGroup]
  split
  · rename_i hchanged
    exact ⟨rfl, rfl, rfl, rfl, Or.inl ⟨hchanged, rfl, rfl⟩⟩
  · rename_i hsame
    exact ⟨rfl, rfl, rfl, rfl, Or.inr ⟨hsame, rfl, rfl⟩⟩

theorem endUndoGroup_inner (hdepth : 1 < ta.undo.groupDepth) :
    ta.endUndoGroup = { ta with undo := { ta.undo with groupDepth := ta.undo.groupDepth - 1 } } := by
  rw [endUndoGroup, if_neg (by omega)]
  exact if_neg (by simp only; omega)

theorem endUndoGroup_closed (hdepth : ta.undo.groupDepth = 0) : ta.endUndoGroup = ta := by
  rw [endUndoGroup, if_pos hdepth]

theorem logged_deleteGraphemes (hu : BreaksLines u) (hs : Sound u ta) (hg : Grouped ta)
    (hdelete : command.category = .delete) {n : Nat}
    (h : ta.deleteGraphemes u command n = some ta') : Logged ta ta' := by
  rw [deleteGraphemes] at h
  split_ifs at h
  · obtain rfl := some.inj h
    exact logged_of_agrees (Agrees.refl _) rfl rfl
  · exact logged_applyEditCommand_map hu hs (fun hnone => by cases hnone) h
  · obtain ⟨edited, hrepeat, rfl⟩ := map_eq_some_iff.mp h
    have hopen : ta.beginUndoGroup.undo.groupDepth > 0 := Nat.succ_pos _
    obtain ⟨hagrees, hshrinks⟩ :=
      logged_repeatCommand hu hdelete (beginUndoGroup_sound hs).1 hopen hrepeat
    obtain ⟨htext, helements, -⟩ := endUndoGroup_frame edited
    rcases Nat.eq_zero_or_pos ta.undo.groupDepth with hzero | hpos
    · -- the deletions are a group of their own
      have hnone : ta.undo.groupCheckpoint = none := hg.mp hzero
      have hdepth : edited.undo.groupDepth = 1 := by
        rw [hagrees.depth, beginUndoGroup, hzero]
      have hcheckpoint : edited.undo.groupCheckpoint = some ta.snapshot := by
        rw [hagrees.checkpoint, beginUndoGroup]
        exact if_pos hzero
      have hcloses := closes_endUndoGroup hdepth hcheckpoint
      refine ⟨hcloses.maxDepth.trans hagrees.maxDepth, hcloses.depth.trans hzero.symm,
        hcloses.none.trans hnone.symm, ?_⟩
      rcases hcloses.push with ⟨-, hstack, hredo⟩ | ⟨hsame, hstack, hredo⟩
      · left
        refine ⟨hzero, hredo, Or.inl ?_⟩
        rw [hstack, UndoState.push, UndoState.push, hagrees.stack, hagrees.maxDepth]
        rfl
      · right
        refine ⟨⟨hstack.trans hagrees.stack, hredo.trans hagrees.redo,
          hcloses.maxDepth.trans hagrees.maxDepth, hcloses.depth.trans hzero.symm,
          hcloses.none.trans hnone.symm, Or.inl hcloses.kind⟩, fun _ => ?_⟩
        have hkept : edited.text.text = ta.text.text := by
          by_contra hne
          exact hsame (Or.inl fun heq => hne heq.symm)
        have hlen : byteLen edited.text.text = byteLen ta.beginUndoGroup.text.text := by
          rw [hkept]
          rfl
        exact ⟨by rw [htext]; exact hkept, helements.trans (hshrinks.2 hlen).2⟩
    · -- inside a group they are part of it
      have hdepth : edited.undo.groupDepth = ta.undo.groupDepth + 1 := hagrees.depth
      rw [endUndoGroup_inner (by omega)]
      have hcheckpoint : edited.undo.groupCheckpoint = ta.undo.groupCheckpoint := by
        rw [hagrees.checkpoint, beginUndoGroup]
        exact if_neg hpos.ne'
      have hrest : Agrees ta.undo { edited.undo with groupDepth := edited.undo.groupDepth - 1 } :=
        ⟨hagrees.stack, hagrees.redo, hagrees.maxDepth, by simp only; omega, hcheckpoint, hagrees.kind⟩
      exact ⟨hrest.maxDepth, hrest.depth, hrest.checkpoint,
        Or.inr ⟨hrest, fun hzero => absurd hzero hpos.ne'⟩⟩

/-- The operations on the history itself. -/
def Op.ofHistory : Op → Bool
  | .clearHistory | .undo | .redo | .beginUndoGroup | .endUndoGroup | .cancelUndoGroup => true
  | _ => false

/-- Every other operation is logged. -/
theorem logged_step (hu : BreaksLines u) (hs : Sound u ta) (hg : Grouped ta) {op : Op}
    (hop : op.ofHistory = false) (h : ta.step u op = some ta') : Logged ta ta' := by
  have hmoved : ∀ pos, some (ta.setCursorInner u pos) = some ta' → Logged ta ta' := by
    intro pos heq
    obtain rfl := some.inj heq
    exact logged_setCursorInner ta pos
  cases op with
  | setTabWidth tabWidth =>
    obtain rfl := some.inj h
    exact logged_of_agrees (Agrees.refl _) rfl rfl
  | setText text => exact logged_setText h
  | insertStr text => exact logged_insertStr hs h
  | insertStrAt pos text => exact logged_insertStrAt hs h
  | replaceRange range text => exact logged_applyEditReplacement hs h
  | setCursor pos => exact hmoved _ h
  | moveCursorLeft => exact logged_applyEditCommand_map hu hs (fun _ => rfl) h
  | moveCursorRight => exact logged_applyEditCommand_map hu hs (fun _ => rfl) h
  | moveCursorVertically target => exact hmoved _ h
  | moveCursorToBeginningOfLine up visual =>
    cases up with
    | true => exact logged_applyEditCommand_map hu hs (fun _ => rfl) h
    | false => exact hmoved _ h
  | moveCursorToEndOfLine down visual =>
    cases down with
    | true => exact logged_applyEditCommand_map hu hs (fun _ => rfl) h
    | false => exact hmoved _ h
  | classified command =>
    cases command with
    | insert character =>
      have h : ta.insertStr u [character] = some ta' := h
      exact logged_insertStr hs h
    | moveGraphemeLeft => exact logged_applyEditCommand_map hu hs (fun _ => rfl) h
    | moveGraphemeRight => exact logged_applyEditCommand_map hu hs (fun _ => rfl) h
    | moveWordLeft style => exact logged_applyEditCommand_map hu hs (fun _ => rfl) h
    | moveWordRight style => exact logged_applyEditCommand_map hu hs (fun _ => rfl) h
    | moveLogicalLineStart => exact logged_applyEditCommand_map hu hs (fun _ => rfl) h
    | moveLogicalLineEnd => exact logged_applyEditCommand_map hu hs (fun _ => rfl) h
    | _ => exact logged_applyEditCommand_map hu hs (fun hnone => by cases hnone) h
  | deleteBackward n => exact logged_deleteGraphemes hu hs hg rfl h
  | deleteForward n => exact logged_deleteGraphemes hu hs hg rfl h
  | deleteBackwardWord => exact logged_applyEditCommand_map hu hs (fun hnone => by cases hnone) h
  | deleteBackwardUnixWord => exact logged_applyEditCommand_map hu hs (fun hnone => by cases hnone) h
  | deleteForwardWord => exact logged_applyEditCommand_map hu hs (fun hnone => by cases hnone) h
  | killToEndOfLine => exact logged_applyEditCommand_map hu hs (fun hnone => by cases hnone) h
  | killToBeginningOfLine => exact logged_applyEditCommand_map hu hs (fun hnone => by cases hnone) h
  | killCurrentLine => exact logged_killCurrentLine hs h
  | yank => exact logged_yank hs h
  | setSelection anchor head =>
    obtain rfl := some.inj h
    exact logged_of_agrees (Agrees.refl _) rfl rfl
  | clearSelection =>
    obtain rfl := some.inj h
    exact logged_of_agrees (Agrees.refl _) rfl rfl
  | deleteSelection => exact logged_deleteSelection hs h
  | insertElement text kind => exact logged_replaceRangeWithElement h
  | replaceRangeWithElement range text kind => exact logged_replaceRangeWithElement h
  | inlineElement id =>
    obtain rfl := some.inj h
    exact logged_inlineElement ta id
  | _ => cases hop

end TextArea

end GrokBuild.PromptEditor
