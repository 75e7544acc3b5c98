import GrokBuild.PromptEditor.Area
import GrokBuild.PromptEditor.Planning

/-!
# What an edit does to the text area

A plan that passes its check is applied without a panic, and what comes of it is
one text with one range replaced, the elements shifted around it, no new id, and
a history that gained at most a snapshot of the state before (`Applied`).
-/

namespace GrokBuild.PromptEditor

open TextLines Str ByteText List Option

/-- Every snapshot the history holds. -/
def UndoState.entries (undo : UndoState) : List UndoEntry :=
  undo.stack ++ undo.redo ++ undo.groupCheckpoint.toList

theorem UndoState.mem_push {undo : UndoState} {entry x : UndoEntry}
    (h : x ∈ (undo.push entry).entries) : x ∈ undo.entries ∨ x = entry := by
  simp only [entries, push, mem_append] at h ⊢
  rcases h with (h | h) | h
  · have hx : x ∈ undo.stack ++ [entry] := by
      split at h
      · exact mem_of_mem_tail h
      · exact h
    rcases mem_append.mp hx with hx | hx
    · exact Or.inl (Or.inl (Or.inl hx))
    · exact Or.inr (mem_singleton.mp hx)
  · exact Or.inl (Or.inl (Or.inr h))
  · exact Or.inl (Or.inr h)

namespace TextArea

variable {u : Unicode} {ta ta' : TextArea} {plan : EditPlan}

/-- The history of `ta'` holds nothing but what `ta` held and a snapshot of it. -/
def Remembers (ta ta' : TextArea) : Prop :=
  ∀ x ∈ ta'.undo.entries, x ∈ ta.undo.entries ∨ x = ta.snapshot

theorem preMutate_text (ta : TextArea) (kind : MutationKind) :
    (ta.preMutate kind).text = ta.text := by
  unfold preMutate
  split <;> rfl

theorem preMutate_elements (ta : TextArea) (kind : MutationKind) :
    (ta.preMutate kind).elements = ta.elements := by
  unfold preMutate
  split <;> rfl

theorem preMutate_nextElementId (ta : TextArea) (kind : MutationKind) :
    (ta.preMutate kind).nextElementId = ta.nextElementId := by
  unfold preMutate
  split <;> rfl

theorem preMutate_remembers (ta : TextArea) (kind : MutationKind) :
    Remembers ta (ta.preMutate kind) := by
  intro x hx
  unfold preMutate at hx
  split at hx
  · exact Or.inl hx
  · -- the redo stack is emptied, the undo stack gains the snapshot or nothing
    simp only [UndoState.entries, append_nil, mem_append] at hx
    have hpush : ∀ undo : UndoState, (undo = ta.undo ∨ undo = ta.undo.push ta.snapshot) →
        (x ∈ undo.stack ∨ x ∈ undo.groupCheckpoint.toList) →
        x ∈ ta.undo.entries ∨ x = ta.snapshot := by
      rintro undo (rfl | rfl) hmem
      · left
        simp only [UndoState.entries, mem_append]
        tauto
      · refine UndoState.mem_push ?_
        simp only [UndoState.entries, mem_append]
        tauto
    refine hpush _ ?_ hx
    by_cases hp : ta.shouldPush kind = true
    · exact Or.inr (if_pos hp)
    · exact Or.inl (if_neg hp)

theorem preMutateIf_frame (ta : TextArea) (semanticEdit : Bool) (kind : Option MutationKind) :
    (ta.preMutateIf semanticEdit kind).text = ta.text ∧
      (ta.preMutateIf semanticEdit kind).elements = ta.elements ∧
      (ta.preMutateIf semanticEdit kind).nextElementId = ta.nextElementId ∧
      Remembers ta (ta.preMutateIf semanticEdit kind) := by
  unfold preMutateIf
  cases kind with
  | none => exact ⟨rfl, rfl, rfl, fun x hx => Or.inl hx⟩
  | some kind =>
    simp only
    split
    · exact ⟨preMutate_text ta kind, preMutate_elements ta kind, preMutate_nextElementId ta kind,
        preMutate_remembers ta kind⟩
    · exact ⟨rfl, rfl, rfl, fun x hx => Or.inl hx⟩

/-- What applying a plan leaves behind. -/
structure Applied (u : Unicode) (ta ta' : TextArea) (plan : EditPlan) : Prop where
  text : ∃ pre post, ta.text.text = pre ++ plan.removedText ++ post ∧
    byteLen pre = plan.replacedByteRange.start ∧
    byteLen pre + byteLen plan.removedText = plan.replacedByteRange.stop ∧
    ta'.text.text = pre ++ plan.replacement ++ post
  cursor : IsBoundary u ta'.text.text ta'.text.cursorByte
  elements : ta'.elements =
    if isSemanticEdit plan then
      shiftElements plan.replacedByteRange.start plan.replacedByteRange.stop
        (byteLen plan.replacement) ta.elements
    else ta.elements
  ids : ta'.nextElementId = ta.nextElementId
  history : Remembers ta ta'

theorem applyValidatedEditPlan_applied (h : EditBuffer.Checked u ta.text plan)
    (kind : Option MutationKind) :
    ∃ ta' outcome, ta.applyValidatedEditPlan u plan kind = some (ta', outcome) ∧
      Applied u ta ta' plan := by
  obtain ⟨b, outcome, pre, post, happly, htext, hstart, hstop, hb, hboundary⟩ := h.applied
  unfold applyValidatedEditPlan
  simp only [happly, bind_eq_bind, bind_some]
  cases hs : isSemanticEdit plan with
  | true =>
    refine ⟨_, outcome, if_pos rfl, ⟨pre, post, htext, hstart, hstop, hb⟩, hboundary, ?_, rfl,
      fun x hx => Or.inl hx⟩
    have hlen : plan.replacedByteRange.start +
        (plan.replacedByteRange.stop - plan.replacedByteRange.start) =
          plan.replacedByteRange.stop := by omega
    simp only [hs, if_true, updateElementsAfterReplace, hlen]
  | false =>
    exact ⟨_, outcome, if_neg (by simp), ⟨pre, post, htext, hstart, hstop, hb⟩, hboundary,
      by simp [hs], rfl, fun x hx => Or.inl hx⟩

theorem applyEditPlan_applied (h : EditBuffer.Checked u ta.text plan)
    (kind : Option MutationKind) :
    ∃ ta' outcome, ta.applyEditPlan u plan kind = some (ta', outcome) ∧
      Applied u ta ta' plan := by
  have hok := EditBuffer.validatePlan_eq_ok.mpr h
  obtain ⟨htext, helements, hids, hhistory⟩ :=
    preMutateIf_frame ta (isSemanticEdit plan) kind
  have hchecked : EditBuffer.Checked u (ta.preMutateIf (isSemanticEdit plan) kind).text plan :=
    htext.symm ▸ h
  obtain ⟨edited, outcome, hedit, happ⟩ := applyValidatedEditPlan_applied hchecked kind
  unfold applyEditPlan
  simp only [assertValidEditPlan, hok, hedit, bind_eq_bind, bind_some]
  have hedited : Applied u ta edited plan := by
    refine ⟨htext ▸ happ.text, happ.cursor, helements ▸ happ.elements, happ.ids.trans hids, ?_⟩
    intro x hx
    rcases happ.history x hx with hx | rfl
    · exact hhistory x hx
    · right
      simp only [snapshot, cursor, htext, helements]
  refine ⟨_, outcome, rfl, ?_⟩
  split
  · exact ⟨hedited.text, hedited.cursor, hedited.elements, hedited.ids, hedited.history⟩
  · exact hedited

end TextArea

end GrokBuild.PromptEditor
