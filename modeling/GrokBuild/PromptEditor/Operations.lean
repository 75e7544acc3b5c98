import GrokBuild.PromptEditor.Whole

/-!
# One operation at a time

Every operation runs without a panic from a sound state and ends in one. All but
the three that bring a snapshot back also keep the elements (`Safe`); those three
only put back what was whole when it was recorded.
-/

namespace GrokBuild.PromptEditor

open TextLines Str ByteText List Option

namespace TextArea

variable {u : Unicode} {ta ta' : TextArea} {plan : EditPlan}

/-! ## Edits -/

/-- A plan made around the elements swallows each of them or leaves it alone. -/
theorem plan_respects (hs : Sound u ta)
    (hvalid : ta.text.ValidPlan u (normalizeAtomicRanges u ta.text.text ta.elementRanges) plan) :
    ∀ e ∈ ta.elements, Span.Respects plan.replacedByteRange e.range := by
  intro e he
  have hin := hs.whole.inside e he
  rcases hin.1.eq_or_lt with heq | hlt
  · -- an empty element is at a position, which is before, after or within the range
    unfold Span.Respects
    omega
  · have hmem : e.range ∈ ta.elementRanges := List.mem_map_of_mem he
    obtain ⟨m, hm, hms, hme⟩ := exists_normalized_of_mem (u := u) hmem hlt hin.2
    exact (hvalid.respects m hm).mono hms hme

theorem Sound.history_of_remembers (hs : Sound u ta) (hids : ta.nextElementId ≤ ta'.nextElementId)
    (h : Remembers ta ta') : ∀ x ∈ ta'.undo.entries, Whole x.text x.elements ∧
      ∀ e ∈ x.elements, e.id < ta'.nextElementId := by
  intro x hx
  rcases h x hx with hx | rfl
  · exact ⟨(hs.history x hx).1, fun e he => ((hs.history x hx).2 e he).trans_le hids⟩
  · exact ⟨hs.whole, fun e he => (hs.fresh e he).trans_le hids⟩

theorem sound_of_applied (hs : Sound u ta)
    (hvalid : ta.text.ValidPlan u (normalizeAtomicRanges u ta.text.text ta.elementRanges) plan)
    (happ : Applied u ta ta' plan) :
    (Sound u ta' ∧ Keeps ta ta') ∧ ∀ e ∈ ta'.elements,
      e.range.stop ≤ plan.replacedByteRange.start ∨
        plan.replacedByteRange.start + byteLen plan.replacement ≤ e.range.start := by
  have hresp := plan_respects hs hvalid
  obtain ⟨pre, post, htext, hstart, hstop, htext'⟩ := happ.text
  have hrange : plan.replacedByteRange = ⟨byteLen pre, byteLen pre + byteLen plan.removedText⟩ := by
    rw [hstop, hstart]
  have hhistory := hs.history_of_remembers happ.ids.ge happ.history
  have helements := happ.elements
  rw [hrange] at hresp helements ⊢
  cases hsem : isSemanticEdit plan with
  | true =>
    rw [hsem, if_pos rfl] at helements
    obtain ⟨hwhole, hclear⟩ := whole_shift plan.replacement (htext ▸ hs.whole) hresp
    rw [← htext', ← helements] at hwhole
    rw [← helements] at hclear
    refine ⟨⟨⟨happ.cursor, hwhole, ?_, hhistory⟩, ⟨happ.ids.ge, ?_⟩⟩, hclear⟩
    · intro e' he'
      obtain ⟨e, he, -, rfl⟩ := mem_shiftElements (helements ▸ he')
      exact happ.ids.symm ▸ hs.fresh e he
    · intro e' he'
      obtain ⟨e, he, hkeep, rfl⟩ := mem_shiftElements (helements ▸ he')
      obtain ⟨x, hx⟩ := hs.whole.exists_slice he
      refine Or.inr ⟨e, he, rfl, ?_⟩
      rw [hx, htext']
      exact slice_shift (hresp e he) hkeep (htext ▸ hx)
  | false =>
    rw [hsem, if_neg (by simp)] at helements
    -- nothing is replaced by nothing
    obtain ⟨hsame, hempty⟩ : plan.removedText = plan.replacement ∧
        plan.replacedByteRange.stop ≤ plan.replacedByteRange.start := by
      simpa [isSemanticEdit] using hsem
    have hzero : byteLen plan.replacement = 0 := by
      rw [← hsame]
      rw [hrange] at hempty
      simp only at hempty
      omega
    have hsame_text : ta'.text.text = ta.text.text := by rw [htext', htext, hsame]
    refine ⟨⟨⟨happ.cursor, ?_, ?_, hhistory⟩,
      Keeps.of_subset hsame_text (fun e he => helements ▸ he) happ.ids.ge⟩, ?_⟩
    · rw [hsame_text, helements]
      exact hs.whole
    · rw [helements, happ.ids]
      exact hs.fresh
    · intro e he
      have h := hresp e (helements ▸ he)
      rw [hsame, hzero] at h
      simp only [Span.Respects] at h ⊢
      omega

/-- Total, and every element that is left has its bytes. -/
def Safe (u : Unicode) (f : TextArea → Option TextArea) : Prop :=
  ∀ ta, Sound u ta → ∃ ta', f ta = some ta' ∧ Sound u ta' ∧ Keeps ta ta'

theorem applyEditPlan_sound (hs : Sound u ta)
    (hvalid : ta.text.ValidPlan u (normalizeAtomicRanges u ta.text.text ta.elementRanges) plan)
    (kind : Option MutationKind) :
    ∃ ta' outcome, ta.applyEditPlan u plan kind = some (ta', outcome) ∧ Sound u ta' ∧
      Keeps ta ta' := by
  obtain ⟨ta', outcome, hok, happ⟩ :=
    applyEditPlan_applied (EditBuffer.validatePlan_eq_ok.mp hvalid.accepted) kind
  exact ⟨ta', outcome, hok, (sound_of_applied hs hvalid happ).1⟩

theorem applyEditCommand_sound (hu : BreaksLines u) (hs : Sound u ta) (command : EditCommand)
    (kind : Option MutationKind) :
    ∃ ta' outcome, ta.applyEditCommand u command kind = some (ta', outcome) ∧ Sound u ta' ∧
      Keeps ta ta' := by
  obtain ⟨plan, hplan, hvalid⟩ :=
    EditBuffer.planCommand_valid hu hs.cursor command ta.elementRanges
  obtain ⟨ta', outcome, hok, h⟩ := applyEditPlan_sound hs hvalid kind
  exact ⟨ta', outcome, by simp [applyEditCommand, hplan, hok], h⟩

theorem applyEditCommand_safe (hu : BreaksLines u) (command : EditCommand)
    (kind : Option MutationKind) :
    Safe u fun ta => (ta.applyEditCommand u command kind).map (·.1) := by
  intro ta hs
  obtain ⟨ta', outcome, hok, h⟩ := applyEditCommand_sound hu hs command kind
  exact ⟨ta', by simp [hok], h⟩

theorem applyEditReplacement_sound (hs : Sound u ta) (range : ByteRange) (replacement : Text)
    (kind : Option MutationKind) :
    ∃ ta', ta.applyEditReplacement u range replacement kind = some ta' ∧ Sound u ta' ∧
      Keeps ta ta' := by
  obtain ⟨plan, hplan, -, hvalid⟩ := EditBuffer.planReplaceByteRange_valid hs.cursor range
    (ta.expandTabs replacement) ta.elementRanges
  obtain ⟨ta', outcome, hok, h⟩ := applyEditPlan_sound hs hvalid kind
  exact ⟨ta', by simp [applyEditReplacement, planEditReplacement, hplan, hok], h⟩

/-! ## What leaves the text alone -/

/-- A step that keeps the text, drops no more than elements and remembers no
more than the state before it. -/
theorem sound_of_frame (hs : Sound u ta) (htext : ta'.text.text = ta.text.text)
    (hcursor : IsBoundary u ta.text.text ta'.text.cursorByte)
    (helements : ta'.elements.Sublist ta.elements) (hids : ta'.nextElementId = ta.nextElementId)
    (hhistory : Remembers ta ta') : Sound u ta' ∧ Keeps ta ta' := by
  refine ⟨⟨htext ▸ hcursor, htext ▸ hs.whole.sublist helements, ?_,
    hs.history_of_remembers hids.ge hhistory⟩,
    Keeps.of_subset htext (fun e he => helements.subset he) hids.ge⟩
  intro e he
  exact hids.symm ▸ hs.fresh e (helements.subset he)

theorem sound_of_same (hs : Sound u ta) (htext : ta'.text = ta.text)
    (helements : ta'.elements = ta.elements) (hids : ta'.nextElementId = ta.nextElementId)
    (hhistory : Remembers ta ta') : Sound u ta' ∧ Keeps ta ta' :=
  sound_of_frame hs (by rw [htext]) (by rw [htext]; exact hs.cursor) (by rw [helements]) hids hhistory

theorem remembers_of_undo_eq (h : ta'.undo = ta.undo) : Remembers ta ta' :=
  fun _ hx => Or.inl (h ▸ hx)

theorem withUndo_sound (hs : Sound u ta) (undo : UndoState)
    (h : ∀ x ∈ undo.entries, x ∈ ta.undo.entries ∨ x = ta.snapshot) :
    Sound u { ta with undo } ∧ Keeps ta { ta with undo } :=
  sound_of_same hs rfl rfl rfl h

theorem withSelection_sound (hs : Sound u ta) (selection : Option Selection) :
    Sound u { ta with selection } ∧ Keeps ta { ta with selection } :=
  sound_of_same hs rfl rfl rfl fun _ hx => Or.inl hx

theorem withElements_sound (hs : Sound u ta) {elements : List TextElement}
    (h : elements.Sublist ta.elements) :
    Sound u { ta with elements } ∧ Keeps ta { ta with elements } :=
  sound_of_frame hs rfl hs.cursor h rfl fun _ hx => Or.inl hx

theorem preMutate_sound (hs : Sound u ta) (kind : MutationKind) :
    Sound u (ta.preMutate kind) ∧ Keeps ta (ta.preMutate kind) :=
  sound_of_same hs (preMutate_text ta kind) (preMutate_elements ta kind)
    (preMutate_nextElementId ta kind) (preMutate_remembers ta kind)

theorem postMutate_sound (hs : Sound u ta) : Sound u ta.postMutate ∧ Keeps ta ta.postMutate :=
  sound_of_same hs rfl rfl rfl fun _ hx => Or.inl hx

theorem resetBatch_sound (hs : Sound u ta) : Sound u ta.resetBatch ∧ Keeps ta ta.resetBatch :=
  sound_of_same hs rfl rfl rfl fun _ hx => Or.inl hx

theorem noteInserted_sound (hs : Sound u ta) (text : Text) :
    Sound u (ta.noteInserted text) ∧ Keeps ta (ta.noteInserted text) := by
  unfold noteInserted
  split
  · exact sound_of_same hs rfl rfl rfl fun _ hx => Or.inl hx
  · exact ⟨hs, Keeps.refl ta⟩

theorem setCursorInner_sound (hs : Sound u ta) (pos : Nat) :
    Sound u (ta.setCursorInner u pos) ∧ Keeps ta (ta.setCursorInner u pos) := by
  have hframe : (ta.text.setCursorByte u pos).1.text = ta.text.text ∧
      (ta.text.setCursorByte u pos).1.cursorByte = normalizeExternalCursor u ta.text.text pos := by
    unfold EditBuffer.setCursorByte
    exact EditBuffer.ite_advanceGeneration _ _
  refine sound_of_frame hs hframe.1 ?_ (List.Sublist.refl _) rfl (remembers_of_undo_eq rfl)
  have hcursor : (ta.setCursorInner u pos).text.cursorByte =
      normalizeExternalCursor u ta.text.text pos := hframe.2
  rw [hcursor]
  exact isBoundary_normalizeExternalCursor u ta.text.text pos

theorem setCursor_sound (hs : Sound u ta) (pos : Nat) :
    Sound u (ta.setCursor u pos) ∧ Keeps ta (ta.setCursor u pos) :=
  setCursorInner_sound hs _

theorem beginUndoGroup_entries (ta : TextArea) : Remembers ta ta.beginUndoGroup := by
  intro x hx
  simp only [beginUndoGroup, UndoState.entries, mem_append] at hx ⊢
  rcases hx with hx | hx
  · exact Or.inl (Or.inl hx)
  · split at hx
    · obtain rfl : x = ta.snapshot := by simpa using hx
      exact Or.inr rfl
    · exact Or.inl (Or.inr hx)

theorem beginUndoGroup_sound (hs : Sound u ta) :
    Sound u ta.beginUndoGroup ∧ Keeps ta ta.beginUndoGroup :=
  sound_of_same hs rfl rfl rfl (beginUndoGroup_entries ta)

theorem endUndoGroup_frame (ta : TextArea) :
    ta.endUndoGroup.text = ta.text ∧ ta.endUndoGroup.elements = ta.elements ∧
      ta.endUndoGroup.selection = ta.selection ∧
      ta.endUndoGroup.nextElementId = ta.nextElementId := by
  have hclose : ∀ (t : TextArea) (checkpoint : UndoEntry),
      (t.closeGroup checkpoint).text = t.text ∧ (t.closeGroup checkpoint).elements = t.elements ∧
        (t.closeGroup checkpoint).selection = t.selection ∧
        (t.closeGroup checkpoint).nextElementId = t.nextElementId := by
    intro t checkpoint
    rw [closeGroup]
    split <;> exact ⟨rfl, rfl, rfl, rfl⟩
  rw [endUndoGroup]
  split
  · exact ⟨rfl, rfl, rfl, rfl⟩
  · simp only
    split
    · split
      · exact hclose _ _
      · exact ⟨rfl, rfl, rfl, rfl⟩
    · exact ⟨rfl, rfl, rfl, rfl⟩

theorem closeGroup_entries {ta : TextArea} {checkpoint x : UndoEntry}
    (h : x ∈ (ta.closeGroup checkpoint).resetBatch.undo.entries) :
    x ∈ ta.undo.entries ∨ x = checkpoint := by
  rw [closeGroup] at h
  split at h
  · apply UndoState.mem_push
    simp only [resetBatch, UndoState.entries, append_nil, mem_append] at h ⊢
    tauto
  · exact Or.inl h

theorem ungrouped_entries {x : UndoEntry} {n : Nat}
    (h : x ∈ ({ ta.undo with groupDepth := n, groupCheckpoint := none } : UndoState).entries) :
    x ∈ ta.undo.entries := by
  simp only [UndoState.entries, toList_none, append_nil] at h
  exact mem_append_left _ h

theorem endUndoGroup_entries (ta : TextArea) : Remembers ta ta.endUndoGroup := by
  intro x hx
  left
  rw [endUndoGroup] at hx
  split at hx
  · exact hx
  · simp only at hx
    split at hx
    · split at hx
      · rename_i checkpoint hcheck
        rcases closeGroup_entries hx with h | rfl
        · exact ungrouped_entries h
        · simp [UndoState.entries, hcheck]
      · exact ungrouped_entries (n := ta.undo.groupDepth - 1) hx
    · exact hx

theorem endUndoGroup_sound (hs : Sound u ta) :
    Sound u ta.endUndoGroup ∧ Keeps ta ta.endUndoGroup := by
  obtain ⟨htext, helements, -, hids⟩ := endUndoGroup_frame ta
  exact sound_of_same hs htext helements hids (endUndoGroup_entries ta)

theorem clearHistory_entries (ta : TextArea) : Remembers ta ta.clearHistory := by
  intro x hx
  have hx : x ∈ ta.undo.groupCheckpoint.toList := by
    simpa [clearHistory, resetBatch, UndoState.entries] using hx
  exact Or.inl (mem_append_right _ hx)

theorem clearHistory_sound (hs : Sound u ta) :
    Sound u ta.clearHistory ∧ Keeps ta ta.clearHistory :=
  sound_of_same hs rfl rfl rfl (clearHistory_entries ta)

/-! ## What brings a snapshot back -/

/-- A snapshot from the history is sound again once it is restored, whatever
part of the history is left. -/
theorem restore_sound (hs : Sound u ta) {entry : UndoEntry} (hentry : entry ∈ ta.undo.entries)
    (undo : UndoState) (hundo : ∀ x ∈ undo.entries, x ∈ ta.undo.entries ∨ x = ta.snapshot) :
    Sound u (restore u { ta with undo } entry).resetBatch := by
  have hwhole := hs.history entry hentry
  have hrest := (withUndo_sound hs undo hundo).1.history
  have hrestored : Sound u (restore u { ta with undo } entry) :=
    ⟨isBoundary_normalizeExternalCursor u entry.text entry.cursor, hwhole.1, hwhole.2, hrest⟩
  exact (resetBatch_sound hrestored).1

theorem popped_entries (ta : TextArea) : Remembers ta { ta with undo := { ta.undo with
    stack := ta.undo.stack.dropLast, redo := ta.undo.redo ++ [ta.snapshot] } } := by
  intro x hx
  simp only [UndoState.entries, mem_append, mem_singleton] at hx ⊢
  rcases hx with (hx | hx | hx) | hx
  · exact Or.inl (Or.inl (Or.inl (mem_of_mem_dropLast hx)))
  · exact Or.inl (Or.inl (Or.inr hx))
  · exact Or.inr hx
  · exact Or.inl (Or.inr hx)

theorem undoStep_sound (hs : Sound u ta) : Sound u (ta.undoStep u) := by
  unfold undoStep
  cases hl : ta.undo.stack.getLast? with
  | none => exact hs
  | some entry =>
    exact restore_sound hs (by simp [UndoState.entries, mem_of_getLast? hl]) _ (popped_entries ta)

theorem unpopped_entries (ta : TextArea) : Remembers ta { ta with undo := { ta.undo with
    redo := ta.undo.redo.dropLast, stack := ta.undo.stack ++ [ta.snapshot] } } := by
  intro x hx
  simp only [UndoState.entries, mem_append, mem_singleton] at hx ⊢
  rcases hx with ((hx | hx) | hx) | hx
  · exact Or.inl (Or.inl (Or.inl hx))
  · exact Or.inr hx
  · exact Or.inl (Or.inl (Or.inr (mem_of_mem_dropLast hx)))
  · exact Or.inl (Or.inr hx)

theorem redoStep_sound (hs : Sound u ta) : Sound u (ta.redoStep u) := by
  unfold redoStep
  cases hl : ta.undo.redo.getLast? with
  | none => exact hs
  | some entry =>
    exact restore_sound hs (by simp [UndoState.entries, mem_of_getLast? hl]) _ (unpopped_entries ta)

theorem cancelUndoGroup_sound (hs : Sound u ta) : Sound u (ta.cancelUndoGroup u) := by
  unfold cancelUndoGroup
  split
  · exact hs
  · cases hcheck : ta.undo.groupCheckpoint with
    | some checkpoint =>
      exact restore_sound hs (by simp [UndoState.entries, hcheck]) _
        fun _ hx => Or.inl (ungrouped_entries hx)
    | none =>
      exact (resetBatch_sound (withUndo_sound hs _ fun _ hx => Or.inl (ungrouped_entries hx)).1).1

/-! ## Editing -/

theorem insertStr_safe (text : Text) : Safe u fun ta => ta.insertStr u text := by
  intro ta hs
  cases text with
  | nil => exact ⟨ta, rfl, hs, Keeps.refl ta⟩
  | cons first rest =>
    -- breaking the batch only changes what the next checkpoint compares with
    have hbroken : ∀ broken : TextArea, broken = (if ta.undo.lastKind = some .insert ∧
        ta.undo.lastInsertWs ≠ isWhitespace first then
          { ta with undo := { ta.undo with lastKind := none } } else ta) →
        Sound u broken ∧ Keeps ta broken := by
      rintro broken rfl
      split
      · exact sound_of_same hs rfl rfl rfl fun _ hx => Or.inl hx
      · exact ⟨hs, Keeps.refl ta⟩
    obtain ⟨hsb, hkb⟩ := hbroken _ rfl
    obtain ⟨edited, hedit, hse, hke⟩ := applyEditReplacement_sound hsb ⟨ta.cursor, ta.cursor⟩
      (first :: rest) (some .insert)
    obtain ⟨hsn, hkn⟩ := noteInserted_sound hse (first :: rest)
    exact ⟨_, by simp only [insertStr, hedit, bind_eq_bind, bind_some], hsn,
      (hkb.trans hke).trans hkn⟩

theorem insertStrAt_safe (pos : Nat) (text : Text) : Safe u fun ta => ta.insertStrAt u pos text := by
  intro ta hs
  by_cases h : text = []
  · exact ⟨ta, if_pos h, hs, Keeps.refl ta⟩
  · obtain ⟨edited, hedit, hse, hke⟩ :=
      applyEditReplacement_sound hs ⟨pos, pos⟩ text (some .insert)
    obtain ⟨hsn, hkn⟩ := noteInserted_sound hse text
    exact ⟨_, by simp only [insertStrAt, if_neg h, hedit, bind_eq_bind, bind_some],
      hsn, hke.trans hkn⟩

theorem yank_safe : Safe u fun ta => ta.yank u := by
  intro ta hs
  by_cases h : ta.killBuffer = []
  · exact ⟨ta, if_pos h, hs, Keeps.refl ta⟩
  · obtain ⟨edited, hedit, hse, hke⟩ :=
      applyEditReplacement_sound hs ⟨ta.cursor, ta.cursor⟩ ta.killBuffer (some .insert)
    obtain ⟨hsn, hkn⟩ := noteInserted_sound hse ta.killBuffer
    exact ⟨_, by simp only [yank, if_neg h, hedit, bind_eq_bind, bind_some], hsn,
      hke.trans hkn⟩

theorem killCurrentLine_safe : Safe u fun ta => ta.killCurrentLine u := by
  intro ta hs
  simp only [killCurrentLine]
  split_ifs
  · exact applyEditReplacement_sound hs _ [] (some .kill)
  · exact ⟨ta, rfl, hs, Keeps.refl ta⟩
  · exact applyEditReplacement_sound hs _ [] (some .kill)

theorem setText_safe (text : Text) : Safe u fun ta => ta.setText u text := by
  intro ta hs
  obtain ⟨plan, hplan, -, hvalid⟩ := EditBuffer.planReplaceByteRange_valid hs.cursor
    ⟨0, byteLen ta.text.text⟩ (ta.expandTabs text) ta.elementRanges
  have hchecked : EditBuffer.Checked u (ta.preMutate .replace).text plan := by
    rw [preMutate_text]
    exact EditBuffer.validatePlan_eq_ok.mp hvalid.accepted
  obtain ⟨b, outcome, pre, post, happly, -, -, -, -, hboundary⟩ := hchecked.applied
  have hsm := (preMutate_sound hs .replace).1
  -- with no element left there is nothing to be whole
  have hreplaced : Sound u { ta.preMutate .replace with text := b, elements := [] } :=
    ⟨hboundary, whole_nil _, by simp, hsm.history⟩
  obtain ⟨hmoved, -⟩ := setCursorInner_sound hreplaced (min ta.cursor (byteLen b.text))
  have hfinal := (postMutate_sound (withSelection_sound hmoved none).1).1
  refine ⟨_, ?_, hfinal, ⟨(preMutate_nextElementId ta .replace).ge, by simp [setCursorInner, postMutate]⟩⟩
  simp only [setText, planEditReplacement, hplan, assertValidEditPlan, hvalid.accepted, happly,
    bind_eq_bind, bind_some]

theorem repeatCommand_safe (hu : BreaksLines u) (command : EditCommand) (n : Nat) :
    Safe u (repeatCommand u command n) := by
  induction n with
  | zero => exact fun ta hs => ⟨ta, rfl, hs, Keeps.refl ta⟩
  | succ n ih =>
    intro ta hs
    obtain ⟨edited, outcome, hok, hse, hke⟩ := applyEditCommand_sound hu hs command (some .delete)
    by_cases hun : outcome = .unchanged
    · exact ⟨edited, by simp [repeatCommand, hok, hun], hse, hke⟩
    · obtain ⟨ta', hrest, hs', hk'⟩ := ih edited hse
      exact ⟨ta', by simp [repeatCommand, hok, hun, hrest], hs', hke.trans hk'⟩

theorem deleteGraphemes_safe (hu : BreaksLines u) (command : EditCommand) (n : Nat) :
    Safe u fun ta => ta.deleteGraphemes u command n := by
  intro ta hs
  simp only [deleteGraphemes]
  split_ifs
  · exact ⟨ta, rfl, hs, Keeps.refl ta⟩
  · exact applyEditCommand_safe hu command _ ta hs
  · obtain ⟨hsb, hkb⟩ := beginUndoGroup_sound hs
    obtain ⟨ta', hok, hs', hk'⟩ := repeatCommand_safe hu command n _ hsb
    obtain ⟨hse, hke⟩ := endUndoGroup_sound hs'
    exact ⟨_, by rw [hok]; rfl, hse, (hkb.trans hk').trans hke⟩

theorem applyClassifiedCommand_safe (hu : BreaksLines u) (command : EditCommand) :
    Safe u fun ta => ta.applyClassifiedCommand u command := by
  cases command with
  | insert character => exact insertStr_safe [character]
  | _ => exact applyEditCommand_safe hu _ _

theorem moveCursorToBeginningOfLine_safe (hu : BreaksLines u) (up : Bool) (visual : Option Nat) :
    Safe u fun ta => ta.moveCursorToBeginningOfLine u up visual := by
  intro ta hs
  cases up with
  | true => exact applyEditCommand_safe hu .moveLogicalLineStart none ta hs
  | false => exact ⟨_, rfl, setCursor_sound hs _⟩

theorem moveCursorToEndOfLine_safe (hu : BreaksLines u) (down : Bool) (visual : Option Nat) :
    Safe u fun ta => ta.moveCursorToEndOfLine u down visual := by
  intro ta hs
  cases down with
  | true => exact applyEditCommand_safe hu .moveLogicalLineEnd none ta hs
  | false => exact ⟨_, rfl, setCursor_sound hs _⟩

/-! ## Selection and elements -/

theorem exists_selectionRange (ta : TextArea) : ∃ r, ta.selectionRange = some r := by
  unfold selectionRange
  cases ta.selection with
  | none => exact ⟨none, rfl⟩
  | some sel =>
    simp only
    split
    · exact ⟨none, rfl⟩
    · obtain ⟨e, he⟩ := Span.exists_expand
        ((ta.elementRanges.map (·.stop)).foldr max (max sel.anchor sel.head))
        ((ta.elementRanges.map (·.stop)).foldr max (max sel.anchor sel.head) + 1)
        (fun r hr => (Span.le_foldr_max _ _).1 r.stop (List.mem_map_of_mem hr))
        ⟨min sel.anchor sel.head, max sel.anchor sel.head⟩ min_le_max
        (Span.le_foldr_max _ _).2 (by omega)
      exact ⟨_, by simp only [expandRangeToElementBoundaries, he, bind_eq_bind,
        bind_some]; rfl⟩

theorem deleteSelection_safe : Safe u fun ta => (ta.deleteSelection u).map (·.1) := by
  intro ta hs
  obtain ⟨r, hr⟩ := exists_selectionRange ta
  cases r with
  | none => exact ⟨ta, by simp [deleteSelection, hr], hs, Keeps.refl ta⟩
  | some range =>
    obtain ⟨edited, hedit, hse, hke⟩ := applyEditReplacement_sound hs range [] (some .replace)
    obtain ⟨hsm, hkm⟩ :=
      setCursorInner_sound hse (min range.start (byteLen edited.text.text))
    obtain ⟨hsp, hkp⟩ := postMutate_sound hsm
    obtain ⟨hsf, hkf⟩ := withSelection_sound hsp none
    exact ⟨_, by simp [deleteSelection, hr, hedit], hsf,
      ((hke.trans hkm).trans hkp).trans hkf⟩

theorem addElement_sound (hs : Sound u ta) (range : ByteRange) (kind : ElementKind)
    (hle : range.start ≤ range.stop)
    (hchars : isCharBoundary ta.text.text range.start = true ∧
      isCharBoundary ta.text.text range.stop = true)
    (hclear : ∀ e ∈ ta.elements, e.range.stop ≤ range.start ∨ range.stop ≤ e.range.start) :
    Sound u (ta.addElement range kind).1 ∧ Keeps ta (ta.addElement range kind).1 := by
  have hperm := mergeSort_perm (ta.elements ++ [⟨ta.nextElementId, range, kind⟩])
    fun a b => a.range.start ≤ b.range.start
  have hmem : ∀ e ∈ (ta.addElement range kind).1.elements,
      e ∈ ta.elements ∨ e = ⟨ta.nextElementId, range, kind⟩ := by
    intro e he
    simpa using hperm.mem_iff.mp he
  have hfresh : ∀ e ∈ ta.elements, e.id ≠ ta.nextElementId := fun e he => (hs.fresh e he).ne
  refine ⟨⟨hs.cursor, ⟨?_, ?_, ?_, ?_, ?_⟩, ?_, ?_⟩, ⟨Nat.le_succ _, ?_⟩⟩
  · have hsorted := @pairwise_mergeSort TextElement
      (fun a b => decide (a.range.start ≤ b.range.start))
      (by simp only [decide_eq_true_eq]; omega)
      (by simp only [Bool.or_eq_true, decide_eq_true_eq]; omega)
      (ta.elements ++ [⟨ta.nextElementId, range, kind⟩])
    exact hsorted.imp fun h => by simpa using h
  · refine (List.Perm.pairwise_iff (fun h => h.symm) hperm).mpr ?_
    refine pairwise_append.mpr ⟨hs.whole.disjoint, by simp, ?_⟩
    intro a ha b hb
    obtain rfl := mem_singleton.mp hb
    exact hclear a ha
  · intro e he
    rcases hmem e he with he | rfl
    · exact hs.whole.inside e he
    · exact ⟨hle, le_byteLen_of_isCharBoundary hchars.2⟩
  · intro e he
    rcases hmem e he with he | rfl
    · exact hs.whole.onChars e he
    · exact hchars
  · refine ((hperm.map _).nodup_iff).mpr ?_
    rw [map_append, nodup_append]
    refine ⟨hs.whole.unique, by simp, ?_⟩
    intro a ha b hb
    obtain ⟨e, he, rfl⟩ := List.mem_map.mp ha
    obtain rfl : b = ta.nextElementId := by simpa using hb
    exact hfresh e he
  · intro e he
    rcases hmem e he with he | rfl
    · exact (hs.fresh e he).trans (Nat.lt_succ_self _)
    · exact Nat.lt_succ_self _
  · intro x hx
    have hold := hs.history x hx
    exact ⟨hold.1, fun e he => (hold.2 e he).trans (Nat.lt_succ_self _)⟩
  · intro e he
    rcases hmem e he with he | rfl
    · exact Or.inr ⟨e, he, rfl, rfl⟩
    · exact Or.inl le_rfl

theorem replaceRangeWithElement_safe (range : ByteRange) (text : Text) (kind : ElementKind) :
    Safe u fun ta => (ta.replaceRangeWithElement u range text kind).map (·.1) := by
  intro ta hs
  obtain ⟨plan, hplan, -, hvalid⟩ := EditBuffer.planReplaceByteRange_valid hs.cursor range
    (ta.expandTabs text) ta.elementRanges
  obtain ⟨hsm, hkm⟩ := preMutate_sound hs .element
  have hvalidm : (ta.preMutate .element).text.ValidPlan u (normalizeAtomicRanges u
      (ta.preMutate .element).text.text (ta.preMutate .element).elementRanges) plan := by
    rw [elementRanges, preMutate_text, preMutate_elements]
    exact hvalid
  obtain ⟨edited, outcome, hedit, happ⟩ := applyValidatedEditPlan_applied
    (EditBuffer.validatePlan_eq_ok.mp hvalidm.accepted) (some .element)
  obtain ⟨⟨hse, hke⟩, hclear⟩ := sound_of_applied hsm hvalidm happ
  obtain ⟨pre, post, -, hstart, -, htext⟩ := happ.text
  have hchars := isCharBoundary_of_slice (slice_append pre plan.replacement post)
  rw [← htext, hstart] at hchars
  obtain ⟨hsa, hka⟩ := addElement_sound hse ⟨plan.replacedByteRange.start,
      plan.replacedByteRange.start + byteLen plan.replacement⟩ kind (by simp) hchars hclear
  obtain ⟨hsc, hkc⟩ :=
    setCursor_sound hsa (plan.replacedByteRange.start + byteLen plan.replacement)
  obtain ⟨hsp, hkp⟩ := postMutate_sound hsc
  refine ⟨_, ?_, hsp, (((hkm.trans hke).trans hka).trans hkc).trans hkp⟩
  simp only [replaceRangeWithElement, planEditReplacement, hplan, applyElementTransaction,
    assertValidEditPlan, hvalid.accepted, hedit, bind_eq_bind, bind_some,
    map_some]

theorem inlineElement_sound (hs : Sound u ta) (id : ElementId) :
    Sound u (ta.inlineElement u id).1 ∧ Keeps ta (ta.inlineElement u id).1 := by
  unfold inlineElement
  cases ta.elements.findIdx? fun e => e.id == id with
  | none => exact ⟨hs, Keeps.refl ta⟩
  | some idx =>
    obtain ⟨hsm, hkm⟩ := preMutate_sound hs .element
    obtain ⟨hsr, hkr⟩ := withElements_sound hsm
      (eraseIdx_sublist (ta.preMutate .element).elements idx)
    obtain ⟨hsc, hkc⟩ :=
      setCursorInner_sound hsr ((ta.elements[idx]?.map (·.range.stop)).getD 0)
    obtain ⟨hsf, hkf⟩ := withUndo_sound hsc
      { (ta.preMutate .element).undo with lastKind := none } fun _ hx => Or.inl hx
    exact ⟨hsf, ((hkm.trans hkr).trans hkc).trans hkf⟩

end TextArea

end GrokBuild.PromptEditor
