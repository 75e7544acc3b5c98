import GrokBuild.PromptEditor.Operations

/-!
# Elements over whole runs

From an empty text area, whatever operations follow each other: none of them
panics, the elements are whole after each, and an element that an operation
neither removes nor brings back has the same bytes after it as before.
-/

namespace GrokBuild.PromptEditor

open TextLines Str ByteText

namespace TextArea

variable {u : Unicode}

/-- The operations that bring a snapshot back. -/
def Op.restores : Op → Bool
  | .undo | .redo | .cancelUndoGroup => true
  | _ => false

theorem step_safe (hu : BreaksLines u) {op : Op} (h : op.restores = false) :
    Safe u fun ta => ta.step u op := by
  cases op with
  | setTabWidth tabWidth =>
    exact fun ta hs => ⟨_, rfl, sound_of_same hs rfl rfl rfl fun _ hx => Or.inl hx⟩
  | setText text => exact setText_safe text
  | insertStr text => exact insertStr_safe text
  | insertStrAt pos text => exact insertStrAt_safe pos text
  | replaceRange range text =>
    exact fun ta hs => applyEditReplacement_sound hs range text (some .replace)
  | setCursor pos => exact fun ta hs => ⟨_, rfl, setCursor_sound hs pos⟩
  | moveCursorLeft => exact applyEditCommand_safe hu .moveGraphemeLeft none
  | moveCursorRight => exact applyEditCommand_safe hu .moveGraphemeRight none
  | moveCursorVertically target => exact fun ta hs => ⟨_, rfl, setCursorInner_sound hs target⟩
  | moveCursorToBeginningOfLine up visual => exact moveCursorToBeginningOfLine_safe hu up visual
  | moveCursorToEndOfLine down visual => exact moveCursorToEndOfLine_safe hu down visual
  | classified command => exact applyClassifiedCommand_safe hu command
  | deleteBackward n => exact deleteGraphemes_safe hu .deleteGraphemeBackward n
  | deleteForward n => exact deleteGraphemes_safe hu .deleteGraphemeForward n
  | deleteBackwardWord => exact applyEditCommand_safe hu (.deleteWordBackward .small) (some .kill)
  | deleteBackwardUnixWord =>
    exact applyEditCommand_safe hu (.deleteWordBackward .whitespaceDelimited) (some .kill)
  | deleteForwardWord => exact applyEditCommand_safe hu (.deleteWordForward .small) (some .kill)
  | killToEndOfLine => exact applyEditCommand_safe hu .deleteToLineEnd (some .kill)
  | killToBeginningOfLine => exact applyEditCommand_safe hu .deleteToLineStart (some .kill)
  | killCurrentLine => exact killCurrentLine_safe
  | yank => exact yank_safe
  | setSelection anchor head => exact fun ta hs => ⟨_, rfl, withSelection_sound hs _⟩
  | clearSelection => exact fun ta hs => ⟨_, rfl, withSelection_sound hs none⟩
  | deleteSelection => exact deleteSelection_safe
  | insertElement text kind =>
    exact fun ta hs => replaceRangeWithElement_safe ⟨ta.cursor, ta.cursor⟩ text kind ta hs
  | replaceRangeWithElement range text kind => exact replaceRangeWithElement_safe range text kind
  | inlineElement id => exact fun ta hs => ⟨_, rfl, inlineElement_sound hs id⟩
  | clearHistory => exact fun ta hs => ⟨_, rfl, clearHistory_sound hs⟩
  | beginUndoGroup => exact fun ta hs => ⟨_, rfl, beginUndoGroup_sound hs⟩
  | endUndoGroup => exact fun ta hs => ⟨_, rfl, endUndoGroup_sound hs⟩
  | undo => cases h
  | redo => cases h
  | cancelUndoGroup => cases h

theorem step_sound (hu : BreaksLines u) {ta : TextArea} (hs : Sound u ta) (op : Op) :
    ∃ ta', ta.step u op = some ta' ∧ Sound u ta' := by
  by_cases h : op.restores = false
  · obtain ⟨ta', hok, hs', -⟩ := step_safe hu h ta hs
    exact ⟨ta', hok, hs'⟩
  · cases op with
    | undo => exact ⟨_, rfl, undoStep_sound hs⟩
    | redo => exact ⟨_, rfl, redoStep_sound hs⟩
    | cancelUndoGroup => exact ⟨_, rfl, cancelUndoGroup_sound hs⟩
    | _ => exact absurd rfl h

theorem sound_new (u : Unicode) (identity : BufferIdentity) : Sound u (new identity) :=
  ⟨isBoundary_byteLen [], whole_nil [], by simp [new], by
    simp [new, UndoState.default, UndoState.entries]⟩

theorem run_sound (hu : BreaksLines u) {ta : TextArea} (hs : Sound u ta) (ops : List Op) :
    ∃ ta', ta.run u ops = some ta' ∧ Sound u ta' := by
  induction ops generalizing ta with
  | nil => exact ⟨ta, rfl, hs⟩
  | cons op ops ih =>
    obtain ⟨next, hnext, hsn⟩ := step_sound hu hs op
    obtain ⟨ta', hrest, hs'⟩ := ih hsn
    exact ⟨ta', by simp [run, hnext, hrest], hs'⟩

theorem elements_stay_whole (hu : BreaksLines u) (identity : BufferIdentity) (ops : List Op) :
    ∃ ta, (new identity).run u ops = some ta ∧ Whole ta.text.text ta.elements ∧
      ∀ op, ∃ ta', ta.step u op = some ta' ∧ (op.restores = false →
        ∀ e ∈ ta.elements, ∀ e' ∈ ta'.elements, e'.id = e.id →
          ∃ text, ta.elementText e.id = some text ∧ ta'.elementText e.id = some text) := by
  obtain ⟨ta, hrun, hs⟩ := run_sound hu (sound_new u identity) ops
  refine ⟨ta, hrun, hs.whole, fun op => ?_⟩
  by_cases h : op.restores = false
  · obtain ⟨ta', hok, hs', hk⟩ := step_safe hu h ta hs
    exact ⟨ta', hok, fun _ e he e' he' hid => hk.elementText hs hs' he he' hid⟩
  · obtain ⟨ta', hok, -⟩ := step_sound hu hs op
    exact ⟨ta', hok, fun h' => absurd h' h⟩

/-- A pasted block between two words, and the second word deleted. -/
theorem elements_stay_whole_paste :
    ∃ ta, (new ⟨0, 0⟩).run (Unicode.ofRule plainRule)
        [.insertStr ['a'], .insertElement ['b', '\n', 'c'] 1, .insertStr [' ', 'd']] = some ta ∧
      Whole ta.text.text ta.elements ∧ ∀ op, ∃ ta', ta.step (Unicode.ofRule plainRule) op = some ta' ∧
        (op.restores = false → ∀ e ∈ ta.elements, ∀ e' ∈ ta'.elements, e'.id = e.id →
          ∃ text, ta.elementText e.id = some text ∧ ta'.elementText e.id = some text) :=
  elements_stay_whole breaksLines_plainRule ⟨0, 0⟩
    [.insertStr ['a'], .insertElement ['b', '\n', 'c'] 1, .insertStr [' ', 'd']]

end TextArea

end GrokBuild.PromptEditor
