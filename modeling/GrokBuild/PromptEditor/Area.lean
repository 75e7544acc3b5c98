import GrokBuild.PromptEditor.Editor

/-!
# The text area

The prompt box: an edit buffer with atomic elements (pasted blocks, file
mentions), a kill buffer, a selection and an undo history. Elements are ranges
of the text that carry a stable id; every edit goes through a plan made for
their ranges, and afterwards the ranges are shifted by `shiftElements`. Wrapping,
scrolling, the mouse and the clipboard are left out: what they decide is only
where the cursor or the selection is put, and such positions are arguments here.
A function returns none where the source panics.
-/

namespace GrokBuild.PromptEditor

open TextLines Str ByteText

/-! ## Elements, selection and history -/

/-- Stable identifier, counted up and never used twice. -/
abbrev ElementId := Nat

abbrev ElementKind := Nat

structure TextElement where
  id : ElementId
  range : ByteRange
  kind : ElementKind
deriving DecidableEq, Repr

structure Selection where
  anchor : Nat
  head : Nat
deriving DecidableEq, Repr

/-- A snapshot of the text area. -/
structure UndoEntry where
  text : Text
  cursor : Nat
  elements : List TextElement
deriving DecidableEq, Repr

inductive MutationKind where
  | insert
  | delete
  | kill
  | element
  | replace
deriving DecidableEq, Repr

/-- The undo and redo stacks, the newest entry last. -/
structure UndoState where
  stack : List UndoEntry
  redo : List UndoEntry
  maxDepth : Nat
  lastKind : Option MutationKind
  lastCursor : Nat
  lastInsertWs : Bool
  groupDepth : Nat
  groupCheckpoint : Option UndoEntry
deriving DecidableEq, Repr

def UndoState.default : UndoState := ⟨[], [], 100, none, 0, false, 0, none⟩

/-- `stack.push(entry)`, dropping the oldest entry over the limit. -/
def UndoState.push (undo : UndoState) (entry : UndoEntry) : UndoState :=
  let stack := undo.stack ++ [entry]
  { undo with stack := if stack.length > undo.maxDepth then stack.tail else stack }

structure TextArea where
  text : EditBuffer
  elements : List TextElement
  nextElementId : ElementId
  killBuffer : Text
  undo : UndoState
  selection : Option Selection
  tabWidth : Nat
deriving DecidableEq, Repr

namespace TextArea

def new (identity : BufferIdentity) : TextArea :=
  ⟨.new identity, [], 0, [], .default, none, 4⟩

/-- Expand `\t` to `tab_width` spaces; width 0 leaves tabs as they are. -/
def expandTabs (ta : TextArea) (text : Text) : Text :=
  if ta.tabWidth = 0 then text
  else text.flatMap fun c => if c = '\t' then List.replicate ta.tabWidth ' ' else [c]

def cursor (ta : TextArea) : Nat := ta.text.cursorByte

def elementRanges (ta : TextArea) : List ByteRange := ta.elements.map (·.range)

/-! ## Shifting elements -/

/-- What `shiftElements` does to an element the edit did not swallow. The last
case, an overlap, does not arise for edits planned around the elements. -/
def shiftRange (start stop inserted : Nat) (range : ByteRange) : ByteRange :=
  let diff : Int := inserted - (stop - start : Nat)
  if range.stop ≤ start then range
  else if range.start ≥ stop then ⟨(range.start + diff).toNat, (range.stop + diff).toNat⟩
  else ⟨min start range.start, start + max inserted (range.stop - stop)⟩

/-- Elements wholly inside the replaced bytes go, the others are shifted. -/
def shiftElements (start stop inserted : Nat) (elements : List TextElement) : List TextElement :=
  (elements.filter fun e => !(e.range.start ≥ start && e.range.stop ≤ stop)).map fun e =>
    { e with range := shiftRange start stop inserted e.range }

/-- `update_elements_after_replace`: the replaced length saturates at 0. -/
def updateElementsAfterReplace (ta : TextArea) (start stop insertedLen : Nat) : TextArea :=
  { ta with
    elements := shiftElements start (start + (stop - start)) insertedLen ta.elements }

def adjustPositionAfterEdit (position : Nat) (replaced : ByteRange) (insertedLen : Nat) : Nat :=
  if position < replaced.start then position
  else if position ≤ replaced.stop then replaced.start + insertedLen
  else position - (replaced.stop - replaced.start) + insertedLen

def adjustSelection (replaced : ByteRange) (insertedLen : Nat) (selection : Selection) :
    Option Selection :=
  let adjusted : Selection :=
    { anchor := adjustPositionAfterEdit selection.anchor replaced insertedLen
      head := adjustPositionAfterEdit selection.head replaced insertedLen }
  if adjusted.anchor = adjusted.head then none else some adjusted

/-! ## History -/

def snapshot (ta : TextArea) : UndoEntry := ⟨ta.text.text, ta.cursor, ta.elements⟩

variable (u : Unicode)

/-- The element ids and the kill buffer are not part of a snapshot. -/
def restore (ta : TextArea) (entry : UndoEntry) : TextArea :=
  { ta with
    text := .fromParts u entry.text entry.cursor ta.text.identity.next
    elements := entry.elements }

/-- Whether a mutation does not extend the last batch. -/
def shouldPush (ta : TextArea) (kind : MutationKind) : Bool :=
  match ta.undo.lastKind with
  | none => true
  | some prev => prev != kind || ta.cursor != ta.undo.lastCursor
      || kind == .kill || kind == .element || kind == .replace

/-- Inside an undo group the group handles its own checkpoint. -/
def preMutate (ta : TextArea) (kind : MutationKind) : TextArea :=
  if ta.undo.groupDepth > 0 then ta
  else
    let undo := if ta.shouldPush kind then ta.undo.push ta.snapshot else ta.undo
    { ta with undo := { undo with redo := [], lastKind := some kind } }

def postMutate (ta : TextArea) : TextArea :=
  { ta with undo := { ta.undo with lastCursor := ta.cursor } }

/-- The next mutation starts a fresh batch. -/
def resetBatch (ta : TextArea) : TextArea :=
  { ta with undo := { ta.undo with lastKind := none, lastCursor := ta.cursor } }

def clearHistory (ta : TextArea) : TextArea :=
  { ta with undo := { ta.undo with stack := [], redo := [] } }.resetBatch

def undoStep (ta : TextArea) : TextArea :=
  match ta.undo.stack.getLast? with
  | none => ta
  | some entry =>
    let popped := { ta.undo with
      stack := ta.undo.stack.dropLast, redo := ta.undo.redo ++ [ta.snapshot] }
    (restore u { ta with undo := popped } entry).resetBatch

def redoStep (ta : TextArea) : TextArea :=
  match ta.undo.redo.getLast? with
  | none => ta
  | some entry =>
    let popped := { ta.undo with
      redo := ta.undo.redo.dropLast, stack := ta.undo.stack ++ [ta.snapshot] }
    (restore u { ta with undo := popped } entry).resetBatch

def beginUndoGroup (ta : TextArea) : TextArea :=
  let checkpoint := if ta.undo.groupDepth = 0 then some ta.snapshot else ta.undo.groupCheckpoint
  { ta with undo :=
    { ta.undo with groupCheckpoint := checkpoint, groupDepth := ta.undo.groupDepth + 1 } }

/-- Pushes the checkpoint of the outermost group when the state has changed. -/
def closeGroup (ta : TextArea) (checkpoint : UndoEntry) : TextArea :=
  if checkpoint.text ≠ ta.text.text ∨ checkpoint.cursor ≠ ta.cursor ∨
      checkpoint.elements.length ≠ ta.elements.length then
    { ta with undo := { ta.undo.push checkpoint with redo := [] } }
  else ta

def endUndoGroup (ta : TextArea) : TextArea :=
  if ta.undo.groupDepth = 0 then ta
  else
    let left := { ta with undo := { ta.undo with groupDepth := ta.undo.groupDepth - 1 } }
    if left.undo.groupDepth = 0 then
      let taken := { left with undo := { left.undo with groupCheckpoint := none } }
      match left.undo.groupCheckpoint with
      | some checkpoint => (taken.closeGroup checkpoint).resetBatch
      | none => taken.resetBatch
    else left

def cancelUndoGroup (ta : TextArea) : TextArea :=
  if ta.undo.groupDepth = 0 then ta
  else
    let left := { ta with undo := { ta.undo with groupDepth := 0, groupCheckpoint := none } }
    match ta.undo.groupCheckpoint with
    | some checkpoint => (restore u left checkpoint).resetBatch
    | none => left.resetBatch

/-! ## Applying plans -/

def isSemanticEdit (plan : EditPlan) : Bool :=
  plan.removedText != plan.replacement
    || !decide (plan.replacedByteRange.stop ≤ plan.replacedByteRange.start)

def applyValidatedEditPlan (ta : TextArea) (plan : EditPlan)
    (mutationKind : Option MutationKind) : Option (TextArea × EditOutcome) := do
  let replaced := plan.replacedByteRange
  let insertedLen := byteLen plan.replacement
  let (text, outcome) ← ta.text.applyValidatedPlan u plan
  let edited := { ta with text }
  if isSemanticEdit plan then
    let shifted := edited.updateElementsAfterReplace replaced.start replaced.stop insertedLen
    some ({ shifted with
      selection := ta.selection.bind (adjustSelection replaced insertedLen)
      killBuffer := if mutationKind = some .kill then plan.removedText else ta.killBuffer }, outcome)
  else some (edited, outcome)

/-- `assert_valid_edit_plan`: none is its panic. -/
def assertValidEditPlan (ta : TextArea) (plan : EditPlan) : Option Unit :=
  match ta.text.validatePlan u plan with
  | .ok () => some ()
  | .error _ => none

/-- The checkpoint of `try_apply_edit_plan`. -/
def preMutateIf (ta : TextArea) (semanticEdit : Bool) (mutationKind : Option MutationKind) :
    TextArea :=
  match mutationKind with
  | some kind => if semanticEdit then ta.preMutate kind else ta
  | none => ta

/-- `apply_edit_plan` over `try_apply_edit_plan`: a rejected plan panics. -/
def applyEditPlan (ta : TextArea) (plan : EditPlan) (mutationKind : Option MutationKind) :
    Option (TextArea × EditOutcome) := do
  ta.assertValidEditPlan u plan
  let semanticEdit := isSemanticEdit plan
  let (edited, outcome) ←
    (ta.preMutateIf semanticEdit mutationKind).applyValidatedEditPlan u plan mutationKind
  some (if semanticEdit && mutationKind.isSome then edited.postMutate else edited, outcome)

def applyEditCommand (ta : TextArea) (command : EditCommand)
    (mutationKind : Option MutationKind) : Option (TextArea × EditOutcome) := do
  let plan ← ta.text.planCommand u command ta.elementRanges
  ta.applyEditPlan u plan mutationKind

def planEditReplacement (ta : TextArea) (range : ByteRange) (replacement : Text) :
    Option EditPlan :=
  ta.text.planReplaceByteRange u range (ta.expandTabs replacement) ta.elementRanges

def applyEditReplacement (ta : TextArea) (range : ByteRange) (replacement : Text)
    (mutationKind : Option MutationKind) : Option TextArea := do
  let plan ← ta.planEditReplacement u range replacement
  let (edited, _) ← ta.applyEditPlan u plan mutationKind
  some edited

/-! ## The cursor -/

def setCursorInner (ta : TextArea) (pos : Nat) : TextArea :=
  { ta with text := (ta.text.setCursorByte u pos).1 }

def clampPosToNearestBoundary (ta : TextArea) (pos : Nat) : Nat :=
  let pos := min pos (byteLen ta.text.text)
  match ta.elements.find? fun e => decide (Span.Inside pos e.range) with
  | none => pos
  | some e => if pos - e.range.start ≤ e.range.stop - pos then e.range.start else e.range.stop

def setCursor (ta : TextArea) (pos : Nat) : TextArea :=
  ta.setCursorInner u (ta.clampPosToNearestBoundary (min pos (byteLen ta.text.text)))

/-- `move_cursor_up` and `move_cursor_down`, with the byte the wrapped lines and
the display columns lead to. -/
def moveCursorVertically (ta : TextArea) (target : Nat) : TextArea := ta.setCursorInner u target

def moveCursorLeft (ta : TextArea) : Option (TextArea × EditOutcome) :=
  ta.applyEditCommand u .moveGraphemeLeft none

def moveCursorRight (ta : TextArea) : Option (TextArea × EditOutcome) :=
  ta.applyEditCommand u .moveGraphemeRight none

def beginningOfCurrentLine (ta : TextArea) : Nat :=
  match (List.range ta.cursor).reverse.find? (isLineFeed ta.text.text ta.elementRanges) with
  | some i => i + 1
  | none => 0

def endOfCurrentLine (ta : TextArea) : Nat :=
  match (List.range' ta.cursor (byteLen ta.text.text - ta.cursor)).find?
      (isLineFeed ta.text.text ta.elementRanges) with
  | some i => i
  | none => byteLen ta.text.text

/-- `visual` is the start of the cursor's wrapped line, when there is a wrap
cache to find it in. -/
def moveCursorToBeginningOfLine (ta : TextArea) (moveUpAtBol : Bool) (visual : Option Nat) :
    Option TextArea :=
  if moveUpAtBol then (ta.applyEditCommand u .moveLogicalLineStart none).map (·.1)
  else some (ta.setCursor u (visual.getD ta.beginningOfCurrentLine))

def moveCursorToEndOfLine (ta : TextArea) (moveDownAtEol : Bool) (visual : Option Nat) :
    Option TextArea :=
  if moveDownAtEol then (ta.applyEditCommand u .moveLogicalLineEnd none).map (·.1)
  else some (ta.setCursor u (visual.getD ta.endOfCurrentLine))

/-! ## Editing -/

def setText (ta : TextArea) (text : Text) : Option TextArea := do
  let cursor := ta.cursor
  let plan ← ta.planEditReplacement u ⟨0, byteLen ta.text.text⟩ text
  ta.assertValidEditPlan u plan
  let checked := ta.preMutate .replace
  let (buffer, _) ← checked.text.applyValidatedPlan u plan
  let replaced := { checked with text := buffer, elements := [] }
  let moved := replaced.setCursorInner u (min cursor (byteLen buffer.text))
  some { moved with selection := none }.postMutate

/-- `self.undo.last_insert_ws = last.is_whitespace()`. -/
def noteInserted (ta : TextArea) (text : Text) : TextArea :=
  match text.getLast? with
  | some last => { ta with undo := { ta.undo with lastInsertWs := isWhitespace last } }
  | none => ta

def insertStr (ta : TextArea) (text : Text) : Option TextArea :=
  match text with
  | [] => some ta
  | first :: _ => do
    -- a change between white space and other text ends the insert batch
    let broken :=
      if ta.undo.lastKind = some .insert ∧ ta.undo.lastInsertWs ≠ isWhitespace first then
        { ta with undo := { ta.undo with lastKind := none } }
      else ta
    let edited ← broken.applyEditReplacement u ⟨ta.cursor, ta.cursor⟩ text (some .insert)
    some (edited.noteInserted text)

def insertStrAt (ta : TextArea) (pos : Nat) (text : Text) : Option TextArea :=
  if text = [] then some ta
  else do
    let edited ← ta.applyEditReplacement u ⟨pos, pos⟩ text (some .insert)
    some (edited.noteInserted text)

def replaceRange (ta : TextArea) (range : ByteRange) (text : Text) : Option TextArea :=
  ta.applyEditReplacement u range text (some .replace)

/-- `for _ in 0..n`, until the command changes nothing. -/
def repeatCommand (command : EditCommand) : Nat → TextArea → Option TextArea
  | 0, ta => some ta
  | n + 1, ta => do
    let (edited, outcome) ← ta.applyEditCommand u command (some .delete)
    if outcome = .unchanged then some edited else repeatCommand command n edited

/-- `delete_backward` and `delete_forward`. -/
def deleteGraphemes (ta : TextArea) (command : EditCommand) (n : Nat) : Option TextArea :=
  if n = 0 then some ta
  else if n = 1 then (ta.applyEditCommand u command (some .delete)).map (·.1)
  else (repeatCommand u command n ta.beginUndoGroup).map endUndoGroup

def deleteBackward (ta : TextArea) (n : Nat) : Option TextArea :=
  ta.deleteGraphemes u .deleteGraphemeBackward n

def deleteForward (ta : TextArea) (n : Nat) : Option TextArea :=
  ta.deleteGraphemes u .deleteGraphemeForward n

def deleteBackwardWord (ta : TextArea) : Option (TextArea × EditOutcome) :=
  ta.applyEditCommand u (.deleteWordBackward .small) (some .kill)

def deleteBackwardUnixWord (ta : TextArea) : Option (TextArea × EditOutcome) :=
  ta.applyEditCommand u (.deleteWordBackward .whitespaceDelimited) (some .kill)

def deleteForwardWord (ta : TextArea) : Option (TextArea × EditOutcome) :=
  ta.applyEditCommand u (.deleteWordForward .small) (some .kill)

def killToEndOfLine (ta : TextArea) : Option (TextArea × EditOutcome) :=
  ta.applyEditCommand u .deleteToLineEnd (some .kill)

def killToBeginningOfLine (ta : TextArea) : Option (TextArea × EditOutcome) :=
  ta.applyEditCommand u .deleteToLineStart (some .kill)

/-- Kill the whole line; an empty one takes the line feed before it. -/
def killCurrentLine (ta : TextArea) : Option TextArea :=
  let bol := ta.beginningOfCurrentLine
  let eol := ta.endOfCurrentLine
  if bol = eol then
    if bol > 0 then ta.applyEditReplacement u ⟨bol - 1, bol⟩ [] (some .kill) else some ta
  else ta.applyEditReplacement u ⟨bol, eol⟩ [] (some .kill)

def yank (ta : TextArea) : Option TextArea :=
  if ta.killBuffer = [] then some ta
  else do
    let edited ← ta.applyEditReplacement u ⟨ta.cursor, ta.cursor⟩ ta.killBuffer (some .insert)
    some (edited.noteInserted ta.killBuffer)

/-- A classified key: what it is recorded as follows from its category. -/
def applyClassifiedCommand (ta : TextArea) (command : EditCommand) : Option TextArea :=
  match command with
  | .insert character => ta.insertStr u [character]
  | command =>
    let mutationKind :=
      match command.category with
      | .delete => some MutationKind.delete
      | .kill => some MutationKind.kill
      | _ => none
    (ta.applyEditCommand u command mutationKind).map (·.1)

/-! ## Selection -/

/-- The loop of `expand_range_to_element_boundaries`, with a round for each byte
up to the furthest end. -/
def expandRangeToElementBoundaries (ta : TextArea) (range : ByteRange) : Option ByteRange :=
  Span.expand ta.elementRanges
    ((ta.elementRanges.map (·.stop)).foldr max range.stop + 1) range

/-- The selected range, grown over the elements it meets; the outer none is a
loop that does not end. -/
def selectionRange (ta : TextArea) : Option (Option ByteRange) :=
  match ta.selection with
  | none => some none
  | some sel =>
    if sel.anchor = sel.head then some none
    else do
      let expanded ←
        ta.expandRangeToElementBoundaries ⟨min sel.anchor sel.head, max sel.anchor sel.head⟩
      let clampedStart := min expanded.start (byteLen ta.text.text)
      let clampedEnd := min expanded.stop (byteLen ta.text.text)
      some (if clampedStart ≥ clampedEnd then none else some ⟨clampedStart, clampedEnd⟩)

def deleteSelection (ta : TextArea) : Option (TextArea × Bool) := do
  match ← ta.selectionRange with
  | none => some (ta, false)
  | some range =>
    let edited ← ta.applyEditReplacement u range [] (some .replace)
    let moved := edited.setCursorInner u (min range.start (byteLen edited.text.text))
    some ({ moved.postMutate with selection := none }, true)

/-! ## Elements -/

def addElement (ta : TextArea) (range : ByteRange) (kind : ElementKind) : TextArea × ElementId :=
  let element : TextElement := ⟨ta.nextElementId, range, kind⟩
  ({ ta with
    elements := (ta.elements ++ [element]).mergeSort fun a b => a.range.start ≤ b.range.start
    nextElementId := ta.nextElementId + 1 }, ta.nextElementId)

def applyElementTransaction (ta : TextArea) (plan : EditPlan) (kind : ElementKind) :
    Option (TextArea × ElementId) := do
  let start := plan.replacedByteRange.start
  let stop := start + byteLen plan.replacement
  ta.assertValidEditPlan u plan
  let (edited, _) ← (ta.preMutate .element).applyValidatedEditPlan u plan (some .element)
  let (added, id) := edited.addElement ⟨start, stop⟩ kind
  some ((added.setCursor u stop).postMutate, id)

def replaceRangeWithElement (ta : TextArea) (range : ByteRange) (text : Text)
    (kind : ElementKind) : Option (TextArea × ElementId) := do
  let plan ← ta.planEditReplacement u range text
  ta.applyElementTransaction u plan kind

def insertElement (ta : TextArea) (text : Text) (kind : ElementKind) :
    Option (TextArea × ElementId) :=
  ta.replaceRangeWithElement u ⟨ta.cursor, ta.cursor⟩ text kind

/-- The buffer text of an element; a slice that panics is a none too. -/
def elementText (ta : TextArea) (id : ElementId) : Option Text := do
  let e ← ta.elements.find? fun e => e.id == id
  slice ta.text.text e.range.start e.range.stop

def inlineElement (ta : TextArea) (id : ElementId) : TextArea × Bool :=
  match ta.elements.findIdx? fun e => e.id == id with
  | none => (ta, false)
  | some idx =>
    let stop := (ta.elements[idx]?.map (·.range.stop)).getD 0
    let checked := ta.preMutate .element
    let removed := { checked with elements := checked.elements.eraseIdx idx }
    let moved := removed.setCursorInner u stop
    ({ moved with undo := { moved.undo with lastKind := none } }, true)

/-! ## Operations -/

inductive Op where
  | setTabWidth (tabWidth : Nat)
  | setText (text : Text)
  | insertStr (text : Text)
  | insertStrAt (pos : Nat) (text : Text)
  | replaceRange (range : ByteRange) (text : Text)
  | setCursor (pos : Nat)
  | moveCursorLeft
  | moveCursorRight
  | moveCursorVertically (target : Nat)
  | moveCursorToBeginningOfLine (moveUpAtBol : Bool) (visual : Option Nat)
  | moveCursorToEndOfLine (moveDownAtEol : Bool) (visual : Option Nat)
  | classified (command : EditCommand)
  | deleteBackward (n : Nat)
  | deleteForward (n : Nat)
  | deleteBackwardWord
  | deleteBackwardUnixWord
  | deleteForwardWord
  | killToEndOfLine
  | killToBeginningOfLine
  | killCurrentLine
  | yank
  | setSelection (anchor head : Nat)
  | clearSelection
  | deleteSelection
  | insertElement (text : Text) (kind : ElementKind)
  | replaceRangeWithElement (range : ByteRange) (text : Text) (kind : ElementKind)
  | inlineElement (id : ElementId)
  | clearHistory
  | undo
  | redo
  | beginUndoGroup
  | endUndoGroup
  | cancelUndoGroup
deriving DecidableEq, Repr

def step (ta : TextArea) : Op → Option TextArea
  | .setTabWidth tabWidth => some { ta with tabWidth }
  | .setText text => ta.setText u text
  | .insertStr text => ta.insertStr u text
  | .insertStrAt pos text => ta.insertStrAt u pos text
  | .replaceRange range text => ta.replaceRange u range text
  | .setCursor pos => some (ta.setCursor u pos)
  | .moveCursorLeft => (ta.moveCursorLeft u).map (·.1)
  | .moveCursorRight => (ta.moveCursorRight u).map (·.1)
  | .moveCursorVertically target => some (ta.moveCursorVertically u target)
  | .moveCursorToBeginningOfLine up visual => ta.moveCursorToBeginningOfLine u up visual
  | .moveCursorToEndOfLine down visual => ta.moveCursorToEndOfLine u down visual
  | .classified command => ta.applyClassifiedCommand u command
  | .deleteBackward n => ta.deleteBackward u n
  | .deleteForward n => ta.deleteForward u n
  | .deleteBackwardWord => (ta.deleteBackwardWord u).map (·.1)
  | .deleteBackwardUnixWord => (ta.deleteBackwardUnixWord u).map (·.1)
  | .deleteForwardWord => (ta.deleteForwardWord u).map (·.1)
  | .killToEndOfLine => (ta.killToEndOfLine u).map (·.1)
  | .killToBeginningOfLine => (ta.killToBeginningOfLine u).map (·.1)
  | .killCurrentLine => ta.killCurrentLine u
  | .yank => ta.yank u
  | .setSelection anchor head => some { ta with selection := some ⟨anchor, head⟩ }
  | .clearSelection => some { ta with selection := none }
  | .deleteSelection => (ta.deleteSelection u).map (·.1)
  | .insertElement text kind => (ta.insertElement u text kind).map (·.1)
  | .replaceRangeWithElement range text kind =>
    (ta.replaceRangeWithElement u range text kind).map (·.1)
  | .inlineElement id => some (ta.inlineElement u id).1
  | .clearHistory => some ta.clearHistory
  | .undo => some (ta.undoStep u)
  | .redo => some (ta.redoStep u)
  | .beginUndoGroup => some ta.beginUndoGroup
  | .endUndoGroup => some ta.endUndoGroup
  | .cancelUndoGroup => some (ta.cancelUndoGroup u)

def run (ta : TextArea) : List Op → Option TextArea
  | [] => some ta
  | op :: ops => do
    let next ← ta.step u op
    next.run ops

end TextArea

end GrokBuild.PromptEditor
