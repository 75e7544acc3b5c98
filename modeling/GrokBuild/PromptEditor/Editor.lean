import GrokBuild.PromptEditor.Walks

/-!
# The edit buffer

A text with a cursor, changed through plans. A plan says which bytes are
replaced by what and where the cursor goes; it names the buffer state it was
made for, and is checked against it before it is applied. Lengths are natural
numbers: two strings in memory are never long enough together to overflow a
`usize`. Functions that slice the text return none where the slice panics.
-/

namespace GrokBuild.PromptEditor

open TextLines Str ByteText

/-! ## Commands and plans -/

inductive EditCommand where
  | insert (character : Char)
  | moveGraphemeLeft
  | moveGraphemeRight
  | moveWordLeft (style : WordStyle)
  | moveWordRight (style : WordStyle)
  | moveLogicalLineStart
  | moveLogicalLineEnd
  | deleteGraphemeBackward
  | deleteGraphemeForward
  | deleteWordBackward (style : WordStyle)
  | deleteWordForward (style : WordStyle)
  | deleteToLineStart
  | deleteToLineEnd
deriving DecidableEq, Repr

inductive EditCommandCategory where
  | insert
  | navigation
  | delete
  | kill
deriving DecidableEq, Repr

def EditCommand.category : EditCommand → EditCommandCategory
  | .insert _ => .insert
  | .moveGraphemeLeft | .moveGraphemeRight | .moveWordLeft _ | .moveWordRight _
  | .moveLogicalLineStart | .moveLogicalLineEnd => .navigation
  | .deleteGraphemeBackward | .deleteGraphemeForward => .delete
  | .deleteWordBackward _ | .deleteWordForward _ | .deleteToLineStart | .deleteToLineEnd => .kill

structure EditDelta where
  replacedByteRange : ByteRange
  insertedByteRange : ByteRange
deriving DecidableEq, Repr

inductive EditOutcome where
  | unchanged
  | cursorOnly
  | textOnly (delta : EditDelta)
  | textAndCursor (delta : EditDelta)
deriving DecidableEq, Repr

def EditOutcome.fromChanges (delta : Option EditDelta) (cursorChanged : Bool) : EditOutcome :=
  match delta, cursorChanged with
  | none, false => .unchanged
  | none, true => .cursorOnly
  | some delta, false => .textOnly delta
  | some delta, true => .textAndCursor delta

inductive PostEditCursorAffinity where
  | exact
  | right
deriving DecidableEq, Repr

/-- The address of a buffer's `Arc<BufferIdentity>`: which buffer allocated it,
and how often that buffer has taken a new one. -/
structure BufferIdentity where
  owner : Nat
  rotation : Nat
deriving DecidableEq, Repr

/-- A newly allocated identity, different from every one before it. -/
def BufferIdentity.next (i : BufferIdentity) : BufferIdentity :=
  { i with rotation := i.rotation + 1 }

structure EditPlan where
  replacedByteRange : ByteRange
  replacement : Text
  removedText : Text
  cursorByte : Nat
  cursorAffinity : PostEditCursorAffinity
  sourceIdentity : BufferIdentity
  sourceGeneration : Nat
deriving DecidableEq, Repr

inductive ApplyEditPlanError where
  | stalePlan
  | invalidRange
  | removedTextMismatch
  | invalidCursor
deriving DecidableEq, Repr

structure EditBuffer where
  text : Text
  cursorByte : Nat
  identity : BufferIdentity
  generation : Nat
deriving DecidableEq, Repr

namespace EditBuffer

/-! ## Making a buffer -/

/-- `new` and `default`. -/
def new (identity : BufferIdentity) : EditBuffer := ⟨[], 0, identity, 0⟩

def fromText (text : Text) (identity : BufferIdentity) : EditBuffer :=
  ⟨text, byteLen text, identity, 0⟩

variable (u : Unicode)

def fromParts (text : Text) (cursorByte : Nat) (identity : BufferIdentity) : EditBuffer :=
  ⟨text, normalizeExternalCursor u text cursorByte, identity, 0⟩

def clone (b : EditBuffer) (identity : BufferIdentity) : EditBuffer :=
  ⟨b.text, b.cursorByte, identity, 0⟩

/-- The generation is a `u64`; when it runs out the buffer takes a new identity. -/
def advanceGeneration (b : EditBuffer) : EditBuffer :=
  if b.generation < 2 ^ 64 - 1 then { b with generation := b.generation + 1 }
  else { b with identity := b.identity.next, generation := 0 }

def setCursorByte (b : EditBuffer) (cursorByte : Nat) : EditBuffer × EditOutcome :=
  let moved := { b with cursorByte := normalizeExternalCursor u b.text cursorByte }
  let cursorChanged := moved.cursorByte != b.cursorByte
  (if cursorChanged then moved.advanceGeneration else moved,
    EditOutcome.fromChanges none cursorChanged)

/-! ## Planning -/

def makePlan (b : EditBuffer) (replacedByteRange : ByteRange) (replacement : Text)
    (cursorByte : Nat) (cursorAffinity : PostEditCursorAffinity) : Option EditPlan :=
  (slice b.text replacedByteRange.start replacedByteRange.stop).map fun removedText =>
    { replacedByteRange, replacement, removedText, cursorByte, cursorAffinity,
      sourceIdentity := b.identity, sourceGeneration := b.generation }

def planReplaceByteRange (b : EditBuffer) (range : ByteRange) (replacement : Text)
    (atomicByteRanges : List ByteRange) : Option EditPlan := do
  let ranges := normalizeAtomicRanges u b.text atomicByteRanges
  let range ← normalizeReplacementRange u b.text range ranges
  let cursorByte := normalizeCursorForAtomicRanges b.cursorByte ranges
  let nextCursor :=
    if cursorByte < range.start then cursorByte
    else if cursorByte ≤ range.stop then range.start + byteLen replacement
    else cursorByte - (range.stop - range.start) + byteLen replacement
  b.makePlan range replacement nextCursor .right

/-- A plan that only moves the cursor. -/
def makeMove (b : EditBuffer) (cursorByte target : Nat) : Option EditPlan :=
  b.makePlan ⟨cursorByte, cursorByte⟩ [] target .exact

/-- A plan that deletes a range and leaves the cursor at its start. -/
def makeDeletion (b : EditBuffer) (range : ByteRange) : Option EditPlan :=
  b.makePlan range [] range.start .right

def planCommand (b : EditBuffer) (command : EditCommand) (atomicByteRanges : List ByteRange) :
    Option EditPlan :=
  let ranges := normalizeAtomicRanges u b.text atomicByteRanges
  let cursorByte := normalizeCursorForAtomicRanges b.cursorByte ranges
  match command with
  | .insert character =>
    b.makePlan ⟨cursorByte, cursorByte⟩ [character] (cursorByte + character.utf8Size) .right
  | .moveGraphemeLeft => b.makeMove cursorByte (previousAtomicBoundary u b.text cursorByte ranges)
  | .moveGraphemeRight => b.makeMove cursorByte (nextAtomicBoundary u b.text cursorByte ranges)
  | .moveWordLeft style => do
    let target ← previousWordBoundary u b.text style cursorByte ranges
    b.makeMove cursorByte target
  | .moveWordRight style => do
    let target ← nextWordBoundary u b.text style cursorByte ranges
    b.makeMove cursorByte target
  | .moveLogicalLineStart =>
    b.makeMove cursorByte (logicalLineStartTarget u b.text cursorByte ranges)
  | .moveLogicalLineEnd => b.makeMove cursorByte (logicalLineEndTarget b.text cursorByte ranges)
  | .deleteGraphemeBackward =>
    b.makeDeletion ⟨previousAtomicBoundary u b.text cursorByte ranges, cursorByte⟩
  | .deleteGraphemeForward =>
    b.makeDeletion ⟨cursorByte, nextAtomicBoundary u b.text cursorByte ranges⟩
  | .deleteWordBackward style => do
    let start ← previousWordBoundary u b.text style cursorByte ranges
    b.makeDeletion ⟨start, cursorByte⟩
  | .deleteWordForward style => do
    let stop ← nextWordBoundary u b.text style cursorByte ranges
    b.makeDeletion ⟨cursorByte, stop⟩
  | .deleteToLineStart =>
    let lineStart := lineStartAt b.text cursorByte ranges
    let start :=
      if cursorByte = lineStart then previousAtomicBoundary u b.text lineStart ranges else lineStart
    b.makeDeletion ⟨start, cursorByte⟩
  | .deleteToLineEnd =>
    let lineEnd := lineEndFrom b.text cursorByte ranges
    let start := min cursorByte lineEnd
    let stop :=
      if cursorByte ≥ lineEnd then
        match lineEndingAt b.text lineEnd with
        | some range => range.stop
        | none => lineEnd
      else lineEnd
    b.makeDeletion ⟨start, stop⟩

/-! ## Checking and applying -/

def validatePlan (b : EditBuffer) (plan : EditPlan) : Except ApplyEditPlanError Unit :=
  let range := plan.replacedByteRange
  if plan.sourceIdentity ≠ b.identity ∨ plan.sourceGeneration ≠ b.generation then
    .error .stalePlan
  else if range.start > range.stop ∨ range.stop > byteLen b.text ∨
      isCharBoundary b.text range.start = false ∨ isCharBoundary b.text range.stop = false ∨
      isGraphemeBoundary u b.text range.start = false ∨
      isGraphemeBoundary u b.text range.stop = false then
    .error .invalidRange
  else if slice b.text range.start range.stop ≠ some plan.removedText then
    .error .removedTextMismatch
  else if byteLen b.text < range.stop - range.start then
    .error .invalidCursor
  else if plan.cursorByte >
      byteLen b.text - (range.stop - range.start) + byteLen plan.replacement then
    .error .invalidCursor
  else if plan.cursorAffinity = .exact ∧ (plan.replacement ≠ plan.removedText ∨
      isGraphemeBoundary u b.text plan.cursorByte = false) then
    .error .invalidCursor
  else .ok ()

def applyValidatedPlan (b : EditBuffer) (plan : EditPlan) : Option (EditBuffer × EditOutcome) := do
  let range := plan.replacedByteRange
  let textChanged := plan.removedText != plan.replacement
  let text ←
    if textChanged then splice b.text range.start range.stop plan.replacement else some b.text
  let cursorByte :=
    match plan.cursorAffinity with
    | .exact => plan.cursorByte
    | .right => ceilGraphemeBoundary u text plan.cursorByte
  let cursorChanged := cursorByte != b.cursorByte
  let edited := { b with text, cursorByte }
  let delta : EditDelta := ⟨range, ⟨range.start, range.start + byteLen plan.replacement⟩⟩
  some (if textChanged || cursorChanged then edited.advanceGeneration else edited,
    EditOutcome.fromChanges (if textChanged then some delta else none) cursorChanged)

/-- `apply_plan`; the outer none is a panic. -/
def applyPlan (b : EditBuffer) (plan : EditPlan) :
    Option (Except ApplyEditPlanError (EditBuffer × EditOutcome)) :=
  match validatePlan u b plan with
  | .error e => some (.error e)
  | .ok () => (applyValidatedPlan u b plan).map .ok

def insertStr (b : EditBuffer) (text : Text) : Option (EditBuffer × EditOutcome) := do
  let plan ← planReplaceByteRange u b ⟨b.cursorByte, b.cursorByte⟩ text []
  applyValidatedPlan u b plan

def replaceByteRange (b : EditBuffer) (range : ByteRange) (replacement : Text) :
    Option (EditBuffer × EditOutcome) := do
  let plan ← planReplaceByteRange u b range replacement []
  applyValidatedPlan u b plan

def apply (b : EditBuffer) (command : EditCommand) : Option (EditBuffer × EditOutcome) := do
  let plan ← planCommand u b command []
  applyValidatedPlan u b plan

/-- The buffers the public operations can make. A plan handed to `applyPlan` may
come from anywhere. -/
inductive Reachable : EditBuffer → Prop where
  | new (identity : BufferIdentity) : Reachable (new identity)
  | fromText (text : Text) (identity : BufferIdentity) : Reachable (fromText text identity)
  | fromParts (text : Text) (cursorByte : Nat) (identity : BufferIdentity) :
      Reachable (fromParts u text cursorByte identity)
  | clone {b : EditBuffer} (h : Reachable b) (identity : BufferIdentity) :
      Reachable (b.clone identity)
  | setCursorByte {b : EditBuffer} (h : Reachable b) (cursorByte : Nat) :
      Reachable (setCursorByte u b cursorByte).1
  | insertStr {b b' : EditBuffer} {outcome : EditOutcome} (h : Reachable b) (text : Text)
      (hb : insertStr u b text = some (b', outcome)) : Reachable b'
  | replaceByteRange {b b' : EditBuffer} {outcome : EditOutcome} (h : Reachable b)
      (range : ByteRange) (replacement : Text)
      (hb : replaceByteRange u b range replacement = some (b', outcome)) : Reachable b'
  | applyPlan {b b' : EditBuffer} {outcome : EditOutcome} (h : Reachable b) (plan : EditPlan)
      (hb : applyPlan u b plan = some (.ok (b', outcome))) : Reachable b'
  | apply {b b' : EditBuffer} {outcome : EditOutcome} (h : Reachable b) (command : EditCommand)
      (hb : apply u b command = some (b', outcome)) : Reachable b'

end EditBuffer

end GrokBuild.PromptEditor
