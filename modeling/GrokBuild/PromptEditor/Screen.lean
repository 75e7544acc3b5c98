import GrokBuild.PromptEditor.Area

/-!
# The text area on the screen

Where the vertical keys, Home and End, the pointer and the wheel put the cursor
and the selection. Each event comes with the layout it is handled under: the
wrapped lines, the widths of the texts, and the scroll offset, column and
scrollbar that earlier events have left. All of these are arguments here, with
any values, so a result about every event is one about every wrapping and every
width table; the lines around displayed elements are `elementAwareWrapRanges`. Of
what the widget keeps for the mouse only the drag is state. The clock decides how
many clicks make one and whether a drag beyond the edge is dropped. As before, a
function returns none where the source panics.
-/

namespace GrokBuild.PromptEditor

open TextLines Str ByteText

/-- The screen rectangle the text area is rendered in. -/
structure Rect where
  x : Nat
  y : Nat
  width : Nat
  height : Nat
deriving DecidableEq, Repr

structure Layout where
  /-- The lines of the wrap cache, when there is one. -/
  cached : Option (List ByteRange)
  /-- `wrapped_lines(text_width(area))`. -/
  lines : List ByteRange
  textWidth : Nat
  /-- The width of an element's display, when it has one. -/
  displayWidth : TextElement → Option Nat
  /-- `UnicodeWidthStr::width`. -/
  strWidth : Text → Nat
  preferredCol : Option Nat
  area : Rect
  /-- `TextAreaState::scroll`. -/
  scroll : Nat
  scrollOverride : Option Nat
  showScrollbar : Bool
  scrollbarDragging : Bool

namespace TextArea

/-- The operations that take no position from the screen. -/
def Op.direct : Op → Bool
  | .moveCursorVertically _ => false
  | .moveCursorToBeginningOfLine up _ => up
  | .moveCursorToEndOfLine down _ => down
  | _ => true

/-- The selected text; the outer none is a slice that panics. -/
def selectedText (ta : TextArea) : Option (Option Text) := do
  match ← ta.selectionRange with
  | none => some none
  | some range => (slice ta.text.text range.start range.stop).map some

variable (u : Unicode) (lay : Layout)

/-! ## Widths -/

def graphemeDisplayWidth (ta : TextArea) (grapheme : Text) : Nat :=
  if grapheme = ['\t'] then ta.tabWidth else lay.strWidth grapheme

def plainDisplayWidth (ta : TextArea) (text : Text) : Nat :=
  if ta.tabWidth = 0 ∨ '\t' ∉ text then lay.strWidth text
  else ((u.graphemes text).map (ta.graphemeDisplayWidth lay)).sum

/-- The width of the buffer text of `start..stop`. -/
def plainWidthAt (ta : TextArea) (start stop : Nat) : Option Nat :=
  (slice ta.text.text start stop).map (ta.plainDisplayWidth u lay)

/-- The loop of `display_width_of_range`, up to the byte `stop`: the position
and the width it has come to. -/
def displayWidthLoop (ta : TextArea) (stop : Nat) :
    List TextElement → Nat → Nat → Option (Nat × Nat)
  | [], pos, width => some (pos, width)
  | elem :: rest, pos, width =>
    if elem.range.start ≥ stop then some (pos, width)
    else if elem.range.stop ≤ pos then displayWidthLoop ta stop rest pos width
    else do
      let plainEnd := if pos < elem.range.start then min elem.range.start stop else pos
      let plain ← if pos < elem.range.start then ta.plainWidthAt u lay pos plainEnd else some 0
      let elemStart := max elem.range.start plainEnd
      let elemEnd := min elem.range.stop stop
      if plainEnd ≥ stop then some (plainEnd, width + plain)
      else if elemStart < elemEnd then do
        let elemWidth ←
          match lay.displayWidth elem with
          | some w =>
            if elemStart = elem.range.start then some w
            else ta.plainWidthAt u lay elemStart elemEnd
          | none => ta.plainWidthAt u lay elemStart elemEnd
        displayWidthLoop ta stop rest elemEnd (width + plain + elemWidth)
      else displayWidthLoop ta stop rest plainEnd (width + plain)

def displayWidthOfRange (ta : TextArea) (start stop : Nat) : Option Nat :=
  if start ≥ stop then some 0
  else do
    let (pos, width) ← ta.displayWidthLoop u lay stop ta.elements start 0
    if pos < stop then do
      let rest ← ta.plainWidthAt u lay pos stop
      some (width + rest)
    else some width

/-! ## From a column to a position -/

/-- `is_inside_element`, with the element. -/
def elementAt (ta : TextArea) (pos : Nat) : Option TextElement :=
  ta.elements.find? fun e => decide (pos ≥ e.range.start ∧ pos < e.range.stop)

/-- The loop of `display_col_to_buffer_pos`. Every round moves on, so a round for
each byte of the line is enough. -/
def displayColLoop (ta : TextArea) (lineEnd targetCol : Nat) :
    Nat → Nat → Nat → Option (Nat × Bool)
  | 0, _, _ => some (ta.clampPosToNearestBoundary lineEnd, false)
  | fuel + 1, pos, width =>
    if pos < lineEnd then
      match ta.elementAt pos with
      | some elem =>
        let elemLineEnd := min elem.range.stop lineEnd
        if pos = elem.range.start then do
          let elemWidth ←
            match lay.displayWidth elem with
            | some w => some w
            | none => ta.plainWidthAt u lay elem.range.start elemLineEnd
          if width + elemWidth > targetCol then
            -- the nearer border of the element
            let distStart := targetCol - width
            let distEnd := elemWidth - distStart
            some (if distStart ≤ distEnd then elem.range.start else elem.range.stop, true)
          else displayColLoop ta lineEnd targetCol fuel elemLineEnd (width + elemWidth)
        else do
          -- the line starts in the middle of the element
          let partialWidth ← ta.plainWidthAt u lay pos elemLineEnd
          if width + partialWidth > targetCol then some (elem.range.stop, true)
          else displayColLoop ta lineEnd targetCol fuel elemLineEnd (width + partialWidth)
      | none => do
        let rest ← slice ta.text.text pos lineEnd
        match u.graphemes rest with
        | grapheme :: _ =>
          let width := width + ta.graphemeDisplayWidth lay grapheme
          if width > targetCol then some (ta.clampPosToNearestBoundary pos, false)
          else displayColLoop ta lineEnd targetCol fuel (pos + byteLen grapheme) width
        | [] => some (ta.clampPosToNearestBoundary lineEnd, false)
    else some (ta.clampPosToNearestBoundary lineEnd, false)

/-- The byte position of a display column of a line, and whether the column fell
on an element. -/
def displayColToBufferPos (ta : TextArea) (lineStart lineEnd targetCol : Nat) :
    Option (Nat × Bool) :=
  ta.displayColLoop u lay lineEnd targetCol (lineEnd - lineStart) lineStart 0

def moveToDisplayColOnLine (ta : TextArea) (lineStart lineEnd targetCol : Nat) :
    Option TextArea := do
  let (pos, _) ← ta.displayColToBufferPos u lay lineStart lineEnd targetCol
  some (ta.setCursorInner u pos)

/-- The start of the last character of `start..stop`, or `start` when there is
none. -/
def lastCharStart (ta : TextArea) (start stop : Nat) : Option Nat :=
  (slice ta.text.text start stop).map fun s =>
    match s.getLast? with
    | some c => start + (byteLen s - c.utf8Size)
    | none => start

def clampToLine (ta : TextArea) (pos lineStart lineEnd : Nat) : Option Nat :=
  if lineEnd > lineStart then (ta.lastCharStart lineStart lineEnd).map (min pos)
  else some lineStart

/-! ## Wrapping around displayed elements -/

/-- `next_logical_newline`: the first `\n` from `start` on that is in no element,
or the end of the text. -/
def nextLogicalNewline (ta : TextArea) (start : Nat) : Nat :=
  ((List.range' start (byteLen ta.text.text - start)).find?
    (isLineFeed ta.text.text ta.elementRanges)).getD (byteLen ta.text.text)

/-- The line that `greedy_wrap_segment` fills. -/
structure VisualLine where
  start : Nat
  pos : Nat
  width : Nat
  lastBreak : Option Nat

def VisualLine.breakAt (line : VisualLine) : Nat := line.lastBreak.getD line.pos

/-- The first position from `start` to `pos` that holds no blank. -/
def skipBlanks (text : Text) (start pos : Nat) : Nat :=
  start + ((List.range' start (pos - start)).takeWhile fun p =>
    byteAt text p = some 32 ∨ byteAt text p = some 9).length

/-- A round of `greedy_wrap_segment`: whether the line is full, and what is
filled next. The inner none is the end of the loop. -/
def wrapRound (ta : TextArea) (stop : Nat) (line : VisualLine) : Option (Option (Bool × VisualLine)) :=
  let next := skipBlanks ta.text.text line.breakAt line.pos
  if line.pos < stop then
    match ta.elements.find? fun e => line.pos = e.range.start ∧ e.range.start < e.range.stop with
    | some elem => do
      let elemEnd := min elem.range.stop stop
      let elemWidth ← lay.displayWidth elem <|> ta.plainWidthAt u lay elem.range.start elemEnd
      if line.width > 0 ∧ line.width + elemWidth > max lay.textWidth 1 then
        some (some (true, ⟨next, next, 0, none⟩))
      else some (some (false, ⟨line.start, elemEnd, line.width + elemWidth, some elemEnd⟩))
    | none => do
      match u.graphemes (← slice ta.text.text line.pos stop) with
      | [] => some none
      | grapheme :: _ =>
        let w := ta.graphemeDisplayWidth lay grapheme
        let behind := line.pos + byteLen grapheme
        if line.width + w > max lay.textWidth 1 ∧ line.width > 0 then
          if next = line.pos then some (some (true, ⟨next, behind, w, none⟩))
          else do
            let width ← ta.displayWidthOfRange u lay next line.pos
            some (some (true, ⟨next, line.pos, width, none⟩))
        else if grapheme = [' '] ∨ grapheme = ['\t'] then
          some (some (false, ⟨line.start, behind, line.width + w, some behind⟩))
        else some (some (false, ⟨line.start, behind, line.width + w, line.lastBreak⟩))
  else some none

/-- `greedy_wrap_segment`, up to `stop`; none when the rounds do not suffice. -/
def greedyWrapSegment (ta : TextArea) (stop : Nat) : Nat → VisualLine → Option (List ByteRange)
  | 0, _ => none
  | fuel + 1, line => do
    match ← ta.wrapRound u lay stop line with
    | none => some [⟨line.start, stop⟩]
    | some (true, next) =>
      (greedyWrapSegment ta stop fuel next).map (⟨line.start, line.breakAt⟩ :: ·)
    | some (false, next) => greedyWrapSegment ta stop fuel next

/-- `element_aware_wrap_ranges`, from the logical line at `start` on. -/
def elementAwareWrapRanges (ta : TextArea) : Nat → Nat → Option (List ByteRange)
  | 0, _ => none
  | fuel + 1, start =>
    let stop := ta.nextLogicalNewline start
    let lines :=
      if start ≥ stop then some [⟨start, stop⟩]
      else ta.greedyWrapSegment u lay stop fuel ⟨start, start, 0, none⟩
    lines.bind fun lines =>
      if stop ≥ byteLen ta.text.text then some lines
      else (elementAwareWrapRanges ta fuel (stop + 1)).map (lines ++ ·)

/-! ## Up, down, Home and End -/

/-- `partition_point` on lines in the order of their starts. -/
def wrappedLineIndexByStart (lines : List ByteRange) (pos : Nat) : Option Nat :=
  let idx := (lines.takeWhile fun r => decide (r.start ≤ pos)).length
  if idx = 0 then none else some (idx - 1)

/-- The wrapped line of the cursor: the cached lines and its index in them. -/
def currentVisualLine (ta : TextArea) : Option (List ByteRange × Nat) := do
  let lines ← lay.cached
  let idx ← wrappedLineIndexByStart lines ta.cursor
  some (lines, idx)

/-- The byte offset of the last `\n` before `pos`. -/
def rfindNewline (ta : TextArea) (pos : Nat) : Option Nat :=
  (List.range pos).reverse.find? (isLineFeed ta.text.text [])

/-- The byte offset of the first `\n` from `pos` on. -/
def findNewline (ta : TextArea) (pos : Nat) : Option Nat :=
  (List.range' pos (byteLen ta.text.text - pos)).find? (isLineFeed ta.text.text [])

def currentDisplayCol (ta : TextArea) : Option Nat :=
  ta.displayWidthOfRange u lay ta.beginningOfCurrentLine ta.cursor

/-- The column vertical movement aims at from a line that starts at `lineStart`. -/
def targetCol (ta : TextArea) (lineStart : Nat) : Option Nat :=
  match lay.preferredCol with
  | some col => some col
  | none => ta.displayWidthOfRange u lay lineStart ta.cursor

def moveCursorUp (ta : TextArea) : Option TextArea :=
  match ta.currentVisualLine lay with
  | some (lines, idx) => do
    let current ← lines[idx]?
    let col ← ta.targetCol u lay current.start
    if idx > 0 then do
      let previous ← lines[idx - 1]?
      ta.moveToDisplayColOnLine u lay previous.start previous.stop col
    else some (ta.setCursorInner u 0)
  | none =>
    match ta.rfindNewline ta.cursor with
    | some prevNl => do
      let col ← ta.targetCol u lay ta.beginningOfCurrentLine
      let lineStart := (ta.rfindNewline prevNl).elim 0 (· + 1)
      ta.moveToDisplayColOnLine u lay lineStart prevNl col
    | none => some (ta.setCursorInner u 0)

def moveCursorDown (ta : TextArea) : Option TextArea :=
  match ta.currentVisualLine lay with
  | some (lines, idx) => do
    let current ← lines[idx]?
    let col ← ta.targetCol u lay current.start
    match lines[idx + 1]? with
    | some next => ta.moveToDisplayColOnLine u lay next.start next.stop col
    | none => some (ta.setCursorInner u (byteLen ta.text.text))
  | none => do
    let col ← ta.targetCol u lay ta.beginningOfCurrentLine
    match ta.findNewline ta.cursor with
    | some nextNl =>
      let lineEnd := (ta.findNewline (nextNl + 1)).getD (byteLen ta.text.text)
      ta.moveToDisplayColOnLine u lay (nextNl + 1) lineEnd col
    | none => some (ta.setCursorInner u (byteLen ta.text.text))

def beginningOfCurrentVisualLine (ta : TextArea) : Option Nat := do
  let (lines, idx) ← ta.currentVisualLine lay
  let line ← lines[idx]?
  some line.start

/-- A line that is continued ends on its last character; the outer none is a
panic of the slice. -/
def endOfCurrentVisualLine (ta : TextArea) : Option (Option Nat) :=
  match ta.currentVisualLine lay with
  | none => some none
  | some (lines, idx) => do
    let line ← lines[idx]?
    let stop := min line.stop (byteLen ta.text.text)
    let continued := (lines[idx + 1]?).any fun next => next.start == stop
    if continued ∧ stop > line.start then (ta.clampToLine stop line.start stop).map some
    else some (some stop)

/-- Home and Super+Left. -/
def home (ta : TextArea) : Option TextArea :=
  ta.moveCursorToBeginningOfLine u false (ta.beginningOfCurrentVisualLine lay)

/-- End and Super+Right. -/
def toEnd (ta : TextArea) : Option TextArea := do
  let visual ← ta.endOfCurrentVisualLine lay
  ta.moveCursorToEndOfLine u false visual

/-! ## Words and lines under the pointer -/

/-- `char_class`: white space, word characters and the rest. -/
def charClass (c : Char) : Nat :=
  if isWhitespace c then 0 else if u.isAlphanumeric c || c == '_' then 1 else 2

def adjustPosOutOfElements (ta : TextArea) (pos : Nat) (preferStart : Bool) : Nat :=
  match ta.elements.find? fun e => decide (Span.Inside pos e.range) with
  | some e => if preferStart then e.range.start else e.range.stop
  | none => pos

def wordStartAt (ta : TextArea) (pos : Nat) : Option Nat :=
  match ta.elementAt pos with
  | some elem => some elem.range.start
  | none => do
    let (before, after) ← splitAtByte ta.text.text pos
    match after.head?.or before.getLast? with
    | none => some 0
    | some c =>
      let kept := before.reverse.dropWhile fun d => charClass u d == charClass u c
      some (ta.adjustPosOutOfElements (byteLen kept) true)

def wordEndAt (ta : TextArea) (pos : Nat) : Option Nat :=
  match ta.elementAt pos with
  | some elem => some elem.range.stop
  | none =>
    if pos < byteLen ta.text.text then do
      let (_, after) ← splitAtByte ta.text.text pos
      let c ← after.head?
      let word := after.takeWhile fun d => charClass u d == charClass u c
      some (ta.adjustPosOutOfElements (pos + byteLen word) false)
    else some (byteLen ta.text.text)

def beginningOfLine (ta : TextArea) (pos : Nat) : Nat :=
  match (List.range pos).reverse.find? (isLineFeed ta.text.text ta.elementRanges) with
  | some i => i + 1
  | none => 0

def endOfLine (ta : TextArea) (pos : Nat) : Nat :=
  match (List.range' pos (byteLen ta.text.text - pos)).find?
      (isLineFeed ta.text.text ta.elementRanges) with
  | some i => i
  | none => byteLen ta.text.text

/-! ## From the screen to a position -/

def effectiveScroll (ta : TextArea) : Nat :=
  let totalLines := lay.lines.length
  if lay.area.height ≥ totalLines then 0
  else
    let maxScroll := totalLines - lay.area.height
    match lay.scrollOverride with
    | some scroll => min scroll maxScroll
    | none =>
      let cursorLine := (wrappedLineIndexByStart lay.lines ta.cursor).getD 0
      let scroll := min lay.scroll maxScroll
      if cursorLine < scroll then cursorLine
      else if cursorLine ≥ scroll + lay.area.height then cursorLine + 1 - lay.area.height
      else scroll

/-- The column of a wrapped line, or the end of the text below the last one. -/
def bufferPosOnLine (ta : TextArea) (visualRow targetCol : Nat) : Option (Nat × Bool) :=
  match lay.lines[visualRow]? with
  | none => some (byteLen ta.text.text, false)
  | some line =>
    ta.displayColToBufferPos u lay line.start (min line.stop (byteLen ta.text.text)) targetCol

/-- The outer none is a panic, the inner one a point left of or above the area. -/
def bufferPosAtScreenEx (ta : TextArea) (col row : Nat) : Option (Option (Nat × Bool)) :=
  if col < lay.area.x ∨ row < lay.area.y then some none
  else
    (ta.bufferPosOnLine u lay (row - lay.area.y + ta.effectiveScroll lay)
      (col - lay.area.x)).map some

def bufferPosAtScreen (ta : TextArea) (col row : Nat) : Option (Option Nat) :=
  if col < lay.area.x ∨ col ≥ lay.area.x + lay.area.width ∨ row < lay.area.y ∨
      row ≥ lay.area.y + lay.area.height then some none
  else
    (ta.bufferPosOnLine u lay (row - lay.area.y + ta.effectiveScroll lay)
      (col - lay.area.x)).map fun hit => some hit.1

end TextArea

/-! ## The mouse -/

inductive MouseEventKind where
  | down
  | drag
  | up
  | scrollDown
  | scrollUp
  | other
deriving DecidableEq, Repr

structure MouseEvent where
  kind : MouseEventKind
  column : Nat
  row : Nat
  /-- What the click tracker counts at a press: 1, 2 or 3. -/
  clickCount : Nat
  /-- The drag beyond the edge comes too early after the last one. -/
  throttled : Bool
  /-- `keep_selection_after_mouseup`. -/
  keepSelection : Bool
deriving DecidableEq, Repr

/-- The text area with the drag it is under. -/
structure Widget where
  area : TextArea
  dragAnchor : Option Nat
  dragActive : Bool
deriving DecidableEq, Repr

namespace Widget

variable (u : Unicode) (lay : Layout)

def new (identity : BufferIdentity) : Widget := ⟨.new identity, none, false⟩

def scrollLinesForHeight (height : Nat) : Nat :=
  if height ≤ 5 then 1 else if height ≤ 15 then 2 else 3

def dragScrollLinesForDistance (distance : Nat) : Nat :=
  if distance ≤ 2 then 1 else if distance ≤ 5 then 2 else if distance ≤ 10 then 3 else 5

def setCursorInner (w : Widget) (pos : Nat) : Widget :=
  { w with area := w.area.setCursorInner u pos }

def withSelection (w : Widget) (selection : Option Selection) : Widget :=
  { w with area := { w.area with selection } }

/-- A click on an element goes to its start, and drags start there. -/
def elementClickSnap (w : Widget) (pos : Nat) (hitElement : Bool) : Option Widget :=
  if hitElement then do
    let elem ← w.area.elements.find? fun e =>
      decide (pos ≥ e.range.start ∧ pos ≤ e.range.stop ∧ e.range.start < e.range.stop)
    some { w.setCursorInner u elem.range.start with dragAnchor := some elem.range.start }
  else none

/-- `selected_text` for the clipboard: only a panic of it matters here. -/
def copySelection (w : Widget) : Option Widget := w.area.selectedText.map fun _ => w

/-- A double click selects a word, and puts the cursor on its last character. -/
def selectWord (w : Widget) (pos : Nat) : Option Widget := do
  let (_, after) ← splitAtByte w.area.text.text pos
  let start ← w.area.wordStartAt u pos
  let stop ← w.area.wordEndAt u pos
  if ¬ after.head?.any isWhitespace ∧ start < stop then do
    let cursor ← w.area.lastCharStart start stop
    ((w.withSelection (some ⟨start, stop⟩)).setCursorInner u cursor).copySelection
  else some (w.setCursorInner u pos)

/-- A triple click selects a line with its line feed. -/
def selectLine (w : Widget) (pos : Nat) : Option Widget :=
  let lineEnd := w.area.endOfLine pos
  let stop := if lineEnd < byteLen w.area.text.text then lineEnd + 1 else lineEnd
  ((w.withSelection (some ⟨w.area.beginningOfLine pos, stop⟩)).setCursorInner u pos).copySelection

def clickAt (w : Widget) (clickCount pos : Nat) (hitElement : Bool) : Option Widget :=
  if clickCount = 2 then
    match w.elementClickSnap u pos hitElement with
    | some snapped => some snapped
    | none => w.selectWord u pos
  else if clickCount = 3 then w.selectLine u pos
  else
    match w.elementClickSnap u pos hitElement with
    | some snapped => some snapped
    | none => some ({ w with dragAnchor := some pos }.setCursorInner u pos)

def press (w : Widget) (event : MouseEvent) : Option Widget := do
  let cleared := { w with dragActive := false }.withSelection none
  match ← cleared.area.bufferPosAtScreenEx u lay event.column event.row with
  | none => some { cleared with dragAnchor := none }
  | some (pos, hitElement) => cleared.clickAt u event.clickCount pos hitElement

/-- The position of the pointer on a line beyond the edge, kept on the line. -/
def posOnLine (ta : TextArea) (line : ByteRange) (column : Nat) : Option Nat := do
  let lineEnd := min line.stop (byteLen ta.text.text)
  let (pos, _) ← ta.displayColToBufferPos u lay line.start lineEnd (column - lay.area.x)
  ta.clampToLine pos line.start lineEnd

/-- The line that a drag above the area goes to. -/
def lineAbove (ta : TextArea) (event : MouseEvent) : Option ByteRange :=
  lay.lines[ta.effectiveScroll lay - dragScrollLinesForDistance (lay.area.y - event.row)]?

/-- The line that a drag below the area goes to. -/
def lineBelow (ta : TextArea) (event : MouseEvent) : Option ByteRange :=
  let lines := dragScrollLinesForDistance (event.row - (lay.area.y + lay.area.height) + 1)
  let visibleEnd := ta.effectiveScroll lay + lay.area.height
  lay.lines[min (visibleEnd + lines - 1) (lay.lines.length - 1)]?

/-- Where a drag goes; the outer none is a panic, the inner one no position. -/
def dragTarget (ta : TextArea) (event : MouseEvent) : Option (Option Nat) :=
  let area := lay.area
  if event.row < area.y then
    match lineAbove lay ta event with
    | some line => (posOnLine u lay ta line event.column).map some
    | none => some (some 0)
  else if event.row ≥ area.y + area.height then
    match lineBelow lay ta event with
    | some line => (posOnLine u lay ta line event.column).map some
    | none => some (some (byteLen ta.text.text))
  else
    ta.bufferPosAtScreen u lay (max area.x (min event.column (area.x + (lay.textWidth - 1))))
      event.row

def drag (w : Widget) (event : MouseEvent) : Option Widget :=
  match w.dragAnchor with
  | none => some w
  | some anchor =>
    let outsideArea := event.row < lay.area.y ∨ event.row ≥ lay.area.y + lay.area.height
    if outsideArea ∧ event.throttled then some w
    else do
      match ← dragTarget u lay w.area event with
      | none => some w
      | some head =>
        let selection := if head = anchor then none else some (Selection.mk anchor head)
        some ({ w with dragActive := selection.isSome }.withSelection selection
          |>.setCursorInner u head)

def release (w : Widget) (event : MouseEvent) : Option Widget := do
  let ended := { w with dragActive := false, dragAnchor := none }
  if w.dragActive then do
    let selected ← w.area.selectedText
    some (if selected.isSome ∧ event.keepSelection then ended else ended.withSelection none)
  else some ended

/-- The wheel during a drag takes the head of the selection to the line. -/
def dragToLine (w : Widget) (newPos : Nat) : Widget :=
  if w.dragActive then
    (w.withSelection (w.area.selection.map fun sel => { sel with head := newPos })).setCursorInner u
      newPos
  else w

/-- The line a turn of the wheel down takes a drag to; the inner none is no
scroll, the outer one an index out of bounds. -/
def scrollDownTarget (w : Widget) : Option (Option Nat) :=
  let total := lay.lines.length
  if total ≤ lay.area.height then some none
  else
    let current := lay.scrollOverride.getD (w.area.effectiveScroll lay)
    let newScroll :=
      min (current + scrollLinesForHeight lay.area.height) (total - lay.area.height)
    if newScroll = current then some none
    else do
      let line ← lay.lines[min (newScroll + lay.area.height - 1) (total - 1)]?
      some (some line.start)

def scrollUpTarget (w : Widget) : Option Nat :=
  if lay.lines.length ≤ lay.area.height then none
  else
    let current := lay.scrollOverride.getD (w.area.effectiveScroll lay)
    let newScroll := current - scrollLinesForHeight lay.area.height
    if newScroll = current then none else some ((lay.lines[newScroll]?).elim 0 (·.start))

def scrollDown (w : Widget) : Option Widget := do
  match ← w.scrollDownTarget lay with
  | some newPos => some (w.dragToLine u newPos)
  | none => some w

def scrollUp (w : Widget) : Widget :=
  match w.scrollUpTarget lay with
  | some newPos => w.dragToLine u newPos
  | none => w

def handleMouse (w : Widget) (event : MouseEvent) : Option Widget :=
  let onScrollbar := lay.showScrollbar ∧ lay.textWidth < lay.area.width ∧
    event.column + 1 = lay.area.x + lay.area.width
  -- the scrollbar takes the event and only scrolls
  if lay.scrollbarDragging ∧ (event.kind = .drag ∨ event.kind = .down ∨ event.kind = .up) then
    some w
  else if onScrollbar ∧ event.kind = .down then some w
  else
    match event.kind with
    | .down =>
      -- some terminals press again after a scroll: a drag that is on goes on
      if w.dragActive then w.drag u lay event else w.press u lay event
    | .drag => w.drag u lay event
    | .up => w.release event
    | .scrollDown => w.scrollDown u lay
    | .scrollUp => some (w.scrollUp u lay)
    | .other => some w

/-! ## Events -/

/-- `set_text` ends a drag. -/
def edit (w : Widget) (op : TextArea.Op) : Option Widget := do
  let area ← w.area.step u op
  match op with
  | .setText _ => some ⟨area, none, false⟩
  | _ => some { w with area }

/-- A key or a call is an edit or a movement, or a few in a row: a character
typed over a selection opens a group, deletes the selection, inserts the
character and closes the group. -/
inductive Event where
  | edit (op : TextArea.Op) (direct : op.direct = true)
  | moveCursorUp (lay : Layout)
  | moveCursorDown (lay : Layout)
  | home (lay : Layout)
  | toEnd (lay : Layout)
  | mouse (lay : Layout) (event : MouseEvent)

def step (w : Widget) : Event → Option Widget
  | .edit op _ => w.edit u op
  | .moveCursorUp lay => (w.area.moveCursorUp u lay).map fun area => { w with area }
  | .moveCursorDown lay => (w.area.moveCursorDown u lay).map fun area => { w with area }
  | .home lay => (w.area.home u lay).map fun area => { w with area }
  | .toEnd lay => (w.area.toEnd u lay).map fun area => { w with area }
  | .mouse lay event => w.handleMouse u lay event

def run (w : Widget) : List Event → Option Widget
  | [] => some w
  | event :: events => do
    let next ← w.step u event
    next.run events

end Widget

end GrokBuild.PromptEditor
