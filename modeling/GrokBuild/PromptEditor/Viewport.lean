import GrokBuild.PromptEditor.Widths
import GrokBuild.PromptEditor.Whole

/-!
# The viewport

How many columns the text has, how far the text area scrolls, and where the
cursor is painted. The wrapping is any function from a width to rows of whole
characters (`Rows`); what is a `u16` in the source is taken modulo 2^16 where it
is cast and has to fit where it is added up.
-/

namespace GrokBuild.PromptEditor

open TextLines Str ByteText List Option

/-- Addition of `u16`s, none where it overflows. -/
def addU16 (a b : Nat) : Option Nat := if a + b < 65536 then some (a + b) else none

/-- Subtraction of `u16`s. -/
def subU16 (a b : Nat) : Option Nat := if b ≤ a then some (a - b) else none

theorem addU16_eq_some {a b : Nat} (h : a + b < 65536) : addU16 a b = some (a + b) := if_pos h

theorem subU16_eq_some {a b : Nat} (h : b ≤ a) : subU16 a b = some (a - b) := if_pos h

def Rect.Contains (r : Rect) (x y : Nat) : Prop :=
  r.x ≤ x ∧ x < r.x + r.width ∧ r.y ≤ y ∧ y < r.y + r.height

instance (r : Rect) (x y : Nat) : Decidable (r.Contains x y) :=
  inferInstanceAs (Decidable (_ ∧ _))

namespace TextArea

variable (u : Unicode) (lay : Layout) (wrapped : Nat → List ByteRange) (scrollbarPadding : Nat)

/-- `wrapped_lines`, for an area of any width. -/
def wrappedLines (width : Nat) : List ByteRange := wrapped (max width 1)

/-- The columns of the text, and whether there is a scrollbar. -/
def contentWidth (areaWidth areaHeight : Nat) : Option (Nat × Bool) :=
  if ¬ lay.showScrollbar ∨ areaWidth ≤ 1 then some (areaWidth, false)
  else if (wrappedLines wrapped areaWidth).length % 65536 > areaHeight then do
    let reserved ← addU16 1 scrollbarPadding
    some (areaWidth - reserved, true)
  else some (areaWidth, false)

def textColumns : Option Nat :=
  (contentWidth lay wrapped scrollbarPadding lay.area.width lay.area.height).map (·.1)

/-- `effective_scroll` in the arithmetic of the source. -/
def effectiveScrollU16 (ta : TextArea) (areaHeight : Nat) (lines : List ByteRange)
    (currentScroll : Nat) : Option Nat :=
  let totalLines := lines.length % 65536
  if areaHeight ≥ totalLines then some 0
  else
    let maxScroll := totalLines - areaHeight
    match lay.scrollOverride with
    | some ovr => some (min ovr maxScroll)
    | none => do
      let cursorLineIdx := (wrappedLineIndexByStart lines ta.cursor).getD 0 % 65536
      let scroll := min currentScroll maxScroll
      if cursorLineIdx < scroll then some cursorLineIdx
      else do
        let bottom ← addU16 scroll areaHeight
        if cursorLineIdx ≥ bottom then do
          let next ← addU16 cursorLineIdx 1
          subU16 next areaHeight
        else some scroll

/-- The outer none is a panic, the inner one a cursor that is not shown. -/
def cursorPosWithState (ta : TextArea) : Option (Option (Nat × Nat)) := do
  let tw ← textColumns lay wrapped scrollbarPadding
  let lines := wrappedLines wrapped tw
  let effectiveScroll ← ta.effectiveScrollU16 lay lay.area.height lines lay.scroll
  match wrappedLineIndexByStart lines ta.cursor with
  | none => some none
  | some i => do
    let ls ← lines[i]?
    let width ← ta.displayWidthOfRange u lay ls.start ta.cursor
    -- at the wrap boundary the cursor goes to the start of the next row
    let (i, col) := if width % 65536 ≥ tw then (i + 1, 0) else (i, width % 65536)
    if i < effectiveScroll ∨ i ≥ effectiveScroll + lay.area.height then some none
    else do
      let x ← addU16 lay.area.x col
      let y ← addU16 lay.area.y ((i - effectiveScroll) % 65536)
      some (some (x, y))

/-! ## The rows -/

/-- Rows in order that begin with the text and cut no character, fewer than 2^16. -/
structure Rows (text : Text) (lines : List ByteRange) : Prop where
  first : ∃ stop, lines.head? = some ⟨0, stop⟩
  sorted : lines.Pairwise fun r r' => r.start ≤ r'.start
  onChars : ∀ r ∈ lines, isCharBoundary text r.start = true
  few : lines.length < 65536

/-- The row that the cursor at the wrap boundary is moved to is in view, whether
the scroll is kept or follows the cursor. -/
def BelowInView (height scroll total idx : Nat) : Prop :=
  if total ≤ height then idx + 1 < height
  else 1 < height ∧ idx + 1 < min scroll (total - height) + height

variable {u lay wrapped scrollbarPadding} {ta : TextArea} {lines : List ByteRange}

theorem Rows.exists_index {text : Text} (h : Rows text lines) (pos : Nat) :
    ∃ i, wrappedLineIndexByStart lines pos = some i ∧ ∃ row, lines[i]? = some row := by
  obtain ⟨stop, hfirst⟩ := h.first
  obtain ⟨rest, rfl⟩ := head?_eq_some_iff.mp hfirst
  have hpos : 0 < ((⟨0, stop⟩ :: rest : List ByteRange).takeWhile fun r =>
      decide (r.start ≤ pos)).length := by
    rw [takeWhile_cons_of_pos (by simp)]
    exact Nat.succ_pos _
  have hle := (takeWhile_sublist (l := (⟨0, stop⟩ :: rest : List ByteRange))
    fun r => decide (r.start ≤ pos)).length_le
  refine ⟨_, ?_, _, getElem?_eq_getElem (Nat.sub_one_lt_of_le hpos hle)⟩
  rw [wrappedLineIndexByStart]
  exact if_neg (Nat.pos_iff_ne_zero.mp hpos)

/-! ## The scroll -/

/-- Without an override the scroll keeps the row of the cursor in view; nothing
overflows. -/
theorem effectiveScrollU16_spec {height i : Nat} (scroll : Nat) (hfree : lay.scrollOverride = none)
    (hfew : lines.length < 65536) (hheight : 1 ≤ height)
    (hi : wrappedLineIndexByStart lines ta.cursor = some i) (hlt : i < lines.length) :
    ∃ s, ta.effectiveScrollU16 lay height lines scroll = some s ∧ s ≤ lines.length - height ∧
      s ≤ i ∧ i < s + height ∧
      (i + 1 < s + height ↔ BelowInView height scroll lines.length i) := by
  have htotal : lines.length % 65536 = lines.length := Nat.mod_eq_of_lt hfew
  have hidx : i % 65536 = i := Nat.mod_eq_of_lt (by omega)
  rw [effectiveScrollU16, BelowInView]
  simp only [htotal, hfree, hi, getD_some, hidx]
  by_cases hfits : height ≥ lines.length
  · rw [if_pos hfits, if_pos hfits]
    exact ⟨0, rfl, by omega, by omega, by omega, by omega⟩
  · rw [if_neg hfits, if_neg hfits]
    by_cases habove : i < min scroll (lines.length - height)
    · rw [if_pos habove]
      exact ⟨i, rfl, by omega, by omega, by omega, by omega⟩
    · rw [if_neg habove, addU16_eq_some (by omega), bind_eq_bind, bind_some]
      by_cases hbelow : i ≥ min scroll (lines.length - height) + height
      · rw [if_pos hbelow, addU16_eq_some (by omega), bind_some,
          subU16_eq_some (by omega)]
        exact ⟨_, rfl, by omega, by omega, by omega, by omega⟩
      · rw [if_neg hbelow]
        exact ⟨_, rfl, by omega, by omega, by omega, by omega⟩

theorem textColumns_le {tw : Nat} (h : textColumns lay wrapped scrollbarPadding = some tw) :
    tw ≤ lay.area.width := by
  obtain ⟨⟨columns, bar⟩, hcontent, rfl⟩ := map_eq_some_iff.mp h
  rw [contentWidth] at hcontent
  split at hcontent
  · cases hcontent
    exact Nat.le_refl _
  · split at hcontent
    · obtain ⟨reserved, -, hsome⟩ := bind_eq_some_iff.mp hcontent
      cases hsome
      exact Nat.sub_le _ _
    · cases hcontent
      exact Nat.le_refl _

/-! ## The cursor -/

/-- The scroll does not overflow nor leave the rows, it is nothing when they fit,
and the cursor is painted inside the area. -/
def CursorShown (u : Unicode) (lay : Layout) (wrapped : Nat → List ByteRange)
    (scrollbarPadding : Nat) (ta : TextArea) : Prop :=
  ∃ tw s x y, textColumns lay wrapped scrollbarPadding = some tw ∧
    ta.effectiveScrollU16 lay lay.area.height (wrappedLines wrapped tw) lay.scroll = some s ∧
    s ≤ (wrappedLines wrapped tw).length - lay.area.height ∧
    ((wrappedLines wrapped tw).length ≤ lay.area.height → s = 0) ∧
    ta.cursorPosWithState u lay wrapped scrollbarPadding = some (some (x, y)) ∧
    lay.area.Contains x y

/-- The cursor is left of the last column of the text, or the row below its own is
in view. -/
def CursorFits (u : Unicode) (lay : Layout) (wrapped : Nat → List ByteRange)
    (scrollbarPadding : Nat) (ta : TextArea) : Prop :=
  ∃ tw i row w, textColumns lay wrapped scrollbarPadding = some tw ∧
    wrappedLineIndexByStart (wrappedLines wrapped tw) ta.cursor = some i ∧
    (wrappedLines wrapped tw)[i]? = some row ∧
    ta.displayWidthOfRange u lay row.start ta.cursor = some w ∧
    (w % 65536 < tw ∨ BelowInView lay.area.height lay.scroll (wrappedLines wrapped tw).length i)

theorem cursor_shown_iff (hchars : ∀ e ∈ ta.elements,
      isCharBoundary ta.text.text e.range.start = true ∧
      isCharBoundary ta.text.text e.range.stop = true)
    (hcursor : isCharBoundary ta.text.text ta.cursor = true)
    (hrows : ∀ width, Rows ta.text.text (wrappedLines wrapped width))
    (hfree : lay.scrollOverride = none)
    (hwidth : 2 ≤ lay.area.width) (hheight : 1 ≤ lay.area.height)
    (hright : lay.area.x + lay.area.width < 65536)
    (hbottom : lay.area.y + lay.area.height < 65536) :
    CursorShown u lay wrapped scrollbarPadding ta ↔ CursorFits u lay wrapped scrollbarPadding ta := by
  cases htw : textColumns lay wrapped scrollbarPadding with
  | none =>
    constructor
    · rintro ⟨tw, _, _, _, hsome, -⟩
      cases htw.symm.trans hsome
    · rintro ⟨tw, _, _, _, hsome, -⟩
      cases htw.symm.trans hsome
  | some tw =>
    have hle := textColumns_le htw
    have hlines : Rows ta.text.text (wrappedLines wrapped tw) := hrows _
    obtain ⟨i, hi, row, hrow⟩ := hlines.exists_index ta.cursor
    obtain ⟨hlt, hget⟩ := List.getElem?_eq_some_iff.mp hrow
    have hstart := hlines.onChars row (mem_of_getElem? hrow)
    obtain ⟨w, hw⟩ := exists_displayWidthOfRange (u := u) lay hchars hstart hcursor
    obtain ⟨s, hs, hsmax, hsi, his, hbelow⟩ :=
      effectiveScrollU16_spec lay.scroll hfree hlines.few hheight hi hlt
    -- the cursor's own row is in view, so only the row below it can be out of view
    have hpos : ta.cursorPosWithState u lay wrapped scrollbarPadding =
        if w % 65536 ≥ tw then
          if i + 1 < s + lay.area.height then some (some (lay.area.x, lay.area.y + (i + 1 - s)))
          else some none
        else some (some (lay.area.x + w % 65536, lay.area.y + (i - s))) := by
      rw [cursorPosWithState]
      simp only [htw, hs, hi, hrow, hw, bind_eq_bind, bind_some]
      have hfew := hlines.few
      by_cases hcol : w % 65536 ≥ tw
      · simp only [if_pos hcol]
        by_cases hin : i + 1 < s + lay.area.height
        · have hrows' : (i + 1 - s) % 65536 = i + 1 - s := Nat.mod_eq_of_lt (by omega)
          rw [if_pos hin, if_neg (by omega), hrows', addU16_eq_some (by omega), bind_some,
            addU16_eq_some (by omega), bind_some, Nat.add_zero]
        · rw [if_neg hin, if_pos (by omega)]
      · simp only [if_neg hcol]
        have hrows' : (i - s) % 65536 = i - s := Nat.mod_eq_of_lt (by omega)
        rw [if_neg (by omega), hrows', addU16_eq_some (by omega), bind_some,
          addU16_eq_some (by omega), bind_some]
    constructor
    · rintro ⟨tw', _, x, y, htw', -, -, -, hshown, -⟩
      obtain rfl := some.inj (htw.symm.trans htw')
      refine ⟨tw, i, row, w, htw, hi, hrow, hw, ?_⟩
      by_contra hnot
      obtain ⟨hcol, hout⟩ := not_or.mp hnot
      rw [hpos, if_pos (by omega), if_neg (fun hin => hout (hbelow.mp hin))] at hshown
      cases hshown
    · rintro ⟨tw', i', row', w', htw', hi', hrow', hw', hfits⟩
      obtain rfl := some.inj (htw.symm.trans htw')
      obtain rfl := some.inj (hi.symm.trans hi')
      obtain rfl := some.inj (hrow.symm.trans hrow')
      obtain rfl := some.inj (hw.symm.trans hw')
      by_cases hcol : w % 65536 ≥ tw
      · have hin := hbelow.mpr (hfits.resolve_left (by omega))
        rw [if_pos hcol, if_pos hin] at hpos
        refine ⟨tw, s, _, _, htw, hs, hsmax, by omega, hpos, ?_⟩
        rw [Rect.Contains]
        omega
      · rw [if_neg hcol] at hpos
        refine ⟨tw, s, _, _, htw, hs, hsmax, by omega, hpos, ?_⟩
        rw [Rect.Contains]
        omega

/-! ## A full row at the bottom -/

/-- A text area with a text, elements and the cursor at a byte of it. -/
def holding (text : Text) (elements : List TextElement) (cursor : Nat) : TextArea :=
  { TextArea.new ⟨0, 0⟩ with text := ⟨text, cursor, ⟨0, 0⟩, 0⟩, elements }

/-- Two letters, on one row where two columns are enough. -/
def wrapTwo (width : Nat) : List ByteRange := if 2 ≤ width then [⟨0, 2⟩] else [⟨0, 1⟩, ⟨1, 2⟩]

/-- Two columns and one row. -/
def smallest : Layout where
  cached := none
  lines := [⟨0, 2⟩]
  textWidth := 2
  displayWidth _ := none
  strWidth := List.length
  preferredCol := none
  area := ⟨0, 0, 2, 1⟩
  scroll := 0
  scrollOverride := none
  showScrollbar := true
  scrollbarDragging := false

theorem cursor_shown_iff_letter : CursorShown (Unicode.ofRule plainRule) smallest wrapTwo 0
    (holding ['a', 'b'] [] 1) := by
  refine (cursor_shown_iff ?_ (by decide) ?_ rfl (by decide) (by decide) (by decide)
    (by decide)).mpr ?_
  · intro e he
    cases he
  · intro width
    rw [wrappedLines, wrapTwo]
    split
    · exact ⟨⟨2, rfl⟩, by decide, by decide, by decide⟩
    · exact ⟨⟨1, rfl⟩, by decide, by decide, by decide⟩
  · exact ⟨2, 0, ⟨0, 2⟩, 1, by decide, by decide, by decide, by decide,
      .inl (by decide)⟩

/-- Behind the second letter the cursor belongs to a row below the area. -/
theorem cursor_behind_full_row : ¬ CursorShown (Unicode.ofRule plainRule) smallest wrapTwo 0
    (holding ['a', 'b'] [] 2) := by
  rintro ⟨_, _, x, y, -, -, -, -, hshown, -⟩
  have hhidden : (holding ['a', 'b'] [] 2).cursorPosWithState (Unicode.ofRule plainRule) smallest
      wrapTwo 0 = some none := by
    decide
  cases hhidden.symm.trans hshown

end TextArea

end GrokBuild.PromptEditor
