import GrokBuild.PromptEditor.Clear
import GrokBuild.PromptEditor.Viewport

/-!
# Clicks on what is drawn

A position is drawn at the display width of its row up to it, and a click walks
the row until it comes to its column. The walk (`displayColLoop`) adds up the
widths of the elements and clusters one by one (`Units`), so the two meet where
the width of the range falls on the unit at the position (`FallsOn`).
-/

namespace GrokBuild.PromptEditor.TextArea

open TextLines Str ByteText List Option

section

variable (u : Unicode) (lay : Layout)

/-- The widths of what stands between two positions of a row that ends at `stop`,
one element or cluster after the other. Behind a cluster that runs over the
border of an element the rest of the element comes next. -/
inductive Units (ta : TextArea) (stop : Nat) : Nat → Nat → List Nat → Prop where
  | nil (p : Nat) : Units ta stop p p []
  | element {p q w : Nat} {ws : List Nat} {e : TextElement} :
    ta.elementAt p = some e → e.range.stop ≤ stop →
      partWidth u lay ta e p e.range.stop = some w →
      Units ta stop e.range.stop q ws → Units ta stop p q (w :: ws)
  | grapheme {p q : Nat} {ws : List Nat} {t g : Text} {gs : List Text} :
    ta.elementAt p = none → slice ta.text.text p stop = some t → u.graphemes t = g :: gs →
      Units ta stop (p + byteLen g) q ws →
      Units ta stop p q (ta.graphemeDisplayWidth lay g :: ws)

/-- The column is on the unit at the position, in the left half of it if it is an
element; or it is on an element that ends at the position, in its right half or
behind the start of it. -/
def FallsOn (ta : TextArea) (row : ByteRange) (p column : Nat) : Prop :=
  (∃ ws q v, Units u lay ta row.stop row.start p ws ∧ Units u lay ta row.stop p q [v] ∧
    ws.sum ≤ column ∧ column < ws.sum + v ∧
    (ta.elementAt p ≠ none → 2 * (column - ws.sum) ≤ v)) ∨
  ∃ ws r e v, Units u lay ta row.stop row.start r ws ∧ ta.elementAt r = some e ∧
    e.range.stop = p ∧ partWidth u lay ta e r p = some v ∧
    ws.sum ≤ column ∧ column < ws.sum + v ∧ (r = e.range.start → v < 2 * (column - ws.sum))

/-- A row that ends and begins between clusters, and not in an element. -/
structure Uncut (ta : TextArea) (row : ByteRange) : Prop where
  forward : row.start ≤ row.stop
  start : IsBoundary u ta.text.text row.start
  stop : IsBoundary u ta.text.text row.stop
  startOutside : ∀ e ∈ ta.elements, ¬ Span.Inside row.start e.range
  stopOutside : ∀ e ∈ ta.elements, ¬ Span.Inside row.stop e.range

/-- The outer none is a panic, the inner one a position that is not shown. -/
def screenPositionOf (ta : TextArea) (pos : Nat) : Option (Option (Nat × Nat)) := do
  let effectiveScroll ← ta.effectiveScrollU16 lay lay.area.height lay.lines lay.scroll
  match wrappedLineIndexByStart lay.lines pos with
  | none => some none
  | some i => do
    let ls ← lay.lines[i]?
    let width ← ta.displayWidthOfRange u lay ls.start pos
    if i < effectiveScroll ∨ i ≥ effectiveScroll + lay.area.height then some none
    else do
      let x ← addU16 lay.area.x (width % 65536)
      let y ← addU16 lay.area.y ((i - effectiveScroll) % 65536)
      some (some (x, y))

/-- `buffer_pos_at_screen` in the arithmetic of the source. -/
def bufferPosAtScreenU16 (ta : TextArea) (col row : Nat) : Option (Option Nat) :=
  if col < lay.area.x then some none
  else do
    let right ← addU16 lay.area.x lay.area.width
    if col ≥ right ∨ row < lay.area.y then some none
    else do
      let bottom ← addU16 lay.area.y lay.area.height
      if row ≥ bottom then some none
      else do
        let scroll ← ta.effectiveScrollU16 lay lay.area.height lay.lines lay.scroll
        let hit ← ta.bufferPosOnLine u lay (row - lay.area.y + scroll) (col - lay.area.x)
        some (some hit.1)

end

variable {u : Unicode} {lay : Layout} {ta : TextArea} {stop p q r target width fuel v w : Nat}
  {ws : List Nat} {t g : Text} {gs : List Text} {e : TextElement} {row : ByteRange}

/-! ## Units -/

theorem Units.trans {ws' : List Nat} (h : Units u lay ta stop p q ws)
    (h' : Units u lay ta stop q r ws') : Units u lay ta stop p r (ws ++ ws') := by
  induction h with
  | nil p => exact h'
  | element helem hle hwidth hrest ih => exact .element helem hle hwidth (ih h')
  | grapheme hnone hslice hg hrest ih => exact .grapheme hnone hslice hg (ih h')

theorem byteLen_pos_of_graphemes (h : u.graphemes t = g :: gs) : 0 < byteLen g :=
  ByteText.byteLen_pos (u.ne_nil_of_mem (h ▸ mem_cons_self))

theorem lt_of_slice_graphemes (hslice : slice ta.text.text p stop = some t)
    (hg : u.graphemes t = g :: gs) : p < stop := by
  obtain ⟨pre, post, -, rfl, rfl⟩ := append_of_slice hslice
  have hpos := byteLen_pos_of_graphemes hg
  have hflatten := congrArg byteLen (u.flatten_graphemes t)
  rw [hg, flatten_cons, byteLen_append] at hflatten
  omega

theorem Units.lt_stop (h : Units u lay ta stop p q [v]) : p < stop := by
  cases h with
  | element helem hle hw hrest =>
    obtain ⟨-, -, hlt⟩ := elementAt_eq_some helem
    omega
  | grapheme hnone hslice hg hrest => exact lt_of_slice_graphemes hslice hg

/-! ## The walk to a column -/

theorem clampPos_eq (hout : ∀ e ∈ ta.elements, ¬ Span.Inside p e.range)
    (hle : p ≤ byteLen ta.text.text) : ta.clampPosToNearestBoundary p = p := by
  have hnone : ta.elements.find? (fun e => decide (Span.Inside p e.range)) = none := by
    rw [find?_eq_none]
    intro e he
    rw [decide_eq_true_eq]
    exact hout e he
  rw [clampPosToNearestBoundary]
  simp only [Nat.min_eq_left hle, hnone]

theorem not_inside_of_elementAt (hnone : ta.elementAt p = none) :
    ∀ e ∈ ta.elements, ¬ Span.Inside p e.range := by
  rintro e he ⟨hstart, hstop⟩
  have hnot := find?_eq_none.mp hnone e he
  rw [decide_eq_true_eq] at hnot
  exact hnot ⟨by omega, hstop⟩

theorem displayColLoop_end (hle : stop ≤ byteLen ta.text.text)
    (hout : ∀ e ∈ ta.elements, ¬ Span.Inside stop e.range) (hend : ¬ p < stop) :
    ta.displayColLoop u lay stop target fuel p width = some (stop, false) := by
  cases fuel with
  | zero => rw [displayColLoop, clampPos_eq hout hle]
  | succ fuel => rw [displayColLoop, if_neg hend, clampPos_eq hout hle]

theorem displayColLoop_element (helem : ta.elementAt p = some e) (hle : e.range.stop ≤ stop) :
    ta.displayColLoop u lay stop target (fuel + 1) p width =
      (partWidth u lay ta e p e.range.stop).bind fun w =>
        if width + w > target then
          some (if p = e.range.start ∧ 2 * (target - width) ≤ w then p else e.range.stop, true)
        else ta.displayColLoop u lay stop target fuel e.range.stop (width + w) := by
  obtain ⟨-, -, hlt⟩ := elementAt_eq_some helem
  rw [displayColLoop, if_pos (by omega), helem]
  dsimp only
  rw [Nat.min_eq_left hle, partWidth]
  by_cases hstart : p = e.range.start
  · have hhalf : ∀ w, (target - width ≤ w - (target - width)) ↔
        (p = e.range.start ∧ 2 * (target - width) ≤ w) := fun w => by omega
    rw [if_pos hstart]
    cases lay.displayWidth e with
    | none => simp only [bind_eq_bind, hhalf, ← hstart]
    | some w => simp only [bind_eq_bind, hhalf, ← hstart, if_true]
  · have hright : ∀ w, ¬ (p = e.range.start ∧ 2 * (target - width) ≤ w) := fun w h => hstart h.1
    rw [if_neg hstart]
    cases lay.displayWidth e with
    | none => simp only [bind_eq_bind, if_neg (hright _)]
    | some w => simp only [bind_eq_bind, if_neg hstart, if_neg (hright _)]

theorem displayColLoop_grapheme (hle : stop ≤ byteLen ta.text.text) (hnone : ta.elementAt p = none)
    (hslice : slice ta.text.text p stop = some t) (hg : u.graphemes t = g :: gs) :
    ta.displayColLoop u lay stop target (fuel + 1) p width =
      if width + ta.graphemeDisplayWidth lay g > target then some (p, false)
      else ta.displayColLoop u lay stop target fuel (p + byteLen g)
        (width + ta.graphemeDisplayWidth lay g) := by
  have hlt := lt_of_slice_graphemes hslice hg
  rw [displayColLoop, if_pos hlt, hnone]
  simp only [hslice, bind_eq_bind, bind_some, hg,
    clampPos_eq (not_inside_of_elementAt hnone) (show p ≤ _ by omega)]

theorem displayColLoop_units (hbytes : stop ≤ byteLen ta.text.text)
    (h : Units u lay ta stop p q ws) (hle : width + ws.sum ≤ target) (hfuel : stop - p ≤ fuel) :
    ∃ fuel', stop - q ≤ fuel' ∧ ta.displayColLoop u lay stop target fuel p width =
      ta.displayColLoop u lay stop target fuel' q (width + ws.sum) := by
  induction h generalizing width fuel with
  | nil p => exact ⟨fuel, hfuel, rfl⟩
  | @element p q w ws e helem hstop hw hrest ih =>
    obtain ⟨-, -, hlt⟩ := elementAt_eq_some helem
    rw [sum_cons] at hle ⊢
    obtain ⟨fuel, rfl⟩ := Nat.exists_eq_succ_of_ne_zero (show fuel ≠ 0 by omega)
    obtain ⟨fuel', hfuel', hloop⟩ := ih (show width + w + ws.sum ≤ target by omega)
      (show stop - e.range.stop ≤ fuel by omega)
    refine ⟨fuel', hfuel', ?_⟩
    rw [displayColLoop_element helem hstop, hw, bind_some, if_neg (by omega), hloop, Nat.add_assoc]
  | @grapheme p q ws t g gs hnone hslice hg hrest ih =>
    have hlt := lt_of_slice_graphemes hslice hg
    have hpos := byteLen_pos_of_graphemes hg
    rw [sum_cons] at hle ⊢
    obtain ⟨fuel, rfl⟩ := Nat.exists_eq_succ_of_ne_zero (show fuel ≠ 0 by omega)
    obtain ⟨fuel', hfuel', hloop⟩ := ih
      (show width + ta.graphemeDisplayWidth lay g + ws.sum ≤ target by omega)
      (show stop - (p + byteLen g) ≤ fuel by omega)
    refine ⟨fuel', hfuel', ?_⟩
    rw [displayColLoop_grapheme hbytes hnone hslice hg, if_neg (by omega), hloop, Nat.add_assoc]

/-! ## Where a column leads back to -/

theorem fallsOn_of_displayColLoop (hbytes : row.stop ≤ byteLen ta.text.text)
    (hstop : ∀ e ∈ ta.elements, ¬ Span.Inside row.stop e.range) (hp : p < row.stop) {hit : Bool}
    (h : Units u lay ta row.stop row.start r ws) (hle : ws.sum ≤ target)
    (hloop : ta.displayColLoop u lay row.stop target fuel r ws.sum = some (p, hit)) :
    FallsOn u lay ta row p target := by
  -- the walk has come to `r`, and the units up to there are on the left of the column
  induction fuel generalizing r ws with
  | zero =>
    rw [displayColLoop, clampPos_eq hstop hbytes] at hloop
    cases hloop
    omega
  | succ fuel ih =>
    by_cases hend : r < row.stop
    · cases helem : ta.elementAt r with
      | some e =>
        obtain ⟨he, hstart, hlt⟩ := elementAt_eq_some helem
        have hin := hstop e he
        rw [Span.Inside] at hin
        have hestop : e.range.stop ≤ row.stop := by omega
        rw [displayColLoop_element helem hestop] at hloop
        obtain ⟨w, hw, hloop⟩ := bind_eq_some_iff.mp hloop
        split at hloop
        · by_cases hleft : r = e.range.start ∧ 2 * (target - ws.sum) ≤ w
          · rw [if_pos hleft] at hloop
            cases hloop
            exact .inl ⟨ws, _, w, h, .element helem hestop hw (.nil _), hle, by omega,
              fun _ => hleft.2⟩
          · rw [if_neg hleft] at hloop
            cases hloop
            exact .inr ⟨ws, r, e, w, h, helem, rfl, hw, hle, by omega, fun hr => by omega⟩
        · have hnext := h.trans (.element helem hestop hw (.nil _))
          apply ih hnext
          · rw [sum_append, sum_singleton]
            omega
          · rwa [sum_append, sum_singleton]
      | none =>
        cases hslice : slice ta.text.text r row.stop with
        | none =>
          rw [displayColLoop, if_pos hend, helem] at hloop
          simp only [hslice, bind_eq_bind, bind_none] at hloop
          cases hloop
        | some t =>
          cases hg : u.graphemes t with
          | nil =>
            -- no text up to the end of the row
            have hflatten := u.flatten_graphemes t
            obtain ⟨pre, post, -, rfl, hrow⟩ := append_of_slice hslice
            rw [hg, flatten_nil] at hflatten
            rw [← hflatten, byteLen_nil] at hrow
            omega
          | cons g gs =>
            rw [displayColLoop_grapheme hbytes helem hslice hg] at hloop
            split at hloop
            · cases hloop
              exact .inl ⟨ws, _, _, h, .grapheme helem hslice hg (.nil _), hle, by omega,
                fun hne => absurd helem hne⟩
            · have hnext := h.trans (.grapheme helem hslice hg (.nil _))
              apply ih hnext
              · rw [sum_append, sum_singleton]
                omega
              · rwa [sum_append, sum_singleton]
    · rw [displayColLoop_end hbytes hstop hend] at hloop
      cases hloop
      omega

/-- On a row the walk to a column comes back to the position exactly where the
column falls on it. -/
theorem displayCol_iff (hbytes : row.stop ≤ byteLen ta.text.text)
    (hstop : ∀ e ∈ ta.elements, ¬ Span.Inside row.stop e.range) (hp : p < row.stop)
    (hout : ∀ e ∈ ta.elements, ¬ Span.Inside p e.range) :
    (∃ hit, ta.displayColToBufferPos u lay row.start row.stop target = some (p, hit)) ↔
      FallsOn u lay ta row p target := by
  rw [displayColToBufferPos]
  constructor
  · rintro ⟨hit, hloop⟩
    have hnil : Units u lay ta row.stop row.start row.start [] := .nil _
    exact fallsOn_of_displayColLoop hbytes hstop hp hnil (Nat.zero_le _) hloop
  · rintro (⟨ws, q, v, h, hunit, hle, hon, hleft⟩ |
      ⟨ws, r, e, v, h, helem, rfl, hw, hle, hon, hright⟩)
    · obtain ⟨fuel, hfuel, hwalk⟩ := displayColLoop_units hbytes h
        (show 0 + ws.sum ≤ target by omega) (Nat.le_refl _)
      obtain ⟨fuel, rfl⟩ := Nat.exists_eq_succ_of_ne_zero (show fuel ≠ 0 by omega)
      rw [hwalk, Nat.zero_add]
      cases hunit with
      | element helem hestop hw hrest =>
        obtain ⟨he, hstart, hlt⟩ := elementAt_eq_some helem
        have hin := hout _ he
        rw [Span.Inside] at hin
        have hhalf := hleft (by rw [helem]; exact some_ne_none _)
        rw [displayColLoop_element helem hestop, hw, bind_some, if_pos hon,
          if_pos ⟨by omega, hhalf⟩]
        exact ⟨true, rfl⟩
      | grapheme hnone hslice hg hrest =>
        rw [displayColLoop_grapheme hbytes hnone hslice hg, if_pos hon]
        exact ⟨false, rfl⟩
    · obtain ⟨-, -, hlt⟩ := elementAt_eq_some helem
      obtain ⟨fuel, hfuel, hwalk⟩ := displayColLoop_units hbytes h
        (show 0 + ws.sum ≤ target by omega) (Nat.le_refl _)
      obtain ⟨fuel, rfl⟩ := Nat.exists_eq_succ_of_ne_zero (show fuel ≠ 0 by omega)
      rw [hwalk, Nat.zero_add, displayColLoop_element helem hp.le, hw, bind_some, if_pos hon,
        if_neg (fun h => by have := hright h.1; omega)]
      exact ⟨true, rfl⟩

/-- A click where a position is drawn selects it exactly where the drawn column
falls on it. -/
theorem click_where_drawn_iff {i x y : Nat} (hout : ∀ e ∈ ta.elements, ¬ Span.Inside p e.range)
    (hi : wrappedLineIndexByStart lay.lines p = some i) (hrow : lay.lines[i]? = some row)
    (huncut : Uncut u ta row) (hnext : Units u lay ta row.stop p q [v])
    (hright : lay.area.x + lay.area.width < 65536) (hbottom : lay.area.y + lay.area.height < 65536)
    (hshown : ta.screenPositionOf u lay p = some (some (x, y)))
    (hx : x < lay.area.x + lay.area.width) :
    ta.bufferPosAtScreenU16 u lay x y = some (some p) ↔
      ∃ w, ta.displayWidthOfRange u lay row.start p = some w ∧ FallsOn u lay ta row p (w % 65536) := by
  have hp := hnext.lt_stop
  have hbytes := huncut.stop.le_byteLen
  -- where the position is drawn
  rw [screenPositionOf] at hshown
  obtain ⟨scroll, hscroll, hshown⟩ := bind_eq_some_iff.mp hshown
  simp only [hi, hrow, bind_eq_bind, bind_some] at hshown
  obtain ⟨w, hw, hshown⟩ := bind_eq_some_iff.mp hshown
  split at hshown
  · cases hshown
  · rename_i hvisible
    rw [not_or] at hvisible
    have hfew : (i - scroll) % 65536 = i - scroll := Nat.mod_eq_of_lt (by omega)
    rw [hfew] at hshown
    obtain ⟨x', hx', hshown⟩ := bind_eq_some_iff.mp hshown
    rw [addU16_eq_some (by omega), bind_some] at hshown
    obtain ⟨rfl, rfl⟩ := Prod.mk.inj (some.inj (some.inj hshown))
    obtain rfl : lay.area.x + w % 65536 = x' := by
      rw [addU16] at hx'
      split at hx'
      · exact some.inj hx'
      · cases hx'
    -- the same row and column are clicked
    have hclick : ta.bufferPosAtScreenU16 u lay (lay.area.x + w % 65536)
        (lay.area.y + (i - scroll)) =
          (ta.displayColToBufferPos u lay row.start row.stop (w % 65536)).bind fun hit =>
            some (some hit.1) := by
      have hrowIdx : lay.area.y + (i - scroll) - lay.area.y + scroll = i := by omega
      rw [bufferPosAtScreenU16, if_neg (by omega), addU16_eq_some hright, addU16_eq_some hbottom,
        hscroll]
      simp only [bind_eq_bind, bind_some]
      rw [if_neg (by omega), if_neg (by omega), hrowIdx, Nat.add_sub_cancel_left, bufferPosOnLine,
        hrow]
      simp only [Nat.min_eq_left hbytes]
    rw [hclick, hw]
    constructor
    · intro hpos
      obtain ⟨⟨p', hit⟩, hcol, hpos⟩ := bind_eq_some_iff.mp hpos
      obtain rfl := some.inj (some.inj hpos)
      exact ⟨w, rfl, (displayCol_iff hbytes huncut.stopOutside hp hout).mp ⟨hit, hcol⟩⟩
    · rintro ⟨w', hw', hlands⟩
      obtain rfl := some.inj hw'
      obtain ⟨hit, hcol⟩ :=
        (displayCol_iff hbytes huncut.stopOutside hp hout).mpr hlands
      rw [hcol, bind_some]

/-! ## An accent in front of an element -/

/-- An accent stays with the letter in front of it. -/
def accentRule (_ d : Char) : Bool := d != '\u0301'

/-- Letters are one column wide. -/
def accentWidth (text : Text) : Nat := (text.filter fun c => c != '\u0301').length

/-- Six columns and one row; elements are drawn in one column. -/
def accents : Layout :=
  { smallest with
    lines := [⟨0, 6⟩], textWidth := 6, displayWidth := fun _ => some 1, strWidth := accentWidth,
    area := ⟨0, 0, 6, 1⟩ }

/-- The element begins with the accent on the letter in front of it. -/
def accented : TextArea :=
  holding ['e', '\u0301', 'a', 'b', 'x'] [⟨0, ⟨1, 5⟩, 0⟩] 0

/-- Behind the element a letter is drawn in the third column. The walk comes into the element with
the first cluster, and goes to the end of it from there. -/
theorem click_where_drawn_iff_letter :
    accented.bufferPosAtScreenU16 (Unicode.ofRule accentRule) accents 2 0 = some (some 5) := by
  have hnext : Units (Unicode.ofRule accentRule) accents accented 6 5 6 [1] :=
    .grapheme rfl (t := ['x']) (g := ['x']) (by decide) rfl (.nil 6)
  have hfirst : Units (Unicode.ofRule accentRule) accents accented 6 0 3 [1] :=
    .grapheme rfl (t := ['e', '\u0301', 'a', 'b', 'x']) (g := ['e', '\u0301']) (by decide)
      (show _ = ['e', '\u0301'] :: [['a'], ['b'], ['x']] by decide) (.nil 3)
  have hout : ∀ q, q = 0 ∨ q = 5 ∨ q = 6 → ∀ e ∈ accented.elements, ¬ Span.Inside q e.range := by
    intro q hq e he
    obtain rfl := mem_singleton.mp he
    rw [Span.Inside]
    dsimp only
    omega
  refine (click_where_drawn_iff (i := 0) (hout 5 (by decide)) (by decide) rfl ?_ hnext (by decide)
    (by decide) (by decide) (by decide)).mpr ?_
  · exact ⟨by decide, isGraphemeBoundary_iff.mp (by decide), isGraphemeBoundary_iff.mp (by decide),
      hout 0 (by decide), hout 6 (by decide)⟩
  · refine ⟨2, by decide, .inr ⟨[1], 3, ⟨0, ⟨1, 5⟩, 0⟩, 2, hfirst, by decide, rfl, ?_⟩⟩
    decide

/-! ## A ligature -/

/-- Characters are one column wide, and lam and alef together as well. -/
def ligatureWidth : Text → Nat
  | 'ل' :: 'ا' :: t => ligatureWidth t + 1
  | _ :: t => ligatureWidth t + 1
  | [] => 0

/-- Four columns and one row, with the ligature. -/
def ligatures : Layout :=
  { smallest with lines := [⟨0, 5⟩], textWidth := 4, strWidth := ligatureWidth, area := ⟨0, 0, 4, 1⟩ }

/-- Behind the ligature the letter is drawn in the second column, and the click
there selects the alef. -/
theorem click_behind_ligature :
    IsBoundary (Unicode.ofRule plainRule) ['ل', 'ا', 'x'] 4 ∧
    Units (Unicode.ofRule plainRule) ligatures (holding ['ل', 'ا', 'x'] [] 0) 5 4 5 [1] ∧
    (holding ['ل', 'ا', 'x'] [] 0).screenPositionOf (Unicode.ofRule plainRule) ligatures 4 =
      some (some (1, 0)) ∧
    (holding ['ل', 'ا', 'x'] [] 0).bufferPosAtScreenU16 (Unicode.ofRule plainRule) ligatures 1 0 ≠
      some (some 4) := by
  refine ⟨isGraphemeBoundary_iff.mp (by decide), ?_, by decide, by decide⟩
  exact .grapheme rfl (t := ['x']) (g := ['x']) (by decide) rfl (.nil 5)

end GrokBuild.PromptEditor.TextArea
