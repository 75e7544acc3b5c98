import GrokBuild.PromptEditor.Screen

/-!
# Widths of ranges

The display width of a range is read element by element, with the plain text in
front of each: one round of the loop (`displayWidthLoop_cons`), and that it
slices no character (`exists_displayWidthOfRange`).
-/

namespace GrokBuild.PromptEditor.TextArea

open TextLines Str ByteText Option

variable {u : Unicode} {lay : Layout} {ta : TextArea} {stop pos width : Nat} {e : TextElement}
  {rest : List TextElement}

/-- The width of what an element has in a range from `start` to `stop`. -/
def partWidth (u : Unicode) (lay : Layout) (ta : TextArea) (e : TextElement) (start stop : Nat) :
    Option Nat :=
  match lay.displayWidth e with
  | some w => if start = e.range.start then some w else ta.plainWidthAt u lay start stop
  | none => ta.plainWidthAt u lay start stop

theorem displayWidthLoop_cons {plainEnd : Nat}
    (hplainEnd : (if pos < e.range.start then min e.range.start stop else pos) = plainEnd) :
    ta.displayWidthLoop u lay stop (e :: rest) pos width =
      if e.range.start ≥ stop then some (pos, width)
      else if e.range.stop ≤ pos then ta.displayWidthLoop u lay stop rest pos width
      else
        (if pos < e.range.start then ta.plainWidthAt u lay pos plainEnd else some 0).bind fun plain =>
          if plainEnd ≥ stop then some (plainEnd, width + plain)
          else if max e.range.start plainEnd < min e.range.stop stop then
            (partWidth u lay ta e (max e.range.start plainEnd) (min e.range.stop stop)).bind fun w =>
              ta.displayWidthLoop u lay stop rest (min e.range.stop stop) (width + plain + w)
          else ta.displayWidthLoop u lay stop rest plainEnd (width + plain) := by
  rw [displayWidthLoop, partWidth]
  dsimp only
  simp only [hplainEnd, bind_eq_bind]
  by_cases hlt : pos < e.range.start
  · cases lay.displayWidth e with
    | none => simp only [if_pos hlt]
    | some w =>
      by_cases hat : max e.range.start plainEnd = e.range.start
      · simp only [if_pos hlt, if_pos hat]
      · simp only [if_pos hlt, if_neg hat]
  · cases lay.displayWidth e with
    | none => simp only [if_neg hlt]
    | some w =>
      by_cases hat : max e.range.start plainEnd = e.range.start
      · simp only [if_neg hlt, if_pos hat]
      · simp only [if_neg hlt, if_neg hat]

/-! ## Slices -/

variable (lay) in
theorem exists_plainWidthAt {start : Nat} (hle : start ≤ stop)
    (hstart : isCharBoundary ta.text.text start = true)
    (hstop : isCharBoundary ta.text.text stop = true) :
    ∃ w, ta.plainWidthAt u lay start stop = some w := by
  obtain ⟨m, hm⟩ := exists_slice hle hstart hstop
  exact ⟨_, by rw [plainWidthAt, hm]; rfl⟩

theorem exists_partWidth {start : Nat} (hle : start ≤ stop)
    (hstart : isCharBoundary ta.text.text start = true)
    (hstop : isCharBoundary ta.text.text stop = true) :
    ∃ w, partWidth u lay ta e start stop = some w := by
  have hplain := exists_plainWidthAt (u := u) lay hle hstart hstop
  rw [partWidth]
  cases lay.displayWidth e with
  | none => exact hplain
  | some w =>
    dsimp only
    split
    · exact ⟨w, rfl⟩
    · exact hplain

theorem isCharBoundary_min {text : Text} {a b : Nat} (ha : isCharBoundary text a = true)
    (hb : isCharBoundary text b = true) : isCharBoundary text (min a b) = true := by
  rcases Nat.le_total a b with hle | hle
  · rwa [Nat.min_eq_left hle]
  · rwa [Nat.min_eq_right hle]

theorem exists_displayWidthLoop (hstop : isCharBoundary ta.text.text stop = true)
    (hchars : ∀ e ∈ rest, isCharBoundary ta.text.text e.range.start = true ∧
      isCharBoundary ta.text.text e.range.stop = true) (hle : pos ≤ stop)
    (hpos : isCharBoundary ta.text.text pos = true) :
    ∃ pos' width', ta.displayWidthLoop u lay stop rest pos width = some (pos', width') ∧
      isCharBoundary ta.text.text pos' = true := by
  induction rest generalizing pos width with
  | nil => exact ⟨pos, width, rfl, hpos⟩
  | cons elem rest ih =>
    obtain ⟨⟨helemStart, helemStop⟩, hchars'⟩ := List.forall_mem_cons.mp hchars
    -- up to where the plain text in front goes
    obtain ⟨plainEnd, hplainEnd, hbetween, hboundary⟩ : ∃ plainEnd,
        (if pos < elem.range.start then min elem.range.start stop else pos) = plainEnd ∧
          (pos ≤ plainEnd ∧ plainEnd ≤ stop) ∧ isCharBoundary ta.text.text plainEnd = true := by
      by_cases hlt : pos < elem.range.start
      · exact ⟨_, if_pos hlt, by omega, isCharBoundary_min helemStart hstop⟩
      · exact ⟨_, if_neg hlt, by omega, hpos⟩
    obtain ⟨plain, hplain⟩ : ∃ plain, (if pos < elem.range.start
        then ta.plainWidthAt u lay pos plainEnd else some 0) = some plain := by
      split
      · exact exists_plainWidthAt _ hbetween.1 hpos hboundary
      · exact ⟨0, rfl⟩
    rw [displayWidthLoop_cons hplainEnd, hplain, bind_some]
    split
    · exact ⟨pos, width, rfl, hpos⟩
    · split
      · exact ih hchars' hle hpos
      · split
        · exact ⟨plainEnd, _, rfl, hboundary⟩
        · split
          · rename_i hpart
            have hstart : isCharBoundary ta.text.text (max elem.range.start plainEnd) = true := by
              rcases Nat.le_total elem.range.start plainEnd with hle | hle
              · rwa [Nat.max_eq_right hle]
              · rwa [Nat.max_eq_left hle]
            have hend := isCharBoundary_min helemStop hstop
            obtain ⟨w, hw⟩ := exists_partWidth (u := u) (e := elem) hpart.le hstart hend
            rw [hw, bind_some]
            exact ih hchars' (Nat.min_le_right _ _) hend
          · exact ih hchars' hbetween.2 hboundary

variable (lay) in
theorem exists_displayWidthOfRange (hchars : ∀ e ∈ ta.elements,
      isCharBoundary ta.text.text e.range.start = true ∧
      isCharBoundary ta.text.text e.range.stop = true)
    (hpos : isCharBoundary ta.text.text pos = true)
    (hstop : isCharBoundary ta.text.text stop = true) :
    ∃ w, ta.displayWidthOfRange u lay pos stop = some w := by
  rw [displayWidthOfRange]
  split
  · exact ⟨0, rfl⟩
  · obtain ⟨pos', width, hloop, hpos'⟩ :=
      exists_displayWidthLoop (u := u) hstop hchars (by omega) hpos
    rw [hloop, bind_eq_bind, bind_some]
    dsimp only
    split
    · rename_i hlt
      obtain ⟨w, hw⟩ := exists_plainWidthAt (u := u) _ hlt.le hpos' hstop
      exact ⟨width + w, by rw [hw, bind_eq_bind, bind_some]⟩
    · exact ⟨width, rfl⟩

end GrokBuild.PromptEditor.TextArea
