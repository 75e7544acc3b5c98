import GrokBuild.PromptEditor.Edits

/-!
# Prompt elements stay whole

The invariant of the element list and what one operation does to it. An edit is
planned around the normalised ranges of the elements, so it swallows an element
or leaves it alone (`plan_respects`); `shiftElements` then moves the ones left
alone exactly as the edit moves their bytes (`whole_shift`, `slice_shift`). The
history only ever holds states that were whole, and ids in it are below the next
one, so a restored state is whole too.
-/

namespace GrokBuild.PromptEditor

open TextLines Str ByteText List

/-- The elements are ordered, disjoint ranges of whole characters of the text,
each with an id of its own. -/
structure Whole (text : Text) (elements : List TextElement) : Prop where
  sorted : elements.Pairwise fun a b => a.range.start ≤ b.range.start
  disjoint : elements.Pairwise fun a b =>
    a.range.stop ≤ b.range.start ∨ b.range.stop ≤ a.range.start
  inside : ∀ e ∈ elements, e.range.start ≤ e.range.stop ∧ e.range.stop ≤ byteLen text
  onChars : ∀ e ∈ elements,
    isCharBoundary text e.range.start = true ∧ isCharBoundary text e.range.stop = true
  unique : (elements.map (·.id)).Nodup

theorem whole_nil (text : Text) : Whole text [] := by
  constructor <;> simp

theorem Whole.exists_slice {text : Text} {elements : List TextElement} (h : Whole text elements)
    {e : TextElement} (he : e ∈ elements) :
    ∃ m, slice text e.range.start e.range.stop = some m :=
  ByteText.exists_slice (h.inside e he).1 (h.onChars e he).1 (h.onChars e he).2

theorem Whole.sublist {text : Text} {elements fewer : List TextElement} (h : Whole text elements)
    (hsub : fewer.Sublist elements) : Whole text fewer where
  sorted := h.sorted.sublist hsub
  disjoint := h.disjoint.sublist hsub
  inside e he := h.inside e (hsub.subset he)
  onChars e he := h.onChars e (hsub.subset he)
  unique := h.unique.sublist (hsub.map _)

namespace TextArea

/-! ## Shifting -/

section Shift

variable {start stop inserted : Nat} {r : ByteRange}

/-- An element the edit leaves alone ends before it, and stays where it is, or
begins after it, and moves by the difference in length. -/
theorem shiftRange_cases (inserted : Nat) (hle : start ≤ stop)
    (hresp : Span.Respects ⟨start, stop⟩ r) (hkeep : ¬ (start ≤ r.start ∧ r.stop ≤ stop)) :
    (r.stop ≤ start ∧ (r.start ≤ r.stop → r.start < start) ∧ shiftRange start stop inserted r = r) ∨
      (stop ≤ r.start ∧ stop < r.stop ∧ shiftRange start stop inserted r =
        ⟨r.start - (stop - start) + inserted, r.stop - (stop - start) + inserted⟩) := by
  unfold shiftRange
  simp only [Span.Respects] at hresp
  rcases hresp with h | h | h
  · exact Or.inl ⟨h, by omega, if_pos h⟩
  · refine Or.inr ⟨h, by omega, ?_⟩
    simp only
    rw [if_neg (by omega), if_pos h]
    congr 1 <;> omega
  · exact absurd h hkeep

variable {pre removed post replacement : Text} {elements : List TextElement}

theorem slice_shift (hresp : Span.Respects ⟨byteLen pre, byteLen pre + byteLen removed⟩ r)
    (hkeep : ¬ (byteLen pre ≤ r.start ∧ r.stop ≤ byteLen pre + byteLen removed)) {x : Text}
    (h : slice (pre ++ removed ++ post) r.start r.stop = some x) :
    slice (pre ++ replacement ++ post)
      (shiftRange (byteLen pre) (byteLen pre + byteLen removed) (byteLen replacement) r).start
      (shiftRange (byteLen pre) (byteLen pre + byteLen removed) (byteLen replacement) r).stop =
        some x := by
  rcases shiftRange_cases (byteLen replacement) (by omega) hresp hkeep with
    ⟨hstop, -, heq⟩ | ⟨hstart, -, heq⟩
  · rw [heq]
    exact slice_before replacement hstop h
  · rw [heq]
    simpa using slice_after replacement hstart h

theorem not_swallowed {e : TextElement}
    (h : (!(e.range.start ≥ start && e.range.stop ≤ stop)) = true) :
    ¬ (start ≤ e.range.start ∧ e.range.stop ≤ stop) := by
  intro hin
  simp [hin] at h

theorem mem_shiftElements {e' : TextElement}
    (h : e' ∈ shiftElements start stop inserted elements) :
    ∃ e ∈ elements, ¬ (start ≤ e.range.start ∧ e.range.stop ≤ stop) ∧
      e' = { e with range := shiftRange start stop inserted e.range } := by
  obtain ⟨e, he, rfl⟩ := List.mem_map.mp h
  obtain ⟨he, hkeep⟩ := mem_filter.mp he
  exact ⟨e, he, not_swallowed hkeep, rfl⟩

theorem ids_shiftElements (start stop inserted : Nat) (elements : List TextElement) :
    ((shiftElements start stop inserted elements).map (·.id)).Sublist (elements.map (·.id)) := by
  unfold shiftElements
  rw [List.map_map]
  exact filter_sublist.map fun e : TextElement => e.id

theorem pairwise_shiftElements {R S : TextElement → TextElement → Prop}
    (h : elements.Pairwise R)
    (hRS : ∀ a ∈ elements, ∀ b ∈ elements,
      ¬ (start ≤ a.range.start ∧ a.range.stop ≤ stop) →
      ¬ (start ≤ b.range.start ∧ b.range.stop ≤ stop) → R a b →
      S { a with range := shiftRange start stop inserted a.range }
        { b with range := shiftRange start stop inserted b.range }) :
    (shiftElements start stop inserted elements).Pairwise S := by
  unfold shiftElements
  refine pairwise_map.mpr ((h.filter _).imp_of_mem ?_)
  intro a b ha hb hab
  obtain ⟨ha, hka⟩ := mem_filter.mp ha
  obtain ⟨hb, hkb⟩ := mem_filter.mp hb
  exact hRS a ha b hb (not_swallowed hka) (not_swallowed hkb) hab

theorem whole_shift (replacement : Text) (h : Whole (pre ++ removed ++ post) elements)
    (hresp : ∀ e ∈ elements,
      Span.Respects ⟨byteLen pre, byteLen pre + byteLen removed⟩ e.range) :
    Whole (pre ++ replacement ++ post)
      (shiftElements (byteLen pre) (byteLen pre + byteLen removed) (byteLen replacement) elements) ∧
    ∀ e ∈ shiftElements (byteLen pre) (byteLen pre + byteLen removed) (byteLen replacement) elements,
      e.range.stop ≤ byteLen pre ∨ byteLen pre + byteLen replacement ≤ e.range.start := by
  have hcases := fun e (he : e ∈ elements) hkeep =>
    shiftRange_cases (byteLen replacement) (Nat.le_add_right (byteLen pre)
      (byteLen removed)) (hresp e he) hkeep
  have hslice : ∀ e ∈ shiftElements (byteLen pre) (byteLen pre + byteLen removed)
      (byteLen replacement) elements,
      ∃ x, slice (pre ++ replacement ++ post) e.range.start e.range.stop = some x := by
    intro e' he'
    obtain ⟨e, he, hkeep, rfl⟩ := mem_shiftElements he'
    obtain ⟨x, hx⟩ := h.exists_slice he
    exact ⟨x, slice_shift (hresp e he) hkeep hx⟩
  refine ⟨⟨?_, ?_, ?_, ?_, ?_⟩, ?_⟩
  · refine pairwise_shiftElements h.sorted ?_
    intro a ha b hb hka hkb hab
    have haord := (h.inside a ha).1
    have hbord := (h.inside b hb).1
    rcases hcases a ha hka with ⟨h₁, h₂, heq⟩ | ⟨h₁, h₂, heq⟩ <;>
      rcases hcases b hb hkb with ⟨h₃, h₄, heq'⟩ | ⟨h₃, h₄, heq'⟩ <;>
      simp only [heq, heq'] <;> omega
  · refine pairwise_shiftElements h.disjoint ?_
    intro a ha b hb hka hkb hab
    have haord := (h.inside a ha).1
    have hbord := (h.inside b hb).1
    rcases hcases a ha hka with ⟨h₁, h₂, heq⟩ | ⟨h₁, h₂, heq⟩ <;>
      rcases hcases b hb hkb with ⟨h₃, h₄, heq'⟩ | ⟨h₃, h₄, heq'⟩ <;>
      simp only [heq, heq'] <;> omega
  · intro e he
    obtain ⟨x, hx⟩ := hslice e he
    obtain ⟨p, q, htext, hp, hq⟩ := slice_eq_some.mp hx
    rw [htext]
    simp only [byteLen_append]
    omega
  · intro e he
    obtain ⟨x, hx⟩ := hslice e he
    exact isCharBoundary_of_slice hx
  · exact h.unique.sublist (ids_shiftElements _ _ _ _)
  · intro e' he'
    obtain ⟨e, he, hkeep, rfl⟩ := mem_shiftElements he'
    rcases hcases e he hkeep with ⟨h₁, h₂, heq⟩ | ⟨h₁, h₂, heq⟩ <;> simp only [heq] <;> omega

end Shift

/-! ## The invariant -/

/-- A text area whose cursor is on a grapheme boundary and whose elements are
whole, now and in every snapshot, with ids that have been handed out. -/
structure Sound (u : Unicode) (ta : TextArea) : Prop where
  cursor : IsBoundary u ta.text.text ta.text.cursorByte
  whole : Whole ta.text.text ta.elements
  fresh : ∀ e ∈ ta.elements, e.id < ta.nextElementId
  history : ∀ x ∈ ta.undo.entries, Whole x.text x.elements ∧
    ∀ e ∈ x.elements, e.id < ta.nextElementId

/-- Every element of `ta'` is one of `ta` with the same bytes, or has a new id. -/
structure Keeps (ta ta' : TextArea) : Prop where
  ids : ta.nextElementId ≤ ta'.nextElementId
  text : ∀ e' ∈ ta'.elements, ta.nextElementId ≤ e'.id ∨ ∃ e ∈ ta.elements, e.id = e'.id ∧
    slice ta'.text.text e'.range.start e'.range.stop =
      slice ta.text.text e.range.start e.range.stop

variable {u : Unicode} {ta ta' ta'' : TextArea}

theorem Keeps.refl (ta : TextArea) : Keeps ta ta :=
  ⟨le_rfl, fun e he => Or.inr ⟨e, he, rfl, rfl⟩⟩

theorem Keeps.trans (h : Keeps ta ta') (h' : Keeps ta' ta'') : Keeps ta ta'' := by
  refine ⟨h.ids.trans h'.ids, fun e'' he'' => ?_⟩
  rcases h'.text e'' he'' with hnew | ⟨e', he', hid', hslice'⟩
  · exact Or.inl (h.ids.trans hnew)
  · rcases h.text e' he' with hnew | ⟨e, he, hid, hslice⟩
    · exact Or.inl (hid' ▸ hnew)
    · exact Or.inr ⟨e, he, hid.trans hid', hslice'.trans hslice⟩

theorem Keeps.of_subset (htext : ta'.text.text = ta.text.text)
    (helements : ∀ e ∈ ta'.elements, e ∈ ta.elements)
    (hids : ta.nextElementId ≤ ta'.nextElementId) : Keeps ta ta' :=
  ⟨hids, fun e he => Or.inr ⟨e, helements e he, rfl, by rw [htext]⟩⟩

/-- Two elements with one id, one on each side of an operation that keeps the
elements, are the same text. -/
theorem Keeps.elementText (hs : Sound u ta) (hs' : Sound u ta') (h : Keeps ta ta')
    {e e' : TextElement} (he : e ∈ ta.elements) (he' : e' ∈ ta'.elements) (hid : e'.id = e.id) :
    ∃ text, ta.elementText e.id = some text ∧ ta'.elementText e.id = some text := by
  -- an id names one element of a whole list
  have hfind : ∀ {t : TextArea}, Sound u t → ∀ x ∈ t.elements,
      t.elementText x.id = slice t.text.text x.range.start x.range.stop := by
    intro t ht x hx
    have hsome : (t.elements.find? fun e => e.id == x.id) = some x := by
      cases hf : t.elements.find? fun e => e.id == x.id with
      | none => simpa using find?_eq_none.mp hf x hx
      | some y =>
        have hy := mem_of_find?_eq_some hf
        have hyid : y.id = x.id := by simpa using find?_some hf
        rw [inj_on_of_nodup_map ht.whole.unique hy hx hyid]
    simp [TextArea.elementText, hsome]
  obtain ⟨m, hm⟩ := hs.whole.exists_slice he
  refine ⟨m, (hfind hs e he).trans hm, ?_⟩
  rcases h.text e' he' with hnew | ⟨e₀, he₀, hid₀, hslice⟩
  · exact absurd (hs.fresh e he) (not_lt.mpr (hid ▸ hnew))
  · obtain rfl := inj_on_of_nodup_map hs.whole.unique he₀ he (hid₀.trans hid)
    rw [← hid, hfind hs' e' he', hslice, hm]

end TextArea

end GrokBuild.PromptEditor
