import GrokBuild.Lib.ByteText

/-!
# Confusable characters

Typographic characters and what they are typed as in ASCII. A normalised text
comes with a table from its bytes back to those of the text (`buildOffsetMap`):
a place in the normalised text leads to the place in the text that its character
comes from (`exists_origin`), which is in the middle of an image only for the
characters that become several.
-/

namespace GrokBuild.SearchReplace

open TextLines Str ByteText List Option

def confusableMap : List (Char × Text) :=
  [('\u201C', ['"']), ('\u201D', ['"']), ('\u2018', ['\'']), ('\u2019', ['\'']),
    ('\u2014', ['-', '-']), ('\u2013', ['-']), ('\u2026', ['.', '.', '.']), ('\u00A0', [' '])]

def lookup (c : Char) : Option Text := (confusableMap.find? fun entry => entry.1 = c).map (·.2)

/-- What a character becomes. -/
def image (c : Char) : Text := (lookup c).getD [c]

def normalizeConfusables (s : Text) : Text := s.flatMap image

/-- The offset map behind `offset` bytes, with the sentinel at the end. -/
def offsetMapFrom (offset : Nat) : Text → List Nat
  | [] => [offset]
  | c :: s =>
    (match lookup c with
      | some replacement => List.replicate (byteLen replacement) offset
      | none => (List.range c.utf8Size).map (offset + ·)) ++ offsetMapFrom (offset + c.utf8Size) s

def buildOffsetMap (s : Text) : Text × List Nat := (normalizeConfusables s, offsetMapFrom 0 s)

/-! ## Images -/

variable {c : Char} {s t a b x y z : Text} {offset : Nat}

theorem exists_entry (h : lookup c = some s) : (c, s) ∈ confusableMap := by
  obtain ⟨⟨d, r⟩, hfind, rfl⟩ := map_eq_some_iff.mp h
  have hd := find?_some hfind
  simp only [decide_eq_true_eq] at hd
  subst hd
  exact mem_of_find?_eq_some hfind

theorem image_ne_nil (c : Char) : image c ≠ [] := by
  rw [image]
  cases hlookup : lookup c with
  | none => exact cons_ne_nil _ _
  | some r =>
    have hall : ∀ entry ∈ confusableMap, entry.2 ≠ [] := by decide
    exact hall _ (exists_entry hlookup)

@[simp] theorem normalizeConfusables_nil : normalizeConfusables [] = [] := rfl

theorem normalizeConfusables_cons (c : Char) (s : Text) :
    normalizeConfusables (c :: s) = image c ++ normalizeConfusables s := flatMap_cons

theorem normalizeConfusables_append (s t : Text) :
    normalizeConfusables (s ++ t) = normalizeConfusables s ++ normalizeConfusables t :=
  flatMap_append

theorem normalizeConfusables_eq_nil : normalizeConfusables s = [] ↔ s = [] := by
  constructor
  · intro h
    cases s with
    | nil => rfl
    | cons c s =>
      rw [normalizeConfusables_cons, append_eq_nil_iff] at h
      exact absurd h.1 (image_ne_nil c)
  · rintro rfl
    rfl

theorem eq_of_length_image (h : a ++ b = x ++ y)
    (hlen : (normalizeConfusables a).length = (normalizeConfusables x).length) : a = x ∧ b = y := by
  rcases append_eq_append_iff.mp h with ⟨m, rfl, rfl⟩ | ⟨m, rfl, rfl⟩
  · rw [normalizeConfusables_append, length_append] at hlen
    have hm := normalizeConfusables_eq_nil.mp (length_eq_zero_iff.mp (by omega) :
      normalizeConfusables m = [])
    subst hm
    exact ⟨(append_nil _).symm, rfl⟩
  · rw [normalizeConfusables_append, length_append] at hlen
    have hm := normalizeConfusables_eq_nil.mp (length_eq_zero_iff.mp (by omega) :
      normalizeConfusables m = [])
    subst hm
    exact ⟨append_nil _, rfl⟩

theorem exists_place (h : normalizeConfusables t = x ++ y) : ∃ a b z, t = a ++ b ∧
    x = normalizeConfusables a ++ z ∧
    (z = [] ∨ ∃ c b' z', b = c :: b' ∧ image c = z ++ z' ∧ z ≠ [] ∧ z' ≠ []) := by
  induction t generalizing x with
  | nil =>
    obtain ⟨rfl, rfl⟩ := append_eq_nil_iff.mp h.symm
    exact ⟨[], [], [], rfl, rfl, .inl rfl⟩
  | cons c t ih =>
    rw [normalizeConfusables_cons] at h
    rcases append_eq_append_iff.mp h with ⟨m, rfl, hm⟩ | ⟨m, himage, hm⟩
    · obtain ⟨a, b, z, rfl, rfl, hz⟩ := ih hm
      refine ⟨c :: a, b, z, rfl, ?_, hz⟩
      rw [normalizeConfusables_cons, append_assoc]
    · by_cases hx : x = []
      · exact ⟨[], c :: t, [], rfl, hx, .inl rfl⟩
      · by_cases hnil : m = []
        · subst hnil
          rw [append_nil] at himage
          refine ⟨[c], t, [], rfl, ?_, .inl rfl⟩
          rw [normalizeConfusables_cons, himage, normalizeConfusables_nil, append_nil,
            append_nil]
        · exact ⟨[], c :: t, x, rfl, rfl, .inr ⟨c, t, m, rfl, himage, hx, hnil⟩⟩

/-! ## The offset map -/

theorem offsetMapFrom_zero (offset : Nat) (s : Text) : (offsetMapFrom offset s)[0]? = some offset := by
  cases s with
  | nil => rfl
  | cons c s =>
    rw [offsetMapFrom]
    cases hlookup : lookup c with
    | none =>
      have hpos := c.utf8Size_pos
      obtain ⟨n, hn⟩ := Nat.exists_eq_succ_of_ne_zero (Nat.pos_iff_ne_zero.mp hpos)
      rw [hn]
      simp [range_succ_eq_map]
    | some r =>
      have hall : ∀ entry ∈ confusableMap, byteLen entry.2 ≠ 0 := by decide
      have hne : byteLen r ≠ 0 := hall _ (exists_entry hlookup)
      obtain ⟨n, hn⟩ := Nat.exists_eq_succ_of_ne_zero hne
      dsimp only
      rw [hn]
      rfl

theorem length_entries (c : Char) (offset : Nat) : (match lookup c with
      | some replacement => List.replicate (byteLen replacement) offset
      | none => (List.range c.utf8Size).map (offset + ·)).length = byteLen (image c) := by
  rw [image]
  cases lookup c with
  | none => simp
  | some r => simp

theorem offsetMapFrom_image (offset : Nat) (a b : Text) :
    (offsetMapFrom offset (a ++ b))[byteLen (normalizeConfusables a)]? = some (offset + byteLen a) := by
  induction a generalizing offset with
  | nil => exact offsetMapFrom_zero offset b
  | cons c a ih =>
    rw [cons_append, offsetMapFrom, normalizeConfusables_cons, byteLen_append, byteLen_cons,
      getElem?_append_right (by rw [length_entries]; omega), length_entries,
      Nat.add_sub_cancel_left, ih, Nat.add_assoc]

theorem offsetMapFrom_inside {z' : Text} (h : image c = z ++ z') (hz : z ≠ []) (hz' : z' ≠ []) :
    (offsetMapFrom offset (a ++ c :: b))[byteLen (normalizeConfusables a ++ z)]? =
      some (offset + byteLen a) := by
  induction a generalizing offset with
  | nil =>
    rw [nil_append, normalizeConfusables_nil, nil_append, offsetMapFrom]
    have hpos := byteLen_pos hz'
    have hlen : byteLen (image c) = byteLen z + byteLen z' := by rw [h, byteLen_append]
    rw [getElem?_append_left (by rw [length_entries]; omega)]
    cases hlookup : lookup c with
    | none =>
      rw [image, hlookup] at h
      have hone := congrArg List.length h
      have hz := length_pos_of_ne_nil hz
      have hz' := length_pos_of_ne_nil hz'
      rw [length_append] at hone
      simp only [getD_none, length_singleton] at hone
      omega
    | some r =>
      rw [image, hlookup, getD_some] at hlen
      rw [getElem?_replicate, if_pos (by omega)]
      rfl
  | cons d a ih =>
    rw [cons_append, offsetMapFrom, normalizeConfusables_cons, append_assoc, byteLen_append,
      byteLen_cons, getElem?_append_right (by rw [length_entries]; omega), length_entries,
      Nat.add_sub_cancel_left, ih, Nat.add_assoc]

theorem exists_origin (h : normalizeConfusables t = x ++ y) : ∃ a b z, t = a ++ b ∧
    x = normalizeConfusables a ++ z ∧ (buildOffsetMap t).2[byteLen x]? = some (byteLen a) ∧
    (z = [] ∨ ∃ c b' z', b = c :: b' ∧ image c = z ++ z' ∧ z ≠ [] ∧ z' ≠ []) := by
  obtain ⟨a, b, z, rfl, rfl, hz⟩ := exists_place h
  refine ⟨a, b, z, rfl, rfl, ?_, hz⟩
  rcases hz with rfl | ⟨c, b', z', rfl, himage, hz, hz'⟩
  · have horigin := offsetMapFrom_image 0 a b
    rw [Nat.zero_add] at horigin
    rwa [append_nil]
  · have horigin : (offsetMapFrom 0 (a ++ c :: b'))[_]? = _ :=
      offsetMapFrom_inside himage hz hz'
    rwa [Nat.zero_add] at horigin

/-! ## Runs -/

/-- A text that a run moves along is a run. -/
theorem eq_replicate_of_shift {d : Char} {k : Nat} {p w : Text} (hk : 0 < k)
    (h : List.replicate k d ++ p = p ++ w) :
    p = List.replicate p.length d ∧ w = List.replicate k d := by
  induction hn : p.length using Nat.strongRecOn generalizing p with
  | _ n ih =>
    rcases append_eq_append_iff.mp h with ⟨m, rfl, hm⟩ | ⟨m, hrun, hm⟩
    · -- the run is the first part of the text
      have hlen : m.length < n := by
        rw [← hn, length_append, length_replicate]
        omega
      obtain ⟨hrest, hw⟩ := ih m.length hlen hm rfl
      refine ⟨?_, hw⟩
      rw [← hn, length_append, length_replicate, replicate_add, ← hrest]
    · have hparts := append_eq_replicate_iff.mp hrun.symm
      refine ⟨by rw [← hn]; exact hparts.2.1, ?_⟩
      rw [hm, hparts.2.1, hparts.2.2, ← replicate_add]
      congr 1
      have hlen := hparts.1
      omega

theorem long_image (h : 2 ≤ (image c).length) : c = '\u2014' ∨ c = '\u2026' := by
  cases hlookup : lookup c with
  | none =>
    rw [image, hlookup, getD_none, length_singleton] at h
    omega
  | some r =>
    have hall : ∀ entry ∈ confusableMap, 2 ≤ entry.2.length →
        entry.1 = '\u2014' ∨ entry.1 = '\u2026' := by decide
    rw [image, hlookup, getD_some] at h
    exact hall _ (exists_entry hlookup) h

theorem image_run (h : 2 ≤ (image c).length) : ∃ d k, image c = List.replicate k d ∧
    ∀ c', 2 ≤ (image c').length → (image c').head? = some d → c' = c := by
  rcases long_image h with rfl | rfl
  · refine ⟨'-', 2, rfl, fun c' h' hhead => ?_⟩
    rcases long_image h' with rfl | rfl
    · rfl
    · cases hhead
  · refine ⟨'.', 3, rfl, fun c' h' hhead => ?_⟩
    rcases long_image h' with rfl | rfl
    · cases hhead
    · rfl

/-- A region that an occurrence in the middle of its images leads to is not the
only one: behind its first character there is another. -/
theorem exists_shifted {c' : Char} {r z' w w' : Text} (himage : image c = z ++ z') (hz : z ≠ [])
    (hz' : z' ≠ []) (himage' : image c' = w ++ w') (hw : w ≠ []) (hw' : w' ≠ [])
    (h : z ++ normalizeConfusables (c :: r) = normalizeConfusables (c :: r) ++ w) :
    c' = c ∧ normalizeConfusables (r ++ [c]) = normalizeConfusables (c :: r) := by
  have hlong : 2 ≤ (image c).length := by
    rw [himage, length_append]
    have hz := length_pos_of_ne_nil hz
    have hz' := length_pos_of_ne_nil hz'
    omega
  have hlong' : 2 ≤ (image c').length := by
    rw [himage', length_append]
    have hw := length_pos_of_ne_nil hw
    have hw' := length_pos_of_ne_nil hw'
    omega
  obtain ⟨d, k, hrun, hsame⟩ := image_run hlong
  have hparts := append_eq_replicate_iff.mp (himage.symm.trans hrun)
  have hzrun := hparts.2.1
  rw [hzrun] at h
  obtain ⟨hall, hwrun⟩ := eq_replicate_of_shift (length_pos_of_ne_nil hz) h
  constructor
  · apply hsame c' hlong'
    obtain ⟨n, hn⟩ := Nat.exists_eq_succ_of_ne_zero
      (Nat.pos_iff_ne_zero.mp (length_pos_of_ne_nil hz))
    rw [himage', hwrun, hn, replicate_succ]
    rfl
  · rw [normalizeConfusables_cons, hrun] at hall
    have hrest := (append_eq_replicate_iff.mp hall).2.2
    rw [normalizeConfusables_append, normalizeConfusables_cons, normalizeConfusables_cons,
      normalizeConfusables_nil, append_nil, hrun, hrest, ← replicate_add,
      ← replicate_add, Nat.add_comm]

end GrokBuild.SearchReplace
