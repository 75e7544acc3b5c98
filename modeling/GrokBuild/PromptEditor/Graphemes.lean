import GrokBuild.Lib.ByteText
import GrokBuild.Lib.Intervals

/-!
# Grapheme boundaries

How the editor cuts a text into grapheme clusters. The segmentation itself is
a third-party table (`unicode-segmentation`), so it is a parameter: any function
that cuts a text into non-empty pieces which give the text back. Its boundaries
are the starts of the pieces and the end of the text. What the line commands
rely on besides is `BreaksLines`: no boundary inside a CR LF, and one on each
side of every line ending.
-/

namespace GrokBuild.PromptEditor

open TextLines Str ByteText List

/-- The Unicode tables the editor reads: `grapheme_indices(true)`, which cuts a
text into its extended grapheme clusters, and `char::is_alphanumeric`. -/
structure Unicode where
  graphemes : Text → List Text
  flatten_graphemes : ∀ t, (graphemes t).flatten = t
  ne_nil_of_mem : ∀ {t g}, g ∈ graphemes t → g ≠ []
  isAlphanumeric : Char → Bool

variable (u : Unicode)

/-- The byte offsets at which a list of pieces begins. -/
def startsFrom : Nat → List Text → List Nat
  | _, [] => []
  | offset, g :: gs => offset :: startsFrom (offset + byteLen g) gs

/-- The indices of `text.grapheme_indices(true)`. -/
def graphemeIndices (text : Text) : List Nat := startsFrom 0 (u.graphemes text)

/-! ## The boundary functions -/

def isGraphemeBoundary (text : Text) (byte : Nat) : Bool :=
  byte == byteLen text || (graphemeIndices u text).any (· == byte)

def floorGraphemeBoundary (text : Text) (byte : Nat) : Nat :=
  let byte := min byte (byteLen text)
  if byte = byteLen text then byte
  else (((graphemeIndices u text).takeWhile (· ≤ byte)).getLast?).getD 0

def ceilGraphemeBoundary (text : Text) (byte : Nat) : Nat :=
  let byte := min byte (byteLen text)
  if byte = byteLen text then byte
  else ((graphemeIndices u text).find? (byte ≤ ·)).getD (byteLen text)

/-- External cursor requests use nearest grapheme boundaries; ties go left. -/
def normalizeExternalCursor (text : Text) (byte : Nat) : Nat :=
  let byte := min byte (byteLen text)
  let before := floorGraphemeBoundary u text byte
  let after := ceilGraphemeBoundary u text byte
  if byte - before ≤ after - byte then before else after

/-- `GraphemeCursor::prev_boundary` over the whole text, which never asks for
another chunk. -/
def prevBoundary (text : Text) (byte : Nat) : Option Nat :=
  ((graphemeIndices u text).takeWhile (· < byte)).getLast?

/-- `GraphemeCursor::next_boundary` over the whole text. -/
def nextBoundary (text : Text) (byte : Nat) : Option Nat :=
  if byte < byteLen text then some (((graphemeIndices u text).find? (byte < ·)).getD (byteLen text))
  else none

def previousGraphemeBoundary (text : Text) (byte : Nat) : Nat :=
  let byte := min byte (byteLen text)
  if byte = 0 then 0 else (prevBoundary u text byte).getD 0

def nextGraphemeBoundary (text : Text) (byte : Nat) : Nat :=
  let byte := min byte (byteLen text)
  if byte = byteLen text then byte else (nextBoundary u text byte).getD (byteLen text)

/-! ## Boundaries -/

def IsBoundary (text : Text) (n : Nat) : Prop :=
  n = byteLen text ∨ n ∈ graphemeIndices u text

variable {u} {text : Text} {n : Nat}

theorem isGraphemeBoundary_iff : isGraphemeBoundary u text n = true ↔ IsBoundary u text n := by
  simp [isGraphemeBoundary, IsBoundary]

theorem mem_startsFrom {gs : List Text} {offset : Nat} (h : n ∈ startsFrom offset gs) :
    ∃ pre g post, gs = pre ++ g :: post ∧ n = offset + byteLen pre.flatten := by
  induction gs generalizing offset with
  | nil => simp [startsFrom] at h
  | cons g gs ih =>
    rcases mem_cons.mp h with rfl | h
    · exact ⟨[], g, gs, rfl, by simp⟩
    · obtain ⟨pre, g', post, rfl, hn⟩ := ih h
      exact ⟨g :: pre, g', post, rfl, by rw [hn]; simp; omega⟩

theorem startsFrom_sorted {gs : List Text} (hne : ∀ g ∈ gs, g ≠ []) (offset : Nat) :
    (startsFrom offset gs).Pairwise (· < ·) := by
  induction gs generalizing offset with
  | nil => exact List.Pairwise.nil
  | cons g gs ih =>
    refine pairwise_cons.mpr ⟨?_, ih (fun x hx => hne x (by simp [hx])) _⟩
    intro k hk
    obtain ⟨pre, g', post, -, hk⟩ := mem_startsFrom hk
    have := byteLen_pos (hne g (by simp))
    omega

theorem graphemeIndices_sorted (text : Text) : (graphemeIndices u text).Pairwise (· < ·) :=
  startsFrom_sorted (fun _ hg => u.ne_nil_of_mem hg) 0

theorem lt_of_mem_graphemeIndices (h : n ∈ graphemeIndices u text) : n < byteLen text := by
  obtain ⟨pre, g, post, heq, rfl⟩ := mem_startsFrom h
  have hg : g ≠ [] := u.ne_nil_of_mem (t := text) (by simp [heq])
  have := byteLen_pos hg
  have htext := u.flatten_graphemes text
  rw [heq] at htext
  rw [← htext]
  simp
  omega

theorem zero_mem_graphemeIndices (h : text ≠ []) : 0 ∈ graphemeIndices u text := by
  have htext := u.flatten_graphemes text
  unfold graphemeIndices
  cases hg : u.graphemes text with
  | nil =>
    rw [hg] at htext
    exact absurd htext.symm h
  | cons g gs => simp [startsFrom]

theorem isBoundary_byteLen (text : Text) : IsBoundary u text (byteLen text) := Or.inl rfl

theorem isBoundary_zero (text : Text) : IsBoundary u text 0 := by
  rcases eq_or_ne text [] with rfl | h
  · exact isBoundary_byteLen []
  · exact Or.inr (zero_mem_graphemeIndices h)

theorem IsBoundary.le_byteLen (h : IsBoundary u text n) : n ≤ byteLen text := by
  rcases h with rfl | h
  · exact le_rfl
  · exact (lt_of_mem_graphemeIndices h).le

theorem IsBoundary.isCharBoundary (h : IsBoundary u text n) : isCharBoundary text n = true := by
  rcases h with rfl | h
  · exact isCharBoundary_byteLen text
  · obtain ⟨pre, g, post, heq, rfl⟩ := mem_startsFrom h
    have htext := u.flatten_graphemes text
    rw [heq, flatten_append] at htext
    rw [← htext, Nat.zero_add]
    exact isCharBoundary_append _ _

/-! ## What the boundary functions return -/

theorem floorGraphemeBoundary_spec (u : Unicode) (text : Text) (n : Nat) :
    IsBoundary u text (floorGraphemeBoundary u text n) ∧
      floorGraphemeBoundary u text n ≤ n ∧
      ∀ k, IsBoundary u text k → k ≤ n → k ≤ floorGraphemeBoundary u text n := by
  unfold floorGraphemeBoundary
  simp only
  split
  · rename_i h
    rw [h]
    exact ⟨isBoundary_byteLen text, by omega, fun k hk _ => hk.le_byteLen⟩
  · rename_i h
    have hn : min n (byteLen text) = n := by omega
    rw [hn] at h ⊢
    have hne : text ≠ [] := by
      rintro rfl
      simp only [byteLen_nil] at h hn
      omega
    have hdown : ∀ a b : Nat, a ≤ b → decide (b ≤ n) = true → decide (a ≤ n) = true := by
      simp only [decide_eq_true_eq]
      omega
    cases hl : ((graphemeIndices u text).takeWhile (· ≤ n)).getLast? with
    | some m =>
      obtain ⟨hm, hmn, hgreatest⟩ :=
        Span.getLast?_takeWhile_greatest (graphemeIndices_sorted text) hdown hl
      refine ⟨Or.inr hm, by simpa using hmn, ?_⟩
      rintro k (rfl | hk) hkn
      · omega
      · exact hgreatest k hk (by simpa using hkn)
    | none =>
      have hnil := (Span.takeWhile_eq_nil_iff_of_down (graphemeIndices_sorted text) hdown).mp
        (by simpa using hl)
      simpa using hnil 0 (zero_mem_graphemeIndices hne)

theorem ceilGraphemeBoundary_spec (u : Unicode) (text : Text) (n : Nat) :
    IsBoundary u text (ceilGraphemeBoundary u text n) ∧
      min n (byteLen text) ≤ ceilGraphemeBoundary u text n ∧
      ∀ k, IsBoundary u text k → n ≤ k → ceilGraphemeBoundary u text n ≤ k := by
  unfold ceilGraphemeBoundary
  simp only
  split
  · rename_i h
    rw [h]
    refine ⟨isBoundary_byteLen text, le_rfl, ?_⟩
    intro k hk hnk
    have := hk.le_byteLen
    omega
  · rename_i h
    have hn : min n (byteLen text) = n := by omega
    rw [hn] at h ⊢
    cases hf : (graphemeIndices u text).find? (n ≤ ·) with
    | some m =>
      obtain ⟨hm, hnm, hleast⟩ := Span.find?_least (graphemeIndices_sorted text) hf
      refine ⟨Or.inr hm, by simpa using hnm, ?_⟩
      rintro k (rfl | hk) hnk
      · exact (lt_of_mem_graphemeIndices hm).le
      · exact hleast k hk (by simpa using hnk)
    | none =>
      refine ⟨isBoundary_byteLen text, by simp; omega, ?_⟩
      rintro k (rfl | hk) hnk
      · exact le_rfl
      · exact absurd hnk (by simpa using find?_eq_none.mp hf k hk)

theorem isBoundary_normalizeExternalCursor (u : Unicode) (text : Text) (n : Nat) :
    IsBoundary u text (normalizeExternalCursor u text n) := by
  unfold normalizeExternalCursor
  simp only
  split
  · exact (floorGraphemeBoundary_spec u text _).1
  · exact (ceilGraphemeBoundary_spec u text _).1

/-- The cursor functions agree with the boundaries: the one before a position
is the greatest below it, and 0 stays 0. -/
theorem previousGraphemeBoundary_spec (u : Unicode) (text : Text) (h : n ≤ byteLen text) :
    IsBoundary u text (previousGraphemeBoundary u text n) ∧
      (0 < n → previousGraphemeBoundary u text n < n) ∧
      ∀ k, IsBoundary u text k → k < n → k ≤ previousGraphemeBoundary u text n := by
  unfold previousGraphemeBoundary
  simp only [min_eq_left h]
  split
  · exact ⟨isBoundary_zero text, by omega, by omega⟩
  · rename_i h0
    have hne : text ≠ [] := by
      rintro rfl
      simp only [byteLen_nil] at h
      omega
    have hdown : ∀ a b : Nat, a ≤ b → decide (b < n) = true → decide (a < n) = true := by
      simp only [decide_eq_true_eq]
      omega
    cases hl : prevBoundary u text n with
    | some m =>
      obtain ⟨hm, hmn, hgreatest⟩ :=
        Span.getLast?_takeWhile_greatest (graphemeIndices_sorted text) hdown hl
      refine ⟨Or.inr hm, fun _ => by simpa using hmn, ?_⟩
      rintro k (rfl | hk) hkn
      · omega
      · exact hgreatest k hk (by simpa using hkn)
    | none =>
      have hnil := (Span.takeWhile_eq_nil_iff_of_down (graphemeIndices_sorted text) hdown).mp
        (by simpa [prevBoundary] using hl)
      have := hnil 0 (zero_mem_graphemeIndices hne)
      simp only [decide_eq_false_iff_not] at this
      omega

theorem nextGraphemeBoundary_spec (u : Unicode) (text : Text) (n : Nat) :
    IsBoundary u text (nextGraphemeBoundary u text n) ∧
      (n < byteLen text → n < nextGraphemeBoundary u text n) ∧
      ∀ k, IsBoundary u text k → n < k → nextGraphemeBoundary u text n ≤ k := by
  unfold nextGraphemeBoundary
  simp only
  split
  · rename_i h
    rw [h]
    refine ⟨isBoundary_byteLen text, by omega, ?_⟩
    intro k hk hnk
    have := hk.le_byteLen
    omega
  · rename_i h
    have hn : min n (byteLen text) = n := by omega
    rw [hn] at h ⊢
    rw [nextBoundary, if_pos (by omega), Option.getD_some]
    cases hf : (graphemeIndices u text).find? (n < ·) with
    | some m =>
      obtain ⟨hm, hnm, hleast⟩ := Span.find?_least (graphemeIndices_sorted text) hf
      refine ⟨Or.inr hm, fun _ => by simpa using hnm, ?_⟩
      rintro k (rfl | hk) hnk
      · exact (lt_of_mem_graphemeIndices hm).le
      · exact hleast k hk (by simpa using hnk)
    | none =>
      refine ⟨isBoundary_byteLen text, fun hlt => by simpa using hlt, ?_⟩
      rintro k (rfl | hk) hnk
      · exact le_rfl
      · exact absurd hnk (by simpa using find?_eq_none.mp hf k hk)

/-! ## Line endings -/

/-- No boundary between the CR and the LF of a CR LF, and one on each side of
every other LF. -/
structure KeepsLines (u : Unicode) : Prop where
  crlf : ∀ pre post, ¬ IsBoundary u (pre ++ '\r' :: '\n' :: post) (byteLen pre + 1)
  lf : ∀ pre post, pre.getLast? ≠ some '\r' →
    IsBoundary u (pre ++ '\n' :: post) (byteLen pre) ∧
      IsBoundary u (pre ++ '\n' :: post) (byteLen pre + 1)

/-- The same with a boundary on each side of every CR LF too, as the rules of
Unicode have it: a line ending is a cluster of its own. -/
structure BreaksLines (u : Unicode) : Prop extends KeepsLines u where
  around : ∀ pre post, IsBoundary u (pre ++ '\r' :: '\n' :: post) (byteLen pre) ∧
    IsBoundary u (pre ++ '\r' :: '\n' :: post) (byteLen pre + 2)

/-! ## Segmentations given by a rule on neighbours -/

/-- Cuts a text between two neighbours exactly where the rule says so. -/
def cutBetween (cut : Char → Char → Bool) : Text → List Text
  | [] => []
  | [c] => [[c]]
  | c :: d :: t =>
    match cutBetween cut (d :: t) with
    | [] => [[c]]
    | g :: gs => if cut c d then [c] :: g :: gs else (c :: g) :: gs

variable (cut : Char → Char → Bool)

theorem exists_cutBetween_cons (c : Char) (t : Text) :
    ∃ g gs, cutBetween cut (c :: t) = (c :: g) :: gs := by
  cases t with
  | nil => exact ⟨[], [], rfl⟩
  | cons d t =>
    rw [cutBetween]
    cases cutBetween cut (d :: t) with
    | nil => exact ⟨[], [], rfl⟩
    | cons g gs =>
      by_cases h : cut c d = true
      · exact ⟨[], g :: gs, by simp [h]⟩
      · exact ⟨g, gs, by simp [h]⟩

theorem cutBetween_spec (t : Text) :
    (cutBetween cut t).flatten = t ∧ ∀ g ∈ cutBetween cut t, g ≠ [] := by
  induction t with
  | nil => simp [cutBetween]
  | cons c t ih =>
    cases t with
    | nil => simp [cutBetween]
    | cons d t =>
      obtain ⟨g, gs, hg⟩ := exists_cutBetween_cons cut d t
      rw [hg] at ih
      rw [cutBetween, hg]
      by_cases h : cut c d = true
      · simp only [h, if_true, flatten_cons, forall_mem_cons] at ih ⊢
        exact ⟨by simpa using ih.1, by simp, by simp, ih.2.2⟩
      · simp only [h, Bool.false_eq_true, if_false, flatten_cons, forall_mem_cons] at ih ⊢
        exact ⟨by simpa using ih.1, by simp, ih.2.2⟩

/-- The tables of a segmentation by such a rule. -/
def Unicode.ofRule : Unicode where
  graphemes := cutBetween cut
  flatten_graphemes t := (cutBetween_spec cut t).1
  ne_nil_of_mem h := (cutBetween_spec cut _).2 _ h
  isAlphanumeric c := c.isAlphanum

theorem mem_startsFrom_cutBetween (offset : Nat) (pre post : Text) (c d : Char) :
    offset + byteLen (pre ++ [c]) ∈ startsFrom offset (cutBetween cut (pre ++ c :: d :: post)) ↔
      cut c d = true := by
  induction pre generalizing offset with
  | nil =>
    obtain ⟨g, gs, hg⟩ := exists_cutBetween_cons cut d post
    have hc := Char.utf8Size_pos c
    have hd := Char.utf8Size_pos d
    rw [nil_append, cutBetween, hg]
    by_cases h : cut c d = true
    · simp [h, startsFrom]
    · simp only [h, Bool.false_eq_true, if_false, startsFrom, mem_cons, iff_false, not_or]
      refine ⟨by simp; omega, fun hmem => ?_⟩
      -- the next piece begins after this one, which holds both neighbours
      obtain ⟨pre, g', post, -, hn⟩ := mem_startsFrom hmem
      simp only [nil_append, byteLen_cons, byteLen_nil] at hn
      omega
  | cons e pre ih =>
    have he := Char.utf8Size_pos e
    have hc := Char.utf8Size_pos c
    obtain ⟨x, rest, hx⟩ : ∃ x rest, pre ++ c :: d :: post = x :: rest := by
      cases pre with
      | nil => exact ⟨c, d :: post, rfl⟩
      | cons x pre => exact ⟨x, pre ++ c :: d :: post, rfl⟩
    obtain ⟨g, gs, hg⟩ := exists_cutBetween_cons cut x rest
    have ih := ih (offset + e.utf8Size)
    rw [hx, hg] at ih
    rw [cons_append, cons_append, hx, cutBetween, hg]
    simp only [startsFrom, mem_cons, byteLen_cons, byteLen_append, byteLen_nil] at ih ⊢
    by_cases h : cut e x = true
    · simp only [h, if_true, startsFrom, mem_cons, byteLen_cons, byteLen_nil] at ih ⊢
      rw [← ih]
      simp only [Nat.add_zero, ← Nat.add_assoc] at ih ⊢
      constructor
      · rintro (h' | h')
        · omega
        · exact h'
      · exact Or.inr
    · simp only [h, Bool.false_eq_true, if_false, startsFrom, mem_cons, byteLen_cons] at ih ⊢
      rw [← ih]
      simp only [Nat.add_zero, ← Nat.add_assoc] at ih ⊢
      constructor
      · rintro (h' | h')
        · omega
        · exact Or.inr h'
      · rintro (h' | h')
        · omega
        · exact Or.inr h'

theorem isBoundary_ofRule (pre post : Text) (c d : Char) :
    IsBoundary (Unicode.ofRule cut) (pre ++ c :: d :: post) (byteLen (pre ++ [c])) ↔
      cut c d = true := by
  have hmem := mem_startsFrom_cutBetween cut 0 pre post c d
  rw [Nat.zero_add] at hmem
  have hd := Char.utf8Size_pos d
  rw [IsBoundary, graphemeIndices]
  constructor
  · rintro (h | h)
    · simp only [byteLen_append, byteLen_cons, byteLen_nil] at h
      omega
    · exact hmem.mp h
  · intro h
    exact Or.inr (hmem.mpr h)

variable {cut}

theorem keepsLines_ofRule (hcrlf : cut '\r' '\n' = false)
    (hbefore : ∀ c, c ≠ '\r' → cut c '\n' = true) (hafter : ∀ d, cut '\n' d = true) :
    KeepsLines (Unicode.ofRule cut) where
  crlf pre post h := by
    have hb := (isBoundary_ofRule cut pre post '\r' '\n').mp (by simpa using h)
    simp [hcrlf] at hb
  lf pre post hpre := by
    constructor
    · rcases eq_nil_or_concat' pre with rfl | ⟨init, c, rfl⟩
      · exact isBoundary_zero _
      · have hb := (isBoundary_ofRule cut init post c '\n').mpr (hbefore c (by simpa using hpre))
        simpa using hb
    · cases post with
      | nil => exact Or.inl (by simp)
      | cons d post => simpa using (isBoundary_ofRule cut pre post '\n' d).mpr (hafter d)

theorem breaksLines_ofRule (hcrlf : cut '\r' '\n' = false)
    (hbefore : ∀ c, c ≠ '\r' → cut c '\n' = true) (hafter : ∀ d, cut '\n' d = true)
    (hcr : ∀ c, cut c '\r' = true) : BreaksLines (Unicode.ofRule cut) where
  toKeepsLines := keepsLines_ofRule hcrlf hbefore hafter
  around pre post := by
    constructor
    · rcases eq_nil_or_concat' pre with rfl | ⟨init, c, rfl⟩
      · exact isBoundary_zero _
      · simpa using (isBoundary_ofRule cut init ('\n' :: post) c '\r').mpr (hcr c)
    · cases post with
      | nil => exact Or.inl (by simp)
      | cons d post =>
        simpa using (isBoundary_ofRule cut (pre ++ ['\r']) post '\n' d).mpr (hafter d)

/-- Every character a cluster, and CR LF one together. -/
def plainRule (c d : Char) : Bool := !(c == '\r' && d == '\n')

theorem breaksLines_plainRule : BreaksLines (Unicode.ofRule plainRule) :=
  breaksLines_ofRule (by decide) (by simp [plainRule]) (by simp [plainRule]) (by simp [plainRule])

end GrokBuild.PromptEditor
