import GrokBuild.Lib.Str

/-!
# Trimmed texts

`trim` leaves a part of the text that neither begins nor ends in white space
(`Trimmed`), and leaves such a text as it is. Blanks around a text do not
change what trimming leaves.
-/

namespace Str

open TextLines List

def Blank (w : Text) : Prop := ∀ c ∈ w, isWhitespace c = true

/-- No white space at either end. -/
structure Trimmed (s : Text) : Prop where
  first : ∀ c, s.head? = some c → isWhitespace c = false
  last : ∀ c, s.getLast? = some c → isWhitespace c = false

variable {s : Text}

theorem trimStart_eq_self (h : ∀ c, s.head? = some c → isWhitespace c = false) : trimStart s = s := by
  cases s with
  | nil => rfl
  | cons c s => exact dropWhile_cons_of_neg (by simp [h c rfl])

theorem head_trimStart {c : Char} (h : (trimStart s).head? = some c) : isWhitespace c = false := by
  have hnot := head?_dropWhile_not isWhitespace s
  rw [trimStart] at h
  rw [h] at hnot
  simpa using hnot

theorem Trimmed.trim_eq (h : Trimmed s) : trim s = s := by
  have hlast : trimStart s.reverse = s.reverse := by
    refine trimStart_eq_self fun c hc => h.last c ?_
    rwa [head?_reverse] at hc
  rw [trim, trimStart_eq_self h.first, hlast, reverse_reverse]

theorem trimStart_suffix (s : Text) : trimStart s <:+ s := dropWhile_suffix isWhitespace

theorem trim_prefix_trimStart (s : Text) : trim s <+: trimStart s := by
  have h := reverse_prefix.mpr (trimStart_suffix (trimStart s).reverse)
  rwa [reverse_reverse] at h

theorem trim_isInfix (s : Text) : trim s <:+: s :=
  (trim_prefix_trimStart s).isInfix.trans (trimStart_suffix s).isInfix

theorem trimmed_trim (s : Text) : Trimmed (trim s) := by
  constructor
  · intro c hc
    obtain ⟨rest, hrest⟩ := trim_prefix_trimStart s
    refine head_trimStart (s := s) ?_
    rw [← hrest, head?_append, hc]
    rfl
  · intro c hc
    rw [trim, getLast?_reverse] at hc
    exact head_trimStart hc

@[simp] theorem trim_trim (s : Text) : trim (trim s) = trim s := (trimmed_trim s).trim_eq

variable {w : Text}

theorem trimStart_blank_append (hw : Blank w) (s : Text) : trimStart (w ++ s) = trimStart s := by
  induction w with
  | nil => rfl
  | cons c w ih =>
    have hc : isWhitespace c = true := hw c mem_cons_self
    rw [trimStart, cons_append, dropWhile_cons_of_pos hc]
    exact ih fun d hd => hw d (mem_cons_of_mem _ hd)

theorem trim_blank_append (hw : Blank w) (s : Text) : trim (w ++ s) = trim s := by
  rw [trim, trimStart_blank_append hw, trim]

theorem trim_between {w' : Text} (h : Trimmed s) (hw : Blank w) (hw' : Blank w') :
    trim (w ++ s ++ w') = s := by
  rw [append_assoc, trim_blank_append hw]
  cases s with
  | nil =>
    rw [nil_append]
    have hall := trim_blank_append hw' []
    rwa [append_nil] at hall
  | cons c s =>
    have hfirst : trimStart (c :: s ++ w') = c :: s ++ w' := by
      refine trimStart_eq_self fun d hd => ?_
      cases hd
      exact h.first c rfl
    have hreverse : Blank w'.reverse := fun d hd => hw' d (mem_reverse.mp hd)
    have hlast : trimStart (c :: s).reverse = (c :: s).reverse := by
      refine trimStart_eq_self fun d hd => h.last d ?_
      rwa [head?_reverse] at hd
    rw [trim, hfirst, reverse_append, trimStart_blank_append hreverse, hlast,
      reverse_reverse]

theorem exists_of_trim_eq_cons {rest : Text} {c : Char} (h : trim s = c :: rest) :
    ∃ w t, s = w ++ c :: t ∧ Blank w := by
  obtain ⟨t, ht⟩ := trim_prefix_trimStart s
  obtain ⟨w, hw⟩ := trimStart_suffix s
  rw [h, cons_append] at ht
  refine ⟨s.takeWhile isWhitespace, rest ++ t, ?_, fun d hd => mem_takeWhile_imp hd⟩
  rw [ht, trimStart, takeWhile_append_dropWhile]

end Str
