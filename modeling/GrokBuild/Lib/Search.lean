import Mathlib.Tactic

/-!
# Searching for a pattern

`find` is the position of the first occurrence of a pattern in a text. A text
put together from pieces is free of a pattern when the pieces are and no
occurrence can lie across a seam: `free_append` for a piece that is followed
by an element the pattern has only at its front, `free_literal` for a piece
that is known.
-/

namespace Search

open List

variable {α : Type*}

/-- The pattern does not occur in the text. -/
def Free (pat s : List α) : Prop := ¬ pat <:+: s

variable {pat s : List α}

theorem free_cons {c : α} : Free pat (c :: s) ↔ ¬ pat <+: c :: s ∧ Free pat s := by
  rw [Free, infix_cons_iff, not_or]
  rfl

theorem Free.of_append_right {a : List α} (h : Free pat (a ++ s)) : Free pat s :=
  fun hin => h (hin.trans (suffix_append a s).isInfix)

/-! ## Texts in pieces -/

/-- `b` stands in the pattern at most at its front, so no occurrence reaches
over it. -/
theorem free_append {a : List α} {b : α} (hhead : s.head? = some b) (hb : b ∉ pat.tail)
    (ha : Free pat a) (hs : Free pat s) : Free pat (a ++ s) := by
  induction a with
  | nil => exact hs
  | cons c a ih =>
    obtain ⟨hpre, ha⟩ := free_cons.mp ha
    rw [cons_append, free_cons]
    refine ⟨?_, ih ha⟩
    intro hocc
    rcases prefix_or_prefix_of_prefix hocc (prefix_append (c :: a) s) with h | h
    · exact hpre h
    · -- the occurrence covers all of the piece, and then `b`
      obtain ⟨t, rfl⟩ := h
      have ht : t <+: s := (prefix_append_right_inj (c :: a)).mp hocc
      cases t with
      | nil => exact hpre (by simp)
      | cons d t =>
        obtain ⟨t', rfl⟩ := ht
        have hd : d = b := by simpa using hhead
        exact hb (by simp [hd])

/-- No end of the piece is the beginning of an occurrence. -/
def Apart (pat piece : List α) : Prop :=
  ∀ t ∈ piece.tails, t ≠ [] → ¬ t <+: pat ∧ ¬ pat <+: t

theorem free_literal {piece : List α} (h : Apart pat piece) (hs : Free pat s) :
    Free pat (piece ++ s) := by
  induction piece with
  | nil => exact hs
  | cons c piece ih =>
    have hpiece : Apart pat piece := fun t ht => h t (by
      rw [tails_cons]
      exact mem_cons_of_mem _ ht)
    have hfront := h (c :: piece) (by simp) (by simp)
    rw [cons_append, free_cons]
    refine ⟨?_, ih hpiece⟩
    intro hocc
    rcases prefix_or_prefix_of_prefix hocc (prefix_append (c :: piece) s) with h' | h'
    · exact hfront.2 h'
    · exact hfront.1 h'

/-! ## The first occurrence -/

section

variable [DecidableEq α]

instance (pat s : List α) : Decidable (Free pat s) := inferInstanceAs (Decidable (¬ _))

instance (pat piece : List α) : Decidable (Apart pat piece) := by
  unfold Apart
  infer_instance

@[grind =]
def find (pat : List α) : List α → Option Nat
  | [] => if pat = [] then some 0 else none
  | c :: s => if pat <+: c :: s then some 0 else (find pat s).map (· + 1)

variable {pat s : List α}

theorem find_eq_none (h : Free pat s) : find pat s = none := by
  induction s with
  | nil =>
    rw [find, if_neg]
    rintro rfl
    exact h (List.nil_infix)
  | cons c s ih =>
    obtain ⟨hpre, hs⟩ := free_cons.mp h
    rw [find, if_neg hpre, ih hs]
    rfl

theorem find_self_append (pat s : List α) : find pat (pat ++ s) = some 0 := by
  cases h : pat ++ s with
  | nil => rw [find, if_pos (append_eq_nil_iff.mp h).1]
  | cons c t => rw [find, if_pos (h ▸ prefix_append pat s)]

variable {a : List α}

/-- The first occurrence is where no occurrence begins before. -/
theorem find_append (h : Free pat (a ++ pat.dropLast)) (s : List α) :
    find pat (a ++ pat ++ s) = some a.length := by
  induction a with
  | nil => exact find_self_append pat s
  | cons c a ih =>
    have hpre : ¬ pat <+: c :: (a ++ pat ++ s) := by
      intro hpre
      have hshort : c :: a ++ pat.dropLast <+: c :: (a ++ pat ++ s) := by
        rw [append_assoc, cons_append, cons_prefix_cons]
        refine ⟨rfl, ?_⟩
        exact (prefix_append_right_inj a).mpr
          ((List.dropLast_prefix pat).trans (prefix_append pat s))
      have hle : pat.length ≤ (c :: a ++ pat.dropLast).length := by
        simp only [cons_append, length_cons, length_append, length_dropLast]
        omega
      exact h (prefix_of_prefix_length_le hpre hshort hle).isInfix
    have ih := ih (Free.of_append_right (a := [c]) h)
    rw [cons_append, cons_append, find, if_neg hpre, ih]
    rfl

theorem find_append_of_notMem {c : α} (h : c ∉ a) (s : List α) :
    find (c :: pat) (a ++ s) = (find (c :: pat) s).map (· + a.length) := by
  induction a with
  | nil => simp
  | cons d a ih =>
    rw [mem_cons, not_or] at h
    have hpre : ¬ (c :: pat) <+: d :: (a ++ s) := fun hpre =>
      h.1 (cons_prefix_cons.mp hpre).1
    rw [cons_append, find, if_neg hpre, ih h.2, Option.map_map]
    rfl

theorem prefix_drop_of_find {i : Nat} (h : find pat s = some i) : pat <+: s.drop i := by
  induction s generalizing i with
  | nil =>
    rw [find] at h
    split at h
    · rename_i hnil
      rw [hnil]
      exact nil_prefix
    · cases h
  | cons c s ih =>
    rw [find] at h
    split at h
    · cases h
      assumption
    · obtain ⟨j, hj, rfl⟩ := Option.map_eq_some_iff.mp h
      exact ih hj

theorem exists_find_of_infix (h : pat <:+: s) : ∃ i, find pat s = some i := by
  induction s with
  | nil => exact ⟨0, by rw [find, if_pos (infix_nil.mp h)]⟩
  | cons c s ih =>
    by_cases hpre : pat <+: c :: s
    · exact ⟨0, by rw [find, if_pos hpre]⟩
    · obtain ⟨i, hi⟩ := ih ((infix_cons_iff.mp h).resolve_left hpre)
      exact ⟨i + 1, by rw [find, if_neg hpre, hi, Option.map_some]⟩

theorem find_past {c : α} (ha : c ∉ a) (hpre : ¬ pat <+: a ++ s) :
    find (c :: pat) (c :: a ++ s) = (find (c :: pat) s).map (· + (a.length + 1)) := by
  have hnot : ¬ c :: pat <+: c :: (a ++ s) := fun h => hpre (cons_prefix_cons.mp h).2
  rw [cons_append, find, if_neg hnot, find_append_of_notMem ha, Option.map_map]
  rfl

/-! ## The last occurrence -/

@[grind =]
def rfind (pat : List α) : List α → Option Nat
  | [] => if pat = [] then some 0 else none
  | c :: s =>
    match rfind pat s with
    | some i => some (i + 1)
    | none => if pat <+: c :: s then some 0 else none

theorem rfind_eq_none (h : Free pat s) : rfind pat s = none := by
  induction s with
  | nil =>
    rw [rfind, if_neg]
    rintro rfl
    exact h nil_infix
  | cons c s ih =>
    obtain ⟨hpre, hs⟩ := free_cons.mp h
    rw [rfind, ih hs]
    exact if_neg hpre

theorem rfind_append_self (hpat : pat ≠ []) (a : List α) : rfind pat (a ++ pat) = some a.length := by
  induction a with
  | nil =>
    cases pat with
    | nil => exact absurd rfl hpat
    | cons c pat =>
      have hfree : Free (c :: pat) pat := fun hin => by
        have hlen := hin.length_le
        rw [length_cons] at hlen
        omega
      rw [nil_append, rfind, rfind_eq_none hfree]
      exact if_pos (prefix_refl _)
  | cons c a ih =>
    rw [cons_append, rfind, ih]
    rfl

end

end Search
