import Mathlib.Data.List.Basic
import Mathlib.Data.List.Count
import Mathlib.Tactic

/-!
# Whole lines

A list cut behind every occurrence of a terminator: the pieces put together are
the list again. Two lists are cut independently where the first ends with the
terminator (`splitInclusive_append`), and there are as many pieces as
terminators, and one more for an unterminated end.
-/

namespace WholeLines

open List

variable {α : Type*} [DecidableEq α] {n : α}

/-- Cut behind every `n`. -/
def splitInclusive (n : α) : List α → List (List α)
  | [] => []
  | c :: s =>
    if c = n then [c] :: splitInclusive n s
    else
      match splitInclusive n s with
      | [] => [[c]]
      | l :: ls => (c :: l) :: ls

/-- Nothing, or something that a terminator ends. -/
def Ended (n : α) (s : List α) : Prop := s = [] ∨ s.getLast? = some n

theorem splitInclusive_nil : splitInclusive n [] = [] := rfl

theorem splitInclusive_self (s : List α) :
    splitInclusive n (n :: s) = [n] :: splitInclusive n s := if_pos rfl

variable {s : List α}

theorem splitInclusive_of_ne {c : α} (h : c ≠ n) {l : List α} {ls : List (List α)}
    (hs : splitInclusive n s = l :: ls) : splitInclusive n (c :: s) = (c :: l) :: ls := by
  rw [splitInclusive, if_neg h, hs]

theorem splitInclusive_ne_nil (h : s ≠ []) : splitInclusive n s ≠ [] := by
  cases s with
  | nil => exact absurd rfl h
  | cons c s =>
    rw [splitInclusive]
    split
    · exact cons_ne_nil _ _
    · split
      · exact cons_ne_nil _ _
      · exact cons_ne_nil _ _

omit [DecidableEq α] in
theorem Ended.of_cons {c : α} (h : Ended n (c :: s)) (hs : s ≠ []) : Ended n s := by
  rcases h with h | h
  · cases h
  · right
    rwa [getLast?_cons_of_ne_nil hs] at h

variable {a : List α}

theorem splitInclusive_append (h : Ended n a) (b : List α) :
    splitInclusive n (a ++ b) = splitInclusive n a ++ splitInclusive n b := by
  induction a with
  | nil => rfl
  | cons c a ih =>
    by_cases hc : c = n
    · subst hc
      have ha : Ended c a := by
        by_cases hnil : a = []
        · exact .inl hnil
        · exact h.of_cons hnil
      rw [cons_append, splitInclusive_self, splitInclusive_self, ih ha, cons_append]
    · have hne : a ≠ [] := by
        rintro rfl
        rcases h with h | h
        · cases h
        · exact hc (Option.some.inj h)
      obtain ⟨l, ls, hl⟩ := exists_cons_of_ne_nil (splitInclusive_ne_nil (n := n) hne)
      have happend := ih (h.of_cons hne)
      rw [hl, cons_append] at happend
      rw [cons_append, splitInclusive_of_ne hc happend, splitInclusive_of_ne hc hl,
        cons_append]

theorem length_splitInclusive_cons {c : α} {t : List α} {k : Nat} (hnil : s ≠ [])
    (hlen : (splitInclusive n s).length = t.count n + k) :
    (splitInclusive n (c :: s)).length = (c :: t).count n + k := by
  by_cases hc : c = n
  · subst hc
    rw [splitInclusive_self, length_cons, hlen, count_cons_self]
    omega
  · obtain ⟨l, ls, hl⟩ := exists_cons_of_ne_nil (splitInclusive_ne_nil (n := n) hnil)
    rw [splitInclusive_of_ne hc hl, count_cons_of_ne hc, ← hlen, hl]
    rfl

theorem length_splitInclusive_of_ended (h : Ended n s) : (splitInclusive n s).length = s.count n := by
  induction s with
  | nil => rfl
  | cons c s ih =>
    by_cases hnil : s = []
    · subst hnil
      rcases h with h | h
      · cases h
      · obtain rfl : c = n := Option.some.inj h
        rw [splitInclusive_self, count_cons_self]
        rfl
    · exact length_splitInclusive_cons (k := 0) hnil (ih (h.of_cons hnil))

theorem length_splitInclusive (h : s ≠ []) : (splitInclusive n s).length = s.dropLast.count n + 1 := by
  induction s with
  | nil => exact absurd rfl h
  | cons c s ih =>
    by_cases hnil : s = []
    · subst hnil
      rw [splitInclusive]
      split
      · rfl
      · rfl
    · rw [dropLast_cons_of_ne_nil hnil]
      exact length_splitInclusive_cons hnil (ih hnil)

theorem exists_lastLine (n : α) (s : List α) :
    ∃ above line, s = above ++ line ∧ n ∉ line ∧ Ended n above := by
  induction s with
  | nil => exact ⟨[], [], rfl, not_mem_nil, .inl rfl⟩
  | cons c s ih =>
    obtain ⟨above, line, rfl, hline, habove⟩ := ih
    by_cases hnil : above = []
    · subst hnil
      by_cases hc : c = n
      · subst hc
        exact ⟨[c], line, rfl, hline, .inr rfl⟩
      · refine ⟨[], c :: line, rfl, ?_, .inl rfl⟩
        rw [mem_cons, not_or]
        exact ⟨Ne.symm hc, hline⟩
    · refine ⟨c :: above, line, rfl, hline, .inr ?_⟩
      rw [getLast?_cons_of_ne_nil hnil]
      exact habove.resolve_left hnil

theorem exists_firstLine (n : α) (s : List α) : ∃ line below, s = line ++ below ∧
    ∃ a, n ∉ a ∧ (line = a ++ [n] ∨ line = a ∧ below = []) := by
  by_cases h : n ∈ s
  · obtain ⟨a, b, rfl, ha⟩ := eq_append_cons_of_mem h
    exact ⟨a ++ [n], b, by simp, a, ha, .inl rfl⟩
  · exact ⟨s, [], (append_nil s).symm, s, h, .inr ⟨rfl, rfl⟩⟩

end WholeLines
