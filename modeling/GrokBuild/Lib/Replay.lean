import Mathlib.Tactic

/-!
# Replay of a deterministic strategy

A strategy chooses its next call from the observations it has made; a log
answers calls from a position on, and each answer moves the position.
`Tells` lists the observations that the log alone can give. Two such lists
are comparable, and a longer log tells at least as much.
-/

namespace Replay

open List

variable {Call Obs Pos : Type} {next : List Obs → Option Call}
  {answer answer' : Pos → Call → Option (Obs × Pos)} {first : Pos}

/-- The observations that the answers give to the strategy, and the position
behind them. -/
inductive Tells (next : List Obs → Option Call) (answer : Pos → Call → Option (Obs × Pos))
    (first : Pos) : List Obs → Pos → Prop
  | start : Tells next answer first [] first
  | call {seen : List Obs} {k k' : Pos} {c : Call} {o : Obs} (h : Tells next answer first seen k)
      (hcall : next seen = some c) (hanswer : answer k c = some (o, k')) :
      Tells next answer first (seen ++ [o]) k'

namespace Tells

variable {seen seen' : List Obs} {k k' : Pos}

theorem mono (hmono : ∀ k c r, answer k c = some r → answer' k c = some r)
    (h : Tells next answer first seen k) : Tells next answer' first seen k := by
  induction h with
  | start => exact .start
  | call _ hcall hanswer ih => exact .call ih hcall (hmono _ _ _ hanswer)

theorem position_unique (h : Tells next answer first seen k)
    (h' : Tells next answer first seen k') : k = k' := by
  induction h generalizing k' with
  | start =>
    generalize hnil : ([] : List Obs) = seen' at h'
    cases h' with
    | start => rfl
    | call _ _ _ => simp at hnil
  | @call seen k₁ k₂ c o _ hcall hanswer ih =>
    generalize hsnoc : seen ++ [o] = seen' at h'
    cases h' with
    | start => simp at hsnoc
    | call h₀ hcall' hanswer' =>
      obtain ⟨rfl, rfl⟩ := append_singleton_inj.mp hsnoc
      obtain rfl := ih h₀
      rw [hcall] at hcall'
      cases hcall'
      rw [hanswer] at hanswer'
      cases hanswer'
      rfl

theorem comparable (h : Tells next answer first seen k) (h' : Tells next answer first seen' k')
    (hle : seen.length ≤ seen'.length) : seen <+: seen' := by
  induction h' generalizing seen k with
  | start =>
    obtain rfl := length_eq_zero_iff.mp (Nat.le_zero.mp hle)
    exact prefix_rfl
  | @call seen' k₁ k₂ c o h₀ hcall hanswer ih =>
    by_cases hshort : seen.length ≤ seen'.length
    · exact (ih h hshort).trans (prefix_append _ _)
    · cases h with
      | start => exact absurd (Nat.zero_le _) hshort
      | @call seen k₃ k₄ c' o' h₁ hcall' hanswer' =>
        -- both lists end with the answer to one and the same call
        rw [length_append, length_singleton] at hshort hle
        rw [length_append, length_singleton] at hle
        have hpre : seen <+: seen' := ih h₁ (by omega)
        have heq : seen = seen' := hpre.eq_of_length (by omega)
        subst heq
        obtain rfl := h₀.position_unique h₁
        rw [hcall] at hcall'
        cases hcall'
        rw [hanswer] at hanswer'
        cases hanswer'
        exact prefix_rfl

theorem answer_of_lt (h : Tells next answer first seen k) (h' : Tells next answer first seen' k')
    (hlt : seen.length < seen'.length) :
    ∃ c o k'', next seen = some c ∧ answer k c = some (o, k'') := by
  induction h' with
  | start => exact absurd hlt (Nat.not_lt_zero _)
  | @call seen' k₁ k₂ c o h₀ hcall hanswer ih =>
    by_cases hshort : seen.length < seen'.length
    · exact ih hshort
    · rw [length_append, length_singleton] at hlt
      have heq : seen = seen' := (h.comparable h₀ (by omega)).eq_of_length (by omega)
      subst heq
      obtain rfl := h₀.position_unique h
      exact ⟨c, o, k₂, hcall, hanswer⟩

theorem length_le (h : Tells next answer first seen k)
    (hnone : ∀ c, next seen = some c → answer k c = none)
    (h' : Tells next answer first seen' k') : seen'.length ≤ seen.length := by
  by_contra hlt
  obtain ⟨c, o, k'', hcall, hanswer⟩ := h.answer_of_lt h' (by omega)
  rw [hnone c hcall] at hanswer
  cases hanswer

/-- When answers never move back, the longer list ends at the later
position. -/
theorem position_le [Preorder Pos] (hadvance : ∀ k c o k', answer k c = some (o, k') → k ≤ k')
    (h : Tells next answer first seen k) (h' : Tells next answer first seen' k')
    (hle : seen.length ≤ seen'.length) : k ≤ k' := by
  induction h' with
  | start =>
    obtain rfl := length_eq_zero_iff.mp (Nat.le_zero.mp hle)
    rw [h.position_unique .start]
  | @call seen' k₁ k₂ c o h₀ hcall hanswer ih =>
    by_cases hshort : seen.length ≤ seen'.length
    · exact (ih hshort).trans (hadvance _ _ _ _ hanswer)
    · rw [length_append, length_singleton] at hle
      have heq : seen = seen' ++ [o] :=
        (h.comparable (.call h₀ hcall hanswer) (by simpa using hle)).eq_of_length
          (by rw [length_append, length_singleton]; omega)
      subst heq
      rw [h.position_unique (.call h₀ hcall hanswer)]

end Tells

end Replay
