import Mathlib.Algebra.BigOperators.Group.List.Basic
import Mathlib.Order.Basic
import Mathlib.Tactic

/-!
# Giving up the oldest until a load fits

A load of size `n` carries parts, oldest first, and part `i` gives back
`ss[i]` when it is dropped. `shed` drops the oldest parts while the load is
over its target. It is the least number of parts that is enough
(`shed_le_iff`), so it grows with the load (`shed_le_shed_append`), and it
stays where it was exactly when the grown load still fits behind the dropped
parts (`shed_append_eq_iff`).
-/

namespace Shed

open List

variable {target n m k : Nat} {ss ts : List Nat}

/-- How many of the oldest parts are dropped. -/
def shed (target : Nat) : List Nat → Nat → Nat
  | [], _ => 0
  | s :: ss, n => if n ≤ target then 0 else shed target ss (n - s) + 1

/-- Dropping the oldest `k` brings the load down to the target, or drops all. -/
def Enough (target : Nat) (ss : List Nat) (n k : Nat) : Prop :=
  n ≤ target + (ss.take k).sum ∨ ss.length ≤ k

@[simp] theorem shed_nil : shed target [] n = 0 := rfl

theorem shed_le_length : shed target ss n ≤ ss.length := by
  induction ss generalizing n with
  | nil => exact Nat.le_refl _
  | cons s ss ih =>
    rw [shed, length_cons]
    split
    · exact Nat.zero_le _
    · exact Nat.succ_le_succ ih

theorem shed_of_le (h : n ≤ target) : shed target ss n = 0 := by
  cases ss with
  | nil => rfl
  | cons s ss => rw [shed, if_pos h]

/-- Dropping is over after `k` parts exactly when `k` are enough. -/
theorem shed_le_iff : shed target ss n ≤ k ↔ Enough target ss n k := by
  induction ss generalizing n k with
  | nil => simp [Enough]
  | cons s ss ih =>
    rw [shed]
    split
    · have : n ≤ target + ((s :: ss).take k).sum := by omega
      exact iff_of_true (Nat.zero_le k) (.inl this)
    · cases k with
      | zero =>
        have : ¬ Enough target (s :: ss) n 0 := by
          rintro (h | h)
          · rw [take_zero, sum_nil] at h
            omega
          · simp at h
        exact iff_of_false (by omega) this
      | succ k =>
        rw [Nat.succ_le_succ_iff, ih, Enough, Enough, take_succ_cons, sum_cons,
          length_cons]
        omega

theorem enough_shed : Enough target ss n (shed target ss n) := shed_le_iff.mp (Nat.le_refl _)

/-- A part is dropped exactly from a load over its target that has one. -/
theorem shed_pos_iff : 0 < shed target ss n ↔ target < n ∧ ss ≠ [] := by
  have h0 : shed target ss n ≤ 0 ↔ n ≤ target ∨ ss = [] := by
    rw [shed_le_iff, Enough, take_zero, sum_nil, Nat.le_zero, length_eq_zero_iff,
      Nat.add_zero]
  rw [Nat.pos_iff_ne_zero, ne_eq, ← Nat.le_zero, h0, not_or, Nat.not_le]

theorem shed_le_shed_append (h : n ≤ m) : shed target ss n ≤ shed target (ss ++ ts) m := by
  rw [shed_le_iff]
  have hshed : Enough target (ss ++ ts) m (shed target (ss ++ ts) m) := enough_shed
  obtain hfit | hall := hshed
  · rcases Nat.lt_or_ge (shed target (ss ++ ts) m) ss.length with hlt | hge
    · rw [take_append_of_le_length hlt.le] at hfit
      exact .inl (h.trans hfit)
    · exact .inr hge
  · rw [length_append] at hall
    exact .inr (by omega)

/-- Nothing more is dropped from a load that grew exactly when, wherever
dropping could have stopped before, the grown load fits too or nothing is left. -/
theorem shed_append_eq_iff (h : n ≤ m) :
    shed target (ss ++ ts) m = shed target ss n ↔
      ∀ k ≤ ss.length, Enough target ss n k →
        m ≤ target + (ss.take k).sum ∨ (ss ++ ts).length ≤ k := by
  have htake : ∀ k ≤ ss.length, (ss ++ ts).take k = ss.take k := fun k hk =>
    take_append_of_le_length hk
  constructor
  · intro heq k hk henough
    have hstop : shed target (ss ++ ts) m ≤ k := heq.trans_le (shed_le_iff.mpr henough)
    rw [shed_le_iff, Enough, htake k hk] at hstop
    exact hstop
  · intro hfits
    refine Nat.le_antisymm (shed_le_iff.mpr ?_) (shed_le_shed_append h)
    rw [Enough, htake _ shed_le_length]
    exact hfits _ shed_le_length enough_shed

end Shed
