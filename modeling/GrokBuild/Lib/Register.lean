import Mathlib.Tactic

/-!
# Values that many writers update

Three ways to merge an update into a stored value so that the order of the
writers does not matter, or matters in one known way: a counter that saturates
(`bump`), a high-water mark (`List.foldl max`), and a value kept with the rank
of its writer (`Ranked`). Each is a fold over the updates, and the lemmas say
what the fold ends with in terms of the updates as a collection.
-/

namespace Register

open List

/-! ## Counters -/

/-- Count up, but not past the cap. -/
def bump (cap n k : Nat) : Nat := min (n + k) cap

theorem bump_zero {cap n : Nat} (h : n ≤ cap) : bump cap n 0 = n := by
  simp [bump, h]

theorem bump_bump (cap n j k : Nat) : bump cap (bump cap n j) k = bump cap n (j + k) := by
  unfold bump
  omega

theorem foldl_bump {cap n : Nat} (h : n ≤ cap) (ks : List Nat) :
    ks.foldl (bump cap) n = bump cap n ks.sum := by
  induction ks generalizing n with
  | nil => exact (bump_zero h).symm
  | cons k ks ih =>
    have hn : bump cap n k ≤ cap := min_le_right _ _
    rw [foldl_cons, ih hn, bump_bump, sum_cons]

/-! ## High-water marks -/

section HighWater

variable {ρ : Type*} [LinearOrder ρ]

theorem le_foldl_max (a : ρ) (rs : List ρ) : a ≤ rs.foldl max a := by
  induction rs generalizing a with
  | nil => exact le_refl a
  | cons r rs ih => exact (le_max_left a r).trans (ih _)

theorem isGreatest_foldl_max (a : ρ) (rs : List ρ) :
    IsGreatest {r | r = a ∨ r ∈ rs} (rs.foldl max a) := by
  induction rs generalizing a with
  | nil => simp [IsGreatest, upperBounds]
  | cons r rs ih =>
    obtain ⟨hmem, hupper⟩ := ih (max a r)
    refine ⟨?_, ?_⟩
    · rcases hmem with h | h
      · rw [foldl_cons, h]
        rcases max_choice a r with h' | h' <;> simp [h']
      · exact Or.inr (mem_cons_of_mem r h)
    · have hmax : max a r ≤ rs.foldl max (max a r) := le_foldl_max _ rs
      rintro x (rfl | hx)
      · exact (le_max_left x r).trans hmax
      · rcases mem_cons.mp hx with rfl | hx
        · exact (le_max_right a x).trans hmax
        · exact hupper (Or.inr hx)

end HighWater

/-! ## Ranked values -/

/-- A value and the rank it was written with. A writer may raise the rank and
bring no value. -/
structure Ranked (ρ α : Type*) where
  rank : ρ
  value : Option α

namespace Ranked

variable {ρ α : Type*} [LinearOrder ρ]

/-- A write of a lower rank has no effect. -/
def write (r w : Ranked ρ α) : Ranked ρ α :=
  if r.rank ≤ w.rank then ⟨w.rank, w.value.or r.value⟩ else r

theorem rank_write (r w : Ranked ρ α) : (r.write w).rank = max r.rank w.rank := by
  unfold write
  split
  · next h => exact (max_eq_right h).symm
  · next h => exact (max_eq_left (not_le.mp h).le).symm

theorem rank_foldl_write (r : Ranked ρ α) (ws : List (Ranked ρ α)) :
    (ws.foldl write r).rank = (ws.map rank).foldl max r.rank := by
  induction ws generalizing r with
  | nil => rfl
  | cons w ws ih => rw [foldl_cons, ih, rank_write]; rfl

/-- Writes below the rank that is held change nothing, and a write at that
rank leaves a value of a writer of that rank. -/
theorem value_foldl_write_of_held {top : ρ} {ws : List (Ranked ρ α)} (hle : ∀ w ∈ ws, w.rank ≤ top)
    {r : Ranked ρ α} (hrank : r.rank = top) :
    (ws.foldl write r).value = r.value ∨
      ∃ w ∈ ws, w.rank = top ∧ w.value.isSome ∧ (ws.foldl write r).value = w.value := by
  induction ws generalizing r with
  | nil => exact Or.inl rfl
  | cons w ws ih =>
    have htop : (r.write w).rank = top := by
      rw [rank_write, hrank]
      exact max_eq_left (hle w mem_cons_self)
    rcases ih (fun v hv => hle v (mem_cons_of_mem w hv)) htop with h | ⟨v, hv, h⟩
    · rw [foldl_cons, h]
      unfold write
      split
      · next hw =>
        cases hvalue : w.value with
        | none => exact Or.inl rfl
        | some a =>
          refine Or.inr ⟨w, mem_cons_self, ?_, by simp [hvalue], by simp [hvalue]⟩
          exact le_antisymm (hle w mem_cons_self) (hrank ▸ hw)
      · exact Or.inl rfl
    · exact Or.inr ⟨v, mem_cons_of_mem w hv, h⟩

/-- Where a writer of the highest rank brings a value, the value in the end is
one that such a writer brought. -/
theorem value_foldl_write {top : ρ} {ws : List (Ranked ρ α)} {r : Ranked ρ α} (hr : r.rank ≤ top)
    (hle : ∀ w ∈ ws, w.rank ≤ top) (htop : ∃ w ∈ ws, w.rank = top ∧ w.value.isSome) :
    ∃ w ∈ ws, w.rank = top ∧ w.value.isSome ∧ (ws.foldl write r).value = w.value := by
  induction ws generalizing r with
  | nil => simp at htop
  | cons w ws ih =>
    have hrest : ∀ v ∈ ws, v.rank ≤ top := fun v hv => hle v (mem_cons_of_mem w hv)
    have hw : (r.write w).rank ≤ top := by
      rw [rank_write]
      exact max_le hr (hle w mem_cons_self)
    by_cases hlater : ∃ v ∈ ws, v.rank = top ∧ v.value.isSome
    · obtain ⟨v, hv, h⟩ := ih hw hrest hlater
      exact ⟨v, mem_cons_of_mem w hv, h⟩
    · -- then the first write is the only one of that rank with a value
      obtain ⟨v, hv, hrank, hsome⟩ := htop
      rcases mem_cons.mp hv with rfl | hv
      · have hwrite : r.write v = ⟨v.rank, v.value⟩ := by
          unfold write
          rw [if_pos (hrank ▸ hr)]
          obtain ⟨a, ha⟩ := Option.isSome_iff_exists.mp hsome
          simp [ha]
        refine ⟨v, mem_cons_self, hrank, hsome, ?_⟩
        rcases value_foldl_write_of_held hrest (r := r.write v) (by rw [hwrite, hrank]) with h | h
        · rw [foldl_cons, h, hwrite]
        · obtain ⟨u, hu, hutop, husome, -⟩ := h
          exact absurd ⟨u, hu, hutop, husome⟩ hlater
      · exact absurd ⟨v, hv, hrank, hsome⟩ hlater

end Ranked

end Register
