import Mathlib.Data.List.AList
import Mathlib.Algebra.BigOperators.Group.List.Basic
import Mathlib.Tactic.Abel

/-!
# Totals of association lists

The sum of a weight over the entries of a finite map: how it changes when
one entry is written or erased, and what it is when the map is known entry
by entry.
-/

namespace Ledger

open List

variable {κ β α M : Type}

/-- The sum of the weights of the entries. -/
def total [AddCommMonoid M] (w : β → M) (m : AList fun _ : κ => β) : M :=
  (m.entries.map fun e => w e.2).sum

variable [DecidableEq κ]

section Group

variable [AddCommGroup M] (w : β → M)

theorem sum_kerase (k : κ) (l : List (Σ _ : κ, β)) :
    ((l.kerase k).map fun e => w e.2).sum
      = (l.map fun e => w e.2).sum - (l.dlookup k).elim 0 w := by
  induction l with
  | nil => simp
  | cons e l ih =>
    obtain ⟨j, v⟩ := e
    by_cases hk : k = j
    · subst hk
      simp
    · have hlook : List.dlookup k (⟨j, v⟩ :: l) = List.dlookup k l :=
        dlookup_cons_ne l (⟨j, v⟩ : Σ _ : κ, β) hk
      rw [kerase_cons_ne hk, hlook]
      simp only [map_cons, sum_cons, ih]
      abel

theorem total_erase (k : κ) (m : AList fun _ : κ => β) :
    total w (m.erase k) = total w m - (m.lookup k).elim 0 w :=
  sum_kerase w k m.entries

theorem total_insert (k : κ) (v : β) (m : AList fun _ : κ => β) :
    total w (m.insert k v) = total w m - (m.lookup k).elim 0 w + w v := by
  rw [total, AList.entries_insert, map_cons, sum_cons, sum_kerase, add_comm]
  rfl

end Group

theorem total_eq_sum [AddCommMonoid M] (w : β → M) (m : AList fun _ : κ => β) (xs : List α)
    (key : α → κ) (val : α → β) (hkeys : (xs.map key).Nodup)
    (h : ∀ k v, m.lookup k = some v ↔ ∃ x ∈ xs, key x = k ∧ val x = v) :
    total w m = (xs.map fun x => w (val x)).sum := by
  let entry : α → Σ _ : κ, β := fun x => ⟨key x, val x⟩
  have hentries : m.entries.Nodup := List.NodupKeys.nodup m.nodupKeys
  have hxs : (xs.map entry).Nodup := by
    refine List.Nodup.of_map (Sigma.fst) ?_
    rw [List.map_map]
    exact hkeys
  have hperm : m.entries.Perm (xs.map entry) := by
    rw [perm_ext_iff_of_nodup hentries hxs]
    rintro ⟨k, v⟩
    rw [← AList.mem_lookup_iff, Option.mem_def, h k v, List.mem_map]
    constructor
    · rintro ⟨x, hx, rfl, rfl⟩
      exact ⟨x, hx, rfl⟩
    · rintro ⟨x, hx, heq⟩
      cases heq
      exact ⟨x, hx, rfl, rfl⟩
  have hsum := (hperm.map fun e => w e.2).sum_eq
  rw [List.map_map] at hsum
  exact hsum

end Ledger
