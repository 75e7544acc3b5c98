import Mathlib.Data.List.Infix
import Mathlib.Data.List.Pairwise
import Mathlib.Tactic

/-!
# Scanning for a pattern

Where a pattern occurs in a list (`Occurs`, overlapping occurrences too), and
what a scan from the left takes that goes on behind each occurrence (`scan`).
The scan takes occurrences in order, none inside another, and every occurrence
lies in or behind the one it takes last (`exists_scan_of_occurs`). It takes a
second one exactly where two of them are apart (`one_lt_length_scan_iff`).
-/

namespace Scan

open List

variable {α : Type*} [DecidableEq α] {pat s : List α} {i j m k : Nat}

def Occurs (pat s : List α) (i : Nat) : Prop := i ≤ s.length ∧ pat <+: s.drop i

instance : Decidable (Occurs pat s i) := inferInstanceAs (Decidable (_ ∧ _))

/-- With the elements that are still to be skipped, and the index. -/
@[grind =]
def scanFrom (pat : List α) : Nat → Nat → List α → List Nat
  | _, _, [] => []
  | skip + 1, i, _ :: s => scanFrom pat skip (i + 1) s
  | 0, i, c :: s =>
    if pat <+: c :: s then i :: scanFrom pat (pat.length - 1) (i + 1) s else scanFrom pat 0 (i + 1) s

/-- The empty pattern occurs everywhere. -/
def scan (pat s : List α) : List Nat :=
  if pat = [] then List.range (s.length + 1) else scanFrom pat 0 0 s

omit [DecidableEq α] in
theorem occurs_iff : Occurs pat s i ↔ ∃ x y, s = x ++ pat ++ y ∧ x.length = i := by
  constructor
  · rintro ⟨hle, y, hy⟩
    refine ⟨s.take i, y, ?_, by rw [length_take, Nat.min_eq_left hle]⟩
    rw [append_assoc, hy, take_append_drop]
  · rintro ⟨x, y, rfl, rfl⟩
    constructor
    · rw [length_append, length_append]
      omega
    · rw [append_assoc, drop_left]
      exact prefix_append pat y

omit [DecidableEq α] in
theorem Occurs.add_le (h : Occurs pat s i) : i + pat.length ≤ s.length := by
  obtain ⟨x, y, rfl, rfl⟩ := occurs_iff.mp h
  rw [length_append, length_append]
  omega

omit [DecidableEq α] in
theorem occurs_cons {c : α} : Occurs pat (c :: s) (i + 1) ↔ Occurs pat s i := by
  rw [Occurs, Occurs, drop_succ_cons, length_cons, Nat.add_le_add_iff_right]

theorem exists_of_mem_scanFrom (h : j ∈ scanFrom pat k i s) :
    ∃ m, j = i + m ∧ k ≤ m ∧ Occurs pat s m := by
  induction s generalizing k i with
  | nil =>
    rw [scanFrom] at h
    cases h
  | cons c s ih =>
    cases k with
    | succ k =>
      rw [scanFrom] at h
      obtain ⟨m, rfl, hk, hm⟩ := ih h
      exact ⟨m + 1, by omega, by omega, occurs_cons.mpr hm⟩
    | zero =>
      rw [scanFrom] at h
      split at h
      · rename_i hpre
        rcases mem_cons.mp h with rfl | h
        · exact ⟨0, rfl, Nat.le_refl 0, Nat.zero_le _, hpre⟩
        · obtain ⟨m, rfl, hk, hm⟩ := ih h
          exact ⟨m + 1, by omega, by omega, occurs_cons.mpr hm⟩
      · obtain ⟨m, rfl, hk, hm⟩ := ih h
        exact ⟨m + 1, by omega, by omega, occurs_cons.mpr hm⟩

theorem scanFrom_sorted (hpat : pat ≠ []) :
    (scanFrom pat k i s).Pairwise fun j j' => j + pat.length ≤ j' := by
  have hpos := length_pos_of_ne_nil hpat
  induction s generalizing k i with
  | nil =>
    rw [scanFrom]
    exact List.Pairwise.nil
  | cons c s ih =>
    cases k with
    | succ k =>
      rw [scanFrom]
      exact ih
    | zero =>
      rw [scanFrom]
      split
      · refine pairwise_cons.mpr ⟨fun j hj => ?_, ih⟩
        obtain ⟨m, rfl, hm, -⟩ := exists_of_mem_scanFrom hj
        omega
      · exact ih

/-- An occurrence that is not skipped is taken, or lies in one that is. -/
theorem exists_scanFrom (hpat : pat ≠ []) (h : Occurs pat s m) (hk : k ≤ m) :
    ∃ j ∈ scanFrom pat k i s, j ≤ i + m ∧ i + m < j + pat.length := by
  have hpos := length_pos_of_ne_nil hpat
  induction s generalizing k i m with
  | nil =>
    have hlen := h.add_le
    rw [length_nil] at hlen
    omega
  | cons c s ih =>
    cases k with
    | succ k =>
      obtain ⟨m, rfl⟩ := Nat.exists_eq_add_of_lt (show 0 < m by omega)
      rw [Nat.zero_add] at h hk ⊢
      rw [scanFrom]
      obtain ⟨j, hj, hle, hlt⟩ := ih (i := i + 1) (occurs_cons.mp h) (k := k) (by omega)
      exact ⟨j, hj, by omega, by omega⟩
    | zero =>
      rw [scanFrom]
      by_cases hpre : pat <+: c :: s
      · rw [if_pos hpre]
        by_cases hin : m < pat.length
        · exact ⟨i, mem_cons_self, by omega, by omega⟩
        · obtain ⟨m, rfl⟩ := Nat.exists_eq_add_of_lt (show 0 < m by omega)
          rw [Nat.zero_add] at h hin ⊢
          obtain ⟨j, hj, hle, hlt⟩ := ih (i := i + 1) (occurs_cons.mp h) (k := pat.length - 1) (by omega)
          exact ⟨j, mem_cons_of_mem _ hj, by omega, by omega⟩
      · rw [if_neg hpre]
        obtain ⟨m, rfl⟩ : ∃ m', m = m' + 1 := by
          cases m with
          | zero => exact absurd h.2 hpre
          | succ m => exact ⟨m, rfl⟩
        obtain ⟨j, hj, hle, hlt⟩ := ih (i := i + 1) (occurs_cons.mp h) (k := 0) (Nat.zero_le _)
        exact ⟨j, hj, by omega, by omega⟩

/-! ## The whole scan -/

theorem occurs_of_mem_scan (h : j ∈ scan pat s) : Occurs pat s j := by
  rw [scan] at h
  split at h
  · rename_i hpat
    subst hpat
    rw [mem_range] at h
    exact ⟨by omega, nil_prefix⟩
  · rename_i hpat
    obtain ⟨m, rfl, -, hm⟩ := exists_of_mem_scanFrom h
    rwa [Nat.zero_add]

theorem scan_sorted (hpat : pat ≠ []) : (scan pat s).Pairwise fun j j' => j + pat.length ≤ j' := by
  rw [scan, if_neg hpat]
  exact scanFrom_sorted hpat

theorem exists_scan_of_occurs (hpat : pat ≠ []) (h : Occurs pat s m) :
    ∃ j ∈ scan pat s, j ≤ m ∧ m < j + pat.length := by
  rw [scan, if_neg hpat]
  obtain ⟨j, hj, hle, hlt⟩ := exists_scanFrom (i := 0) hpat h (Nat.zero_le _)
  exact ⟨j, hj, by omega, by omega⟩

theorem scan_eq_nil_iff : scan pat s = [] ↔ ∀ m, ¬ Occurs pat s m := by
  constructor
  · intro hnil m hm
    by_cases hpat : pat = []
    · rw [scan, if_pos hpat, List.range_succ] at hnil
      exact concat_ne_nil _ _ hnil
    · obtain ⟨j, hj, -⟩ := exists_scan_of_occurs hpat hm
      rw [hnil] at hj
      cases hj
  · intro hnone
    rw [eq_nil_iff_forall_not_mem]
    intro j hj
    exact hnone j (occurs_of_mem_scan hj)

/-- The scan takes two exactly where two occurrences are apart. -/
theorem one_lt_length_scan_iff : 1 < (scan pat s).length ↔
    ∃ p q, Occurs pat s p ∧ Occurs pat s q ∧ p < q ∧ p + pat.length ≤ q := by
  by_cases hpat : pat = []
  · subst hpat
    rw [scan, if_pos rfl, length_range]
    constructor
    · intro hlen
      exact ⟨0, 1, ⟨Nat.zero_le _, nil_prefix⟩, ⟨by omega, nil_prefix⟩, Nat.one_pos,
        Nat.zero_le 1⟩
    · rintro ⟨p, q, -, hq, hlt, -⟩
      have hle := hq.1
      omega
  · have hpos := length_pos_of_ne_nil hpat
    constructor
    · intro hlen
      have hapart := pairwise_iff_getElem.mp (scan_sorted hpat) 0 1 (by omega) hlen Nat.one_pos
      exact ⟨_, _, occurs_of_mem_scan (getElem_mem _), occurs_of_mem_scan (getElem_mem _),
        by omega, hapart⟩
    · rintro ⟨p, q, hp, hq, -, hle⟩
      obtain ⟨j, hj, hjp, -⟩ := exists_scan_of_occurs hpat hp
      obtain ⟨j', hj', -, hqj⟩ := exists_scan_of_occurs hpat hq
      have hne : j ≠ j' := by
        rintro rfl
        omega
      match hscan : scan pat s with
      | [] =>
        rw [hscan] at hj
        cases hj
      | [x] =>
        rw [hscan, mem_singleton] at hj hj'
        exact absurd (hj.trans hj'.symm) hne
      | _ :: _ :: _ => exact Nat.succ_lt_succ (Nat.succ_pos _)

end Scan
