import Mathlib.Tactic

/-!
# The last element of each key

`keepLast` drops every element that a later element of the same key
supersedes. `superseded` are the positions it drops; erasing them from the
list, last first, is the same (`foldl_eraseIdx_superseded`).
-/

namespace KeepLast

open List

variable {α κ : Type*} [DecidableEq κ] (key : α → κ)

def keepLast : List α → List α
  | [] => []
  | a :: as => if key a ∈ as.map key then keepLast as else a :: keepLast as

/-- The positions, from `start` on, whose key comes again. -/
def superseded : Nat → List α → List Nat
  | _, [] => []
  | start, a :: as =>
    if key a ∈ as.map key then start :: superseded (start + 1) as
    else superseded (start + 1) as

theorem keepLast_cons (a : α) (as : List α) :
    keepLast key (a :: as) =
      if key a ∈ as.map key then keepLast key as else a :: keepLast key as := rfl

theorem superseded_cons (start : Nat) (a : α) (as : List α) :
    superseded key start (a :: as) =
      if key a ∈ as.map key then start :: superseded key (start + 1) as
      else superseded key (start + 1) as := rfl

theorem keepLast_sublist (as : List α) : (keepLast key as).Sublist as := by
  induction as with
  | nil => exact List.Sublist.refl _
  | cons a as ih =>
    rw [keepLast_cons]
    split
    · exact ih.cons _
    · exact ih.cons_cons _

variable {as : List α}

@[simp] theorem mem_map_keepLast {k : κ} : k ∈ (keepLast key as).map key ↔ k ∈ as.map key := by
  induction as with
  | nil => rfl
  | cons a as ih =>
    rw [keepLast_cons, map_cons, mem_cons]
    split
    · rw [ih]
      exact ⟨.inr, fun h => h.elim (fun e => e ▸ ‹_›) id⟩
    · rw [map_cons, mem_cons, ih]

theorem nodup_keys_keepLast (as : List α) : ((keepLast key as).map key).Nodup := by
  induction as with
  | nil => exact nodup_nil
  | cons a as ih =>
    rw [keepLast_cons]
    split
    · exact ih
    · rw [map_cons, nodup_cons, mem_map_keepLast]
      exact ⟨‹_›, ih⟩

theorem keepLast_of_nodup (h : (as.map key).Nodup) : keepLast key as = as := by
  induction as with
  | nil => rfl
  | cons a as ih =>
    rw [map_cons, nodup_cons] at h
    rw [keepLast_cons, if_neg h.1, ih h.2]

theorem keepLast_append_of_disjoint {bs : List α} (h : (bs.map key).Nodup)
    (hnew : (as.map key).Disjoint (bs.map key)) : keepLast key (as ++ bs) = keepLast key as ++ bs := by
  induction as with
  | nil => exact keepLast_of_nodup key h
  | cons a as ih =>
    have ha : key a ∉ bs.map key := fun hb => hnew mem_cons_self hb
    have hrest := ih fun k hk hb => hnew (mem_cons_of_mem _ hk) hb
    simp only [cons_append, keepLast_cons, hrest, map_append, mem_append, ha, or_false]
    split
    · rfl
    · rfl

@[simp] theorem keepLast_keepLast (as : List α) :
    keepLast key (keepLast key as) = keepLast key as :=
  keepLast_of_nodup key (nodup_keys_keepLast key as)

theorem filter_keepLast (k : κ) (as : List α) :
    (keepLast key as).filter (key · = k) = ((as.filter (key · = k)).getLast?).toList := by
  induction as with
  | nil => rfl
  | cons a as ih =>
    rw [keepLast_cons]
    by_cases hk : key a = k
    · rw [filter_cons_of_pos (by simpa using hk)]
      split
      · obtain ⟨b, hb, hkey⟩ := List.mem_map.mp ‹key a ∈ as.map key›
        have hne : as.filter (key · = k) ≠ [] :=
          List.ne_nil_of_mem (mem_filter.mpr ⟨hb, by simpa [hkey] using hk⟩)
        rw [ih, getLast?_cons, getLast?_eq_some_getLast hne]
        rfl
      · have hnil : as.filter (key · = k) = [] := by
          rw [filter_eq_nil_iff]
          intro b hb hkb
          have : key b = key a := (of_decide_eq_true hkb).trans hk.symm
          exact ‹key a ∉ _› (List.mem_map.mpr ⟨b, hb, this⟩)
        rw [filter_cons_of_pos (by simpa using hk), ih, hnil]
        rfl
    · rw [filter_cons_of_neg (by simpa using hk)]
      split
      · exact ih
      · rw [filter_cons_of_neg (by simpa using hk), ih]

theorem length_superseded (start : Nat) (as : List α) :
    (superseded key start as).length + (keepLast key as).length = as.length := by
  induction as generalizing start with
  | nil => rfl
  | cons a as ih =>
    have := ih (start + 1)
    rw [superseded_cons, keepLast_cons]
    split
    · simp only [length_cons]
      omega
    · simp only [length_cons]
      omega

theorem superseded_eq_nil_iff (start : Nat) (as : List α) :
    superseded key start as = [] ↔ keepLast key as = as := by
  have := length_superseded key start as
  constructor
  · intro h
    rw [h, length_nil, Nat.zero_add] at this
    exact (keepLast_sublist key as).eq_of_length this
  · intro h
    rw [h] at this
    exact eq_nil_of_length_eq_zero (by omega)

theorem le_of_mem_superseded {start i : Nat} (h : i ∈ superseded key start as) : start ≤ i := by
  induction as generalizing start with
  | nil => cases h
  | cons a as ih =>
    rw [superseded_cons] at h
    split at h
    · rcases mem_cons.mp h with rfl | h
      · exact le_rfl
      · exact Nat.le_of_succ_le (ih h)
    · exact Nat.le_of_succ_le (ih h)

theorem sorted_superseded (start : Nat) (as : List α) :
    (superseded key start as).Pairwise (· < ·) := by
  induction as generalizing start with
  | nil => exact List.Pairwise.nil
  | cons a as ih =>
    rw [superseded_cons]
    split
    · exact List.Pairwise.cons (fun i hi => le_of_mem_superseded key hi) (ih _)
    · exact ih _

theorem foldl_eraseIdx_superseded {γ : Type*} (f : α → γ) (pre : List γ) (as : List α)
    (post : List γ) :
    (superseded key pre.length as).reverse.foldl List.eraseIdx (pre ++ as.map f ++ post) =
      pre ++ (keepLast key as).map f ++ post := by
  induction as generalizing pre with
  | nil => rfl
  | cons a as ih =>
    have ih := ih (pre ++ [f a])
    rw [length_append, length_singleton] at ih
    have hassoc : pre ++ (a :: as).map f ++ post = pre ++ [f a] ++ as.map f ++ post := by simp
    rw [superseded_cons, keepLast_cons, hassoc]
    split
    · rw [reverse_cons, foldl_append, ih]
      simp [eraseIdx_append_of_length_le]
    · rw [ih]
      simp

end KeepLast
