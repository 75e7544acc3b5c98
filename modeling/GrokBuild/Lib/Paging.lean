import Mathlib.Data.List.Basic
import Mathlib.Order.Lattice
import Mathlib.Tactic

/-!
# Pages of a sorted list

A list sorted by a key without repetitions is read page by page: each page
takes up behind the key of the last element before it. What is behind that
key is what is left of the list. When the elements come in two parts and the
page is taken of the first one, it is a page of all as long as it stays in
front of the second (`Ordered.take_of_front`).
-/

namespace GrokBuild.Paging

open List

variable {α κ : Type*} [LinearOrder κ] (key : α → κ)

/-- Sorted, with no key twice. -/
def Ordered (xs : List α) : Prop := xs.Pairwise (key · < key ·)

/-- The elements behind the boundary; all of them without one. -/
def behind (boundary : Option κ) (xs : List α) : List α :=
  match boundary with
  | none => xs
  | some b => xs.filter fun x => b < key x

def sortBy (xs : List α) : List α := xs.mergeSort fun a b => decide (key a ≤ key b)

theorem sortBy_perm (xs : List α) : (sortBy key xs).Perm xs := mergeSort_perm _ _

variable {key} {xs ys : List α}

theorem Ordered.sublist (h : Ordered key ys) (hsub : xs.Sublist ys) : Ordered key xs :=
  List.Pairwise.sublist hsub h

theorem Ordered.sortBy_eq (h : Ordered key xs) : sortBy key xs = xs := by
  refine mergeSort_of_pairwise (h.imp fun hlt => ?_)
  exact decide_eq_true hlt.le

theorem ordered_sortBy (h : (xs.map key).Nodup) : Ordered key (sortBy key xs) := by
  have hsorted : (sortBy key xs).Pairwise (key · ≤ key ·) := by
    have hpairwise := @pairwise_mergeSort _ (fun a b => decide (key a ≤ key b))
      (fun a b c hab hbc => decide_eq_true ((of_decide_eq_true hab).trans (of_decide_eq_true hbc)))
      (fun a b => by simpa using le_total (key a) (key b)) xs
    exact hpairwise.imp fun h => of_decide_eq_true h
  have hdistinct : ((sortBy key xs).map key).Nodup :=
    ((sortBy_perm key xs).map key).nodup_iff.mpr h
  rw [List.Nodup, pairwise_map] at hdistinct
  exact hsorted.imp₂ (fun _ _ hle hne => lt_of_le_of_ne hle hne) hdistinct

/-- Two sorted lists of the same elements are one. -/
theorem Ordered.eq_of_perm (hxs : Ordered key xs) (hys : Ordered key ys) (hperm : xs.Perm ys) :
    xs = ys :=
  hperm.eq_of_pairwise (fun _ _ _ _ hab hba => absurd (hab.trans hba) (lt_irrefl _)) hxs hys

variable {page rest : List α} {x : α}

theorem Ordered.behind_last (h : Ordered key (page ++ x :: rest)) :
    behind key (some (key x)) (page ++ x :: rest) = rest := by
  obtain ⟨_, hrest, hpage⟩ := pairwise_append.mp h
  have hbefore : page.filter (fun y => key x < key y) = [] := by
    rw [filter_eq_nil_iff]
    intro y hy
    have hlt : key y < key x := hpage y hy x mem_cons_self
    simpa using hlt.le
  have hafter : rest.filter (fun y => key x < key y) = rest := by
    rw [filter_eq_self]
    intro y hy
    simpa using (pairwise_cons.mp hrest).1 y hy
  rw [behind, filter_append, hbefore, nil_append,
    filter_cons_of_neg (by simp), hafter]

/-- The element is at the boundary or in front of it. -/
def Passed (key : α → κ) (boundary : Option κ) (x : α) : Prop := ∃ b, boundary = some b ∧ key x ≤ b

variable {boundary : Option κ}

theorem mem_behind : x ∈ behind key boundary xs ↔ x ∈ xs ∧ ¬ Passed key boundary x := by
  cases boundary with
  | none => exact ⟨fun h => ⟨h, fun hpassed => by obtain ⟨b, hb, -⟩ := hpassed; cases hb⟩, And.left⟩
  | some b =>
    rw [behind, mem_filter, decide_eq_true_iff]
    refine and_congr_right fun _ => ⟨fun hlt hpassed => ?_, fun hnot => ?_⟩
    · obtain ⟨b', hb, hle⟩ := hpassed
      cases hb
      exact absurd (hlt.trans_le hle) (lt_irrefl _)
    · by_contra hle
      exact hnot ⟨b, rfl, not_lt.mp hle⟩

theorem behind_eq_nil (h : ∀ x ∈ xs, Passed key boundary x) : behind key boundary xs = [] := by
  rw [eq_nil_iff_forall_not_mem]
  intro x hx
  obtain ⟨hmem, hnot⟩ := mem_behind.mp hx
  exact hnot (h x hmem)

theorem behind_append (boundary : Option κ) (xs ys : List α) :
    behind key boundary (xs ++ ys) = behind key boundary xs ++ behind key boundary ys := by
  cases boundary with
  | none => rfl
  | some b => exact filter_append ..

theorem behind_sublist (boundary : Option κ) (xs : List α) :
    (behind key boundary xs).Sublist xs := by
  cases boundary with
  | none => exact List.Sublist.refl xs
  | some b => exact filter_sublist

theorem behind_perm (boundary : Option κ) (h : xs.Perm ys) :
    (behind key boundary xs).Perm (behind key boundary ys) := by
  cases boundary with
  | none => exact h
  | some b => exact h.filter _

theorem Ordered.nodup (h : Ordered key xs) : (xs.map key).Nodup := by
  rw [List.Nodup, pairwise_map]
  exact h.imp fun hlt => ne_of_lt hlt

variable {whole : List α}

theorem Ordered.take_of_front {later : List α} (h : Ordered key whole)
    (hperm : whole.Perm (xs ++ later)) (hxs : Ordered key xs) {n : Nat}
    (hfront : ∀ x ∈ xs.take n, ∀ y ∈ later, key x < key y) :
    whole = xs.take n ++ sortBy key (xs.drop n ++ later) := by
  have hall : (xs ++ later).Perm (xs.take n ++ (xs.drop n ++ later)) := by
    rw [← append_assoc, take_append_drop]
  have hperm' : whole.Perm (xs.take n ++ sortBy key (xs.drop n ++ later)) :=
    hperm.trans (hall.trans ((sortBy_perm key _).symm.append_left _))
  have hnodup : ((xs.drop n ++ later).map key).Nodup := by
    have hkeys := ((hperm.trans hall).map key).nodup_iff.mp h.nodup
    rw [map_append] at hkeys
    exact hkeys.of_append_right
  refine h.eq_of_perm ?_ hperm'
  rw [Ordered, pairwise_append]
  refine ⟨hxs.sublist (take_sublist n xs), ordered_sortBy hnodup, fun x hx y hy => ?_⟩
  rcases mem_append.mp ((sortBy_perm key _).mem_iff.mp hy) with hy | hy
  · rw [Ordered, ← take_append_drop n xs, pairwise_append] at hxs
    exact hxs.2.2 x hx y hy
  · exact hfront x hx y hy

/-- The boundary after a page: its last element, or the one before. -/
def nextBoundary (key : α → κ) (page : List α) (boundary : Option κ) : Option κ :=
  (page.getLast?.map key).or boundary

theorem Ordered.behind_next (h : Ordered key whole) (hsuffix : page ++ rest <:+ whole)
    (hbehind : behind key boundary whole = page ++ rest) :
    behind key (nextBoundary key page boundary) whole = rest := by
  rcases eq_nil_or_concat' page with rfl | ⟨pre, x, rfl⟩
  · exact hbehind
  · obtain ⟨before, hwhole⟩ := hsuffix
    have hsplit : whole = (before ++ pre) ++ x :: rest := by
      rw [← hwhole]
      simp only [append_assoc, singleton_append]
    rw [nextBoundary, getLast?_concat, Option.map_some, Option.some_or]
    rw [hsplit] at h ⊢
    exact h.behind_last

theorem passed_next (h : Ordered key page) (hbehind : behind key boundary whole = page ++ rest)
    (hx : x ∈ page ∨ Passed key boundary x) : Passed key (nextBoundary key page boundary) x := by
  rcases eq_nil_or_concat' page with rfl | ⟨pre, last, rfl⟩
  · exact hx.resolve_left not_mem_nil
  · refine ⟨key last, by rw [nextBoundary, getLast?_concat]; rfl, ?_⟩
    rcases hx with hx | ⟨b, rfl, hle⟩
    · rcases mem_append.mp hx with hx | hx
      · exact (pairwise_append.mp h).2.2 x hx last mem_cons_self |>.le
      · rw [mem_singleton.mp hx]
    · have hlast : last ∈ behind key (some b) whole := by
        rw [hbehind]
        simp
      by_contra hless
      exact (mem_behind.mp hlast).2 ⟨b, rfl, (not_le.mp hless).le.trans hle⟩

end GrokBuild.Paging
