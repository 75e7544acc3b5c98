import Mathlib.Data.List.Basic
import Mathlib.Tactic

/-!
# Joining pieces with a separator

`join sep` puts a separator between the pieces that are not empty. A piece
that is put behind the last one, with the separator between when that one is
not empty, is joined like a piece of its own (`join_grow`).
-/

namespace GrokBuild.Join

open List

variable {α : Type*} (sep : List α)

/-- The non-empty pieces with the separator between them. -/
def join (xss : List (List α)) : List α := sep.intercalate (xss.filter fun xs => !xs.isEmpty)

/-- `extra` put behind a piece, with the separator between when the piece is not empty. -/
def grow (extra xs : List α) : List α := if xs.isEmpty then extra else xs ++ sep ++ extra

@[simp] theorem join_nil : join sep [] = [] := rfl

theorem intercalate_singleton (xs : List α) : sep.intercalate [xs] = xs := by
  simp [List.intercalate]

variable {xss : List (List α)}

theorem intercalate_concat (h : xss ≠ []) (ys : List α) :
    sep.intercalate (xss ++ [ys]) = sep.intercalate xss ++ sep ++ ys := by
  induction xss with
  | nil => exact absurd rfl h
  | cons xs xss ih =>
    cases xss with
    | nil =>
      rw [singleton_append, intercalate_cons_of_ne_nil (cons_ne_nil _ _),
        intercalate_singleton, intercalate_singleton, append_assoc]
    | cons zs xss =>
      rw [cons_append, intercalate_cons_of_ne_nil (by simp), ih (by simp),
        intercalate_cons_of_ne_nil (cons_ne_nil zs xss)]
      simp only [append_assoc]

theorem join_eq_nil_iff : join sep xss = [] ↔ ∀ xs ∈ xss, xs = [] := by
  induction xss with
  | nil => simp
  | cons xs xss ih =>
    cases xs with
    | nil => simpa [join] using ih
    | cons x xs =>
      refine iff_of_false (fun hnil => ?_) (by simp)
      rw [join, filter_cons_of_pos (by simp)] at hnil
      cases hrest : xss.filter (fun xs => !xs.isEmpty) with
      | nil =>
        rw [hrest, intercalate_singleton] at hnil
        cases hnil
      | cons ys yss =>
        rw [hrest, intercalate_cons_of_ne_nil (cons_ne_nil ys yss)] at hnil
        cases hnil

theorem join_concat_nil (xss : List (List α)) : join sep (xss ++ [[]]) = join sep xss := by
  rw [join, filter_append]
  simp [join]

theorem join_concat {ys : List α} (hx : join sep xss ≠ []) (hy : ys ≠ []) :
    join sep (xss ++ [ys]) = join sep xss ++ sep ++ ys := by
  have hkept : xss.filter (fun xs => !xs.isEmpty) ≠ [] := by
    intro hnil
    rw [join, hnil] at hx
    exact hx rfl
  have hlast : [ys].filter (fun xs => !xs.isEmpty) = [ys] :=
    filter_cons_of_pos (by simpa using hy)
  rw [join, filter_append, hlast, intercalate_concat sep hkept]
  rfl

theorem join_grow {ys extra : List α} (h : join sep (xss ++ [ys]) ≠ []) (hextra : extra ≠ []) :
    join sep (xss ++ [grow sep extra ys]) = join sep (xss ++ [ys]) ++ sep ++ extra := by
  cases ys with
  | nil =>
    rw [join_concat_nil] at h ⊢
    exact join_concat sep h hextra
  | cons y ys =>
    have hlast : (y :: ys).isEmpty = false := rfl
    rw [grow, if_neg (by simp [hlast])]
    by_cases hx : join sep xss = []
    · have hall := (join_eq_nil_iff sep).mp hx
      have hnone : xss.filter (fun xs => !xs.isEmpty) = [] := by
        rw [filter_eq_nil_iff]
        exact fun xs hxs => by simp [hall xs hxs]
      rw [join, join, filter_append, filter_append, hnone,
        filter_cons_of_pos (by simp), filter_cons_of_pos (by simp)]
      simp only [filter_nil, nil_append, intercalate_singleton]
    · rw [join_concat sep hx (by simp), join_concat sep hx (cons_ne_nil y ys)]
      simp only [append_assoc]

end GrokBuild.Join
