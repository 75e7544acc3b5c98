import Mathlib.Data.List.TakeWhile
import Mathlib.Tactic

/-!
# An express lane in a queue

A queue in which some entries are express. An express entry is inserted behind
the express entries at the front. As long as entries only leave or change
places in no other way, those inserted since form part of the lane at the
front, in the order of their insertion (`Lane.inOrder`, `Lane.ahead`).
-/

namespace GrokBuild.ExpressLane

open List

variable {α ν : Type*} [DecidableEq ν] (key : α → ν) (express : α → Bool)

/-- The keys of `sends` that are in the queue are in its front part, which is
express, and there in the order of `sends`. -/
def Lane (queue : List α) (sends : List ν) : Prop :=
  ∃ lane rest, queue = lane ++ rest ∧ (∀ x ∈ lane, express x = true) ∧
    (∀ x ∈ rest, key x ∉ sends) ∧ ((lane.map key).filter (· ∈ sends)).Sublist sends

/-- `x` behind the express entries at the front. -/
def insertExpress (x : α) (queue : List α) : List α :=
  queue.takeWhile express ++ x :: queue.dropWhile express

variable {key express} {queue queue' : List α} {sends : List ν}

theorem lane_nil : Lane key express queue [] :=
  ⟨[], queue, rfl, forall_mem_nil _, fun _ _ => not_mem_nil, nil_sublist _⟩

/-- Entries may leave, and change in what the lane does not read. -/
theorem Lane.sublist (h : Lane key express queue sends)
    (hsub : (queue'.map fun x => (key x, express x)).Sublist
      (queue.map fun x => (key x, express x))) : Lane key express queue' sends := by
  obtain ⟨lane, rest, rfl, hexpress, hrest, horder⟩ := h
  rw [map_append, sublist_append_iff] at hsub
  obtain ⟨l₁, l₂, hsplit, hsub₁, hsub₂⟩ := hsub
  obtain ⟨lane', rest', rfl, rfl, rfl⟩ := map_eq_append_iff.mp hsplit
  have hmem : ∀ {xs ys : List α}, (xs.map fun x => (key x, express x)).Sublist
      (ys.map fun x => (key x, express x)) → ∀ x ∈ xs, ∃ y ∈ ys, key y = key x ∧
        express y = express x := by
    intro xs ys hxy x hx
    obtain ⟨y, hy, heq⟩ := List.mem_map.mp (hxy.subset (List.mem_map_of_mem hx))
    exact ⟨y, hy, (Prod.mk.inj heq).1, (Prod.mk.inj heq).2⟩
  refine ⟨lane', rest', rfl, fun x hx => ?_, fun x hx => ?_, ?_⟩
  · obtain ⟨y, hy, -, heq⟩ := hmem hsub₁ x hx
    rw [← heq]
    exact hexpress y hy
  · obtain ⟨y, hy, heq, -⟩ := hmem hsub₂ x hx
    rw [← heq]
    exact hrest y hy
  · have hkeys := hsub₁.map Prod.fst
    rw [List.map_map, List.map_map] at hkeys
    exact (hkeys.filter _).trans horder

variable {x : α}

theorem Lane.push (h : Lane key express queue sends) (hx : key x ∉ sends) :
    Lane key express (queue ++ [x]) sends := by
  obtain ⟨lane, rest, rfl, hexpress, hrest, horder⟩ := h
  refine ⟨lane, rest ++ [x], append_assoc _ _ _, hexpress, ?_, horder⟩
  intro y hy
  rcases mem_append.mp hy with hy | hy
  · exact hrest y hy
  · rw [mem_singleton.mp hy]
    exact hx

theorem Lane.insert (h : Lane key express queue sends) (hx : express x = true)
    (hnew : ∀ y ∈ queue, key y ≠ key x) :
    Lane key express (insertExpress express x queue) (sends.erase (key x) ++ [key x]) := by
  obtain ⟨lane, rest, rfl, hexpress, hrest, horder⟩ := h
  have htake : (lane ++ rest).takeWhile express = lane ++ rest.takeWhile express :=
    takeWhile_append_of_pos hexpress
  have hdrop : (lane ++ rest).dropWhile express = rest.dropWhile express :=
    dropWhile_append_of_pos hexpress
  -- an entry that was there is in the new order as in the old one
  have hold : ∀ y ∈ lane ++ rest, (key y ∈ sends.erase (key x) ++ [key x] ↔ key y ∈ sends) := by
    intro y hy
    rw [mem_append, mem_singleton, mem_erase_of_ne (hnew y hy)]
    exact or_iff_left (hnew y hy)
  have hlate : ∀ y ∈ rest, key y ∉ sends.erase (key x) ++ [key x] := by
    intro y hy
    rw [hold y (mem_append_right _ hy)]
    exact hrest y hy
  refine ⟨lane ++ rest.takeWhile express ++ [x], rest.dropWhile express, ?_, ?_, ?_, ?_⟩
  · rw [insertExpress, htake, hdrop]
    simp only [append_assoc, singleton_append]
  · intro y hy
    simp only [mem_append, mem_singleton] at hy
    rcases hy with (hy | hy) | rfl
    · exact hexpress y hy
    · exact mem_takeWhile_imp hy
    · exact hx
  · exact fun y hy => hlate y (dropWhile_sublist _ |>.subset hy)
  · have hnone : ((rest.takeWhile express).map key).filter
        (· ∈ sends.erase (key x) ++ [key x]) = [] := by
      rw [filter_eq_nil_iff]
      intro k hk
      obtain ⟨y, hy, rfl⟩ := List.mem_map.mp hk
      simpa using hlate y ((List.takeWhile_prefix _).subset hy)
    have hsame : (lane.map key).filter (· ∈ sends.erase (key x) ++ [key x]) =
        (lane.map key).filter (· ∈ sends) := by
      refine filter_congr fun k hk => ?_
      obtain ⟨y, hy, rfl⟩ := List.mem_map.mp hk
      rw [decide_eq_decide]
      exact hold y (mem_append_left _ hy)
    have hgone : key x ∉ (lane.map key).filter (· ∈ sends) := by
      intro hmem
      obtain ⟨y, hy, heq⟩ := List.mem_map.mp (mem_filter.mp hmem).1
      exact hnew y (mem_append_left _ hy) heq
    have herase := horder.erase (key x)
    rw [erase_of_not_mem hgone] at herase
    simp only [map_append, filter_append, hnone, hsame, append_nil]
    refine herase.append (List.Sublist.trans filter_sublist ?_)
    exact List.Sublist.refl _

theorem Lane.inOrder (h : Lane key express queue sends) :
    ((queue.map key).filter (· ∈ sends)).Sublist sends := by
  obtain ⟨lane, rest, rfl, -, hrest, horder⟩ := h
  have hnone : (rest.map key).filter (· ∈ sends) = [] := by
    rw [filter_eq_nil_iff]
    intro k hk
    obtain ⟨y, hy, rfl⟩ := List.mem_map.mp hk
    simpa using hrest y hy
  rw [map_append, filter_append, hnone, append_nil]
  exact horder

theorem Lane.ahead (h : Lane key express queue sends) {before after : List α}
    (hqueue : queue = before ++ x :: after) (hx : key x ∈ sends) :
    ∀ y ∈ before ++ [x], express y = true := by
  obtain ⟨lane, rest, rfl, hexpress, hrest, -⟩ := h
  have hlong : (before ++ [x]).length ≤ lane.length := by
    by_contra hshort
    have hlt : lane.length ≤ before.length := by
      rw [length_append, length_singleton] at hshort
      omega
    have hmem : x ∈ rest := by
      have hget : (lane ++ rest)[before.length]? = some x := by
        rw [hqueue, getElem?_append_right (Nat.le_refl _), Nat.sub_self]
        rfl
      rw [getElem?_append_right hlt] at hget
      exact mem_of_getElem? hget
    exact hrest x hmem hx
  have hpre : before ++ [x] <+: lane := by
    refine prefix_of_prefix_length_le ?_ (prefix_append lane rest) hlong
    rw [hqueue]
    exact ⟨after, by simp⟩
  exact fun y hy => hexpress y (hpre.subset hy)

end GrokBuild.ExpressLane
