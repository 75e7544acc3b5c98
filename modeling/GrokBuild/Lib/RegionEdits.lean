import GrokBuild.Lib.EditScript
import GrokBuild.Lib.Splice

/-!
# The regions of an edit script as a batch of edits

Each region of a script replaces a range of the old sequence. The regions
come stacked, so any part of them can be applied from the bottom up, and all
of them together turn the old sequence into the new one
(`walk_regions`). What the script keeps, no region covers (`exists_kept`).
-/

namespace EditScript

open Splice List

variable {α : Type}

/-- The edit of a region whose positions count from 1. -/
def Region.edit (g : Region α) : Edit α :=
  ⟨g.oldStart - 1, g.oldStart - 1 + g.removed.length, g.added⟩

/-- The edits of a script. -/
def edits (s : List (Change α)) : List (Edit α) := (regions 1 1 none s).map Region.edit

theorem stacked_edits (s : List (Change α)) : Stacked (edits s) := by
  refine ⟨fun e he => ?_, ?_⟩
  · obtain ⟨g, -, rfl⟩ := List.mem_map.mp he
    exact Nat.le_add_right _ _
  · rw [edits, pairwise_map]
    refine (regions_pairwise s 1 1).imp fun h => ?_
    simp only [Region.edit]
    omega

theorem edit_stop_le (s : List (Change α)) : ∀ e ∈ edits s, e.stop ≤ (old s).length := by
  intro e he
  obtain ⟨g, hg, rfl⟩ := List.mem_map.mp he
  have hnext := (regions_next s 1 1 g hg).1
  have hstart := (regions_start_le s 1 1 g hg).1
  simp only [Region.edit]
  omega

variable {s : List (Change α)} {a : α}

theorem mem_of_mem_edit {e : Edit α} (he : e ∈ edits s) (ha : a ∈ e.new) : a ∈ new s := by
  obtain ⟨g, hg, rfl⟩ := List.mem_map.mp he
  have hcontent := (regions_content s 1 1 g hg).2
  rw [Region.edit, ← hcontent] at ha
  exact mem_of_mem_drop (mem_of_mem_take ha)

/-- Behind a common prefix, the regions of a script applied from the last to
the first replace its old items by its new ones. -/
theorem foldr_regions (s : List (Change α)) : ∀ (p : List α) (j : Nat),
    ((regions (p.length + 1) j none s).map Region.edit).foldr (fun e ys => e.apply ys)
      (p ++ old s) = p ++ new s := by
  induction s using blockInduction with
  | nil => intro p j; rfl
  | equal a s ih =>
    intro p j
    have hnext := ih (p ++ [a]) (j + 1)
    rw [length_append, length_singleton, append_assoc, append_assoc] at hnext
    exact hnext
  | run r s hne hr hs ih =>
    intro p j
    have hnext := ih (p ++ old r) (j + (new r).length)
    have hposition : (p ++ old r).length + 1 = p.length + 1 + (old r).length := by
      rw [length_append]
      omega
    rw [hposition, append_assoc, ← old_append] at hnext
    rw [regions_block hne hr hs, map_cons, foldr_cons, hnext, new_append]
    have htake : (p ++ old r ++ new s).take p.length = p := by
      rw [append_assoc]
      exact take_left
    have hdrop : (p ++ old r ++ new s).drop (p.length + (old r).length) = new s :=
      drop_left' (by simp)
    simp only [Edit.apply, Region.edit, Nat.add_sub_cancel]
    rw [htake, hdrop, append_assoc]

theorem walk_edits (s : List (Change α)) : walk (edits s) (old s) = new s := by
  rw [← foldr_apply (stacked_edits s) (edit_stop_le s)]
  exact foldr_regions s [] 1

theorem exists_outside (h : .equal a ∈ s) : ∀ i j : Nat,
    ∃ n, (old s)[n]? = some a ∧
      ∀ g ∈ regions i j none s, i + n < g.oldStart ∨ g.oldStart + g.removed.length ≤ i + n := by
  induction s using blockInduction with
  | nil => exact absurd h not_mem_nil
  | equal b s ih =>
    intro i j
    rcases mem_cons.mp h with heq | hs
    · obtain rfl := Change.equal.inj heq
      refine ⟨0, rfl, fun g hg => Or.inl ?_⟩
      have hstart := (regions_start_le s (i + 1) (j + 1) g hg).1
      omega
    · obtain ⟨n, hn, hout⟩ := ih hs (i + 1) (j + 1)
      refine ⟨n + 1, hn, fun g hg => ?_⟩
      have hg' := hout g hg
      omega
  | run r s hne hr hs ih =>
    intro i j
    have hmem : .equal a ∈ s := by
      rcases mem_append.mp h with hrun | hs
      · exact absurd (hr _ hrun) (by simp [Change.isEqual])
      · exact hs
    obtain ⟨n, hn, hout⟩ := ih hmem (i + (old r).length) (j + (new r).length)
    refine ⟨(old r).length + n, ?_, fun g hg => ?_⟩
    · rw [old_append, getElem?_append_right (Nat.le_add_right _ _), Nat.add_sub_cancel_left]
      exact hn
    · rw [regions_block hne hr hs] at hg
      rcases mem_cons.mp hg with rfl | hg
      · exact Or.inr (by simp only; omega)
      · have hg' := hout g hg
        omega

theorem exists_kept (h : .equal a ∈ s) : ∃ n, (old s)[n]? = some a ∧ ¬ Covered (edits s) n := by
  obtain ⟨n, hn, hout⟩ := exists_outside h 1 1
  refine ⟨n, hn, ?_⟩
  rintro ⟨e, he, hstart, hstop⟩
  obtain ⟨g, hg, rfl⟩ := List.mem_map.mp he
  have hout' := hout g hg
  have hpos := (regions_start_le s 1 1 g hg).1
  simp only [Region.edit] at hstart hstop
  omega

end EditScript
