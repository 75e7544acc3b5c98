import Mathlib.Data.List.Basic
import Mathlib.Tactic

/-!
# Edit scripts and their changed regions

An edit script over an arbitrary alphabet is a list of kept, deleted and
inserted items; `old` and `new` read the two sequences it relates. A
maximal run of deletions and insertions is a `Region`, and `regions` reads
the regions off the script in one left-to-right pass that carries the two
positions and the region being built.

Proofs about `regions` go by `blockInduction`, which walks a script block
by block (one kept item, or one whole run of changes), so the pass's
accumulator never shows up outside `regions_block`.
-/

namespace EditScript

open List Option

inductive Change (α : Type) where
  | equal (a : α)
  | delete (a : α)
  | insert (a : α)
  deriving DecidableEq, Repr

variable {α : Type}

/-- The item a change is about. -/
def Change.value : Change α → α
  | .equal a => a
  | .delete a => a
  | .insert a => a

def Change.isEqual : Change α → Bool
  | .equal _ => true
  | _ => false

/-- The sequence before the edit. -/
def old : List (Change α) → List α
  | [] => []
  | .equal a :: s => a :: old s
  | .delete a :: s => a :: old s
  | .insert _ :: s => old s

/-- The sequence after the edit. -/
def new : List (Change α) → List α
  | [] => []
  | .equal a :: s => a :: new s
  | .delete _ :: s => new s
  | .insert a :: s => a :: new s

/-- A script relates the two sequences it is meant to relate. -/
def Correct (xs ys : List α) (s : List (Change α)) : Prop :=
  old s = xs ∧ new s = ys

instance [DecidableEq α] (xs ys : List α) (s : List (Change α)) :
    Decidable (Correct xs ys s) := by unfold Correct; infer_instance

/-- A diff algorithm: for any two sequences, a script that relates them. -/
structure Engine (α : Type) where
  script : List α → List α → List (Change α)
  correct : ∀ xs ys, Correct xs ys (script xs ys)

/-- A run of changes with nothing kept in between: where it starts in
either sequence, what it removes and what it adds. -/
structure Region (α : Type) where
  oldStart : Nat
  newStart : Nat
  removed : List α
  added : List α
  deriving DecidableEq, Repr

def Region.start (i j : Nat) : Region α := ⟨i, j, [], []⟩

def Region.remove (r : Region α) (a : α) : Region α :=
  { r with removed := r.removed ++ [a] }

def Region.add (r : Region α) (a : α) : Region α :=
  { r with added := r.added ++ [a] }

/-- One pass over the script. `i` and `j` are the positions in the two
sequences, `cur` is the region being built; a kept item closes it. -/
def regions : Nat → Nat → Option (Region α) → List (Change α) → List (Region α)
  | _, _, cur, [] => cur.toList
  | i, j, cur, .equal _ :: s => cur.toList ++ regions (i + 1) (j + 1) none s
  | i, j, cur, .delete a :: s =>
      regions (i + 1) j (some ((cur.getD (.start i j)).remove a)) s
  | i, j, cur, .insert a :: s =>
      regions i (j + 1) (some ((cur.getD (.start i j)).add a)) s

/-! ## The two sequences -/

theorem old_append (s t : List (Change α)) : old (s ++ t) = old s ++ old t := by
  induction s with
  | nil => rfl
  | cons c s ih => cases c <;> simp [old, ih]

theorem new_append (s t : List (Change α)) : new (s ++ t) = new s ++ new t := by
  induction s with
  | nil => rfl
  | cons c s ih => cases c <;> simp [new, ih]

/-! ## A concrete diff -/

/-- Take everything out, then put everything in. -/
def replaceAll (xs ys : List α) : List (Change α) :=
  xs.map .delete ++ ys.map .insert

theorem replaceAll_correct (xs ys : List α) : Correct xs ys (replaceAll xs ys) := by
  induction xs with
  | nil =>
    induction ys with
    | nil => exact ⟨rfl, rfl⟩
    | cons y ys ih =>
      obtain ⟨h1, h2⟩ := ih
      exact ⟨h1, congrArg (y :: ·) h2⟩
  | cons x xs ih =>
    obtain ⟨h1, h2⟩ := ih
    exact ⟨congrArg (x :: ·) h1, h2⟩

/-- A script that keeps as much as it can, deletions before insertions. The
fuel bounds the recursion: when it is used up the rest is replaced. -/
def keepMost [DecidableEq α] : Nat → List α → List α → List (Change α)
  | n + 1, x :: xs, y :: ys =>
    if x = y then .equal x :: keepMost n xs ys
    else
      let s := keepMost n xs (y :: ys)
      let t := keepMost n (x :: xs) ys
      if t.countP (·.isEqual) ≤ s.countP (·.isEqual) then .delete x :: s else .insert y :: t
  | _, xs, ys => replaceAll xs ys

theorem keepMost_correct [DecidableEq α] (n : Nat) :
    ∀ xs ys : List α, Correct xs ys (keepMost n xs ys) := by
  induction n with
  | zero => exact fun xs ys => by simpa [keepMost] using replaceAll_correct xs ys
  | succ n ih =>
    intro xs ys
    match xs, ys with
    | [], ys => simpa [keepMost] using replaceAll_correct [] ys
    | x :: xs, [] => simpa [keepMost] using replaceAll_correct (x :: xs) []
    | x :: xs, y :: ys =>
      rw [keepMost]
      by_cases hxy : x = y
      · subst hxy
        obtain ⟨h1, h2⟩ := ih xs ys
        rw [if_pos rfl]
        exact ⟨congrArg (x :: ·) h1, congrArg (x :: ·) h2⟩
      · rw [if_neg hxy]
        dsimp only
        split
        · obtain ⟨h1, h2⟩ := ih xs (y :: ys)
          exact ⟨congrArg (x :: ·) h1, h2⟩
        · obtain ⟨h1, h2⟩ := ih (x :: xs) ys
          exact ⟨h1, congrArg (y :: ·) h2⟩

/-- The diff by longest common subsequence. -/
def Engine.lcs [DecidableEq α] : Engine α where
  script xs ys := keepMost (xs.length + ys.length) xs ys
  correct xs ys := keepMost_correct _ xs ys

/-! ## Blocks -/

/-- A run of changes. -/
def IsRun (r : List (Change α)) : Prop := ∀ c ∈ r, c.isEqual = false

/-- Nothing follows, or a kept item does. -/
def Closed : List (Change α) → Prop
  | [] => True
  | c :: _ => c.isEqual = true

theorem exists_run (s : List (Change α)) :
    ∃ r t, s = r ++ t ∧ IsRun r ∧ Closed t := by
  induction s with
  | nil => exact ⟨[], [], rfl, by simp [IsRun], trivial⟩
  | cons c s ih =>
    by_cases hc : c.isEqual = true
    · exact ⟨[], c :: s, rfl, by simp [IsRun], hc⟩
    · obtain ⟨r, t, rfl, hr, ht⟩ := ih
      refine ⟨c :: r, t, rfl, ?_, ht⟩
      intro c' hc'
      rcases mem_cons.mp hc' with rfl | hc'
      · simpa using hc
      · exact hr c' hc'

/-- Induction on a script block by block: a kept item, or a whole run of
changes that a kept item or the end follows. -/
theorem blockInduction {motive : List (Change α) → Prop} (nil : motive [])
    (equal : ∀ a s, motive s → motive (.equal a :: s))
    (run : ∀ r s, r ≠ [] → IsRun r → Closed s → motive s → motive (r ++ s))
    (s : List (Change α)) : motive s := by
  induction hn : s.length using Nat.strong_induction_on generalizing s with
  | h n ih =>
    cases s with
    | nil => exact nil
    | cons c s =>
      cases c with
      | equal a => exact equal a s (ih s.length (by simp at hn; omega) s rfl)
      | delete a =>
        obtain ⟨r, t, rfl, hr, ht⟩ := exists_run s
        refine run (.delete a :: r) t (by simp) ?_ ht
          (ih t.length (by simp at hn; omega) t rfl)
        intro c hc
        rcases mem_cons.mp hc with rfl | hc
        · rfl
        · exact hr c hc
      | insert a =>
        obtain ⟨r, t, rfl, hr, ht⟩ := exists_run s
        refine run (.insert a :: r) t (by simp) ?_ ht
          (ih t.length (by simp at hn; omega) t rfl)
        intro c hc
        rcases mem_cons.mp hc with rfl | hc
        · rfl
        · exact hr c hc

@[simp] theorem regions_nil (i j : Nat) : regions i j none ([] : List (Change α)) = [] :=
  rfl

@[simp] theorem regions_equal (i j : Nat) (a : α) (s : List (Change α)) :
    regions i j none (.equal a :: s) = regions (i + 1) (j + 1) none s := rfl

private theorem regions_some_run {r : List (Change α)} (hr : IsRun r)
    {s : List (Change α)} (hs : Closed s) :
    ∀ (i j : Nat) (g : Region α),
    regions i j (some g) (r ++ s)
      = { g with removed := g.removed ++ old r, added := g.added ++ new r }
        :: regions (i + (old r).length) (j + (new r).length) none s := by
  induction r with
  | nil =>
    intro i j g
    cases s with
    | nil => simp [regions, old, new]
    | cons c s =>
      cases c with
      | equal a => simp [regions, old, new]
      | delete a => simp [Closed, Change.isEqual] at hs
      | insert a => simp [Closed, Change.isEqual] at hs
  | cons c r ih =>
    intro i j g
    have ih' := ih (fun c hc => hr c (mem_cons_of_mem _ hc))
    cases c with
    | equal a => simpa [Change.isEqual] using hr (.equal a) mem_cons_self
    | delete a =>
      simp only [cons_append, regions, getD_some, ih', old, new,
        Region.remove, length_cons, append_assoc, nil_append]
      rw [show i + 1 + (old r).length = i + ((old r).length + 1) from by omega]
    | insert a =>
      simp only [cons_append, regions, getD_some, ih', old, new,
        Region.add, length_cons, append_assoc, nil_append]
      rw [show j + 1 + (new r).length = j + ((new r).length + 1) from by omega]

variable {s : List (Change α)}

theorem regions_block {r : List (Change α)} (hne : r ≠ []) (hr : IsRun r) (hs : Closed s) (i j : Nat) :
    regions i j none (r ++ s)
      = ⟨i, j, old r, new r⟩
        :: regions (i + (old r).length) (j + (new r).length) none s := by
  cases r with
  | nil => exact absurd rfl hne
  | cons c r =>
    have hr' : IsRun r := fun c hc => hr c (mem_cons_of_mem _ hc)
    cases c with
    | equal a => simpa [Change.isEqual] using hr (.equal a) mem_cons_self
    | delete a =>
      simp only [cons_append, regions, getD_none, Region.start,
        Region.remove, nil_append, regions_some_run hr' hs, old, new,
        length_cons]
      rw [show i + 1 + (old r).length = i + ((old r).length + 1) from by omega]
    | insert a =>
      simp only [cons_append, regions, getD_none, Region.start,
        Region.add, nil_append, regions_some_run hr' hs, old, new,
        length_cons]
      rw [show j + 1 + (new r).length = j + ((new r).length + 1) from by omega]

/-! ## What the regions say -/

theorem regions_start_le (s : List (Change α)) :
    ∀ (i j : Nat), ∀ r ∈ regions i j none s, i ≤ r.oldStart ∧ j ≤ r.newStart := by
  induction s using blockInduction with
  | nil => simp
  | equal a s ih =>
    intro i j r hr
    have := ih (i + 1) (j + 1) r hr
    omega
  | run b s hne hb hs ih =>
    intro i j r hr
    rw [regions_block hne hb hs] at hr
    rcases mem_cons.mp hr with rfl | hr
    · exact ⟨Nat.le_refl _, Nat.le_refl _⟩
    · have := ih _ _ r hr
      omega

theorem regions_closed_start_lt (hs : Closed s) (i j : Nat) :
    ∀ r ∈ regions i j none s, i < r.oldStart ∧ j < r.newStart := by
  cases s with
  | nil => simp
  | cons c s =>
    cases c with
    | equal a =>
      intro r hr
      have := regions_start_le s (i + 1) (j + 1) r hr
      omega
    | delete a => simp [Closed, Change.isEqual] at hs
    | insert a => simp [Closed, Change.isEqual] at hs

/-- Regions come in order, and at least one kept item separates two of
them in either sequence. -/
theorem regions_pairwise (s : List (Change α)) : ∀ (i j : Nat),
    (regions i j none s).Pairwise fun r t =>
      r.oldStart + r.removed.length < t.oldStart
        ∧ r.newStart + r.added.length < t.newStart := by
  induction s using blockInduction with
  | nil => simp
  | equal a s ih => exact fun i j => ih (i + 1) (j + 1)
  | run b s hne hb hs ih =>
    intro i j
    rw [regions_block hne hb hs, pairwise_cons]
    exact ⟨fun t ht => regions_closed_start_lt hs _ _ t ht, ih _ _⟩

theorem regions_content (s : List (Change α)) : ∀ (i j : Nat),
    ∀ r ∈ regions i j none s,
      ((old s).drop (r.oldStart - i)).take r.removed.length = r.removed
        ∧ ((new s).drop (r.newStart - j)).take r.added.length = r.added := by
  induction s using blockInduction with
  | nil => simp
  | equal a s ih =>
    intro i j r hr
    obtain ⟨h1, h2⟩ := ih (i + 1) (j + 1) r hr
    have hle := regions_start_le s (i + 1) (j + 1) r hr
    rw [show r.oldStart - i = (r.oldStart - (i + 1)) + 1 from by omega,
      show r.newStart - j = (r.newStart - (j + 1)) + 1 from by omega]
    exact ⟨h1, h2⟩
  | run b s hne hb hs ih =>
    intro i j r hr
    rw [regions_block hne hb hs] at hr
    rw [old_append, new_append]
    rcases mem_cons.mp hr with rfl | hr
    · simp
    · obtain ⟨h1, h2⟩ := ih _ _ r hr
      have hle := regions_start_le s _ _ r hr
      rw [show r.oldStart - i
            = (old b).length + (r.oldStart - (i + (old b).length)) from by omega,
        show r.newStart - j
            = (new b).length + (r.newStart - (j + (new b).length)) from by omega,
        ← drop_drop, ← drop_drop, drop_left, drop_left]
      exact ⟨h1, h2⟩

/-- A region lies inside both sequences, and what stands behind it is
kept. -/
theorem regions_next (s : List (Change α)) : ∀ (i j : Nat), ∀ r ∈ regions i j none s,
    r.oldStart + r.removed.length ≤ i + (old s).length
      ∧ r.newStart + r.added.length ≤ j + (new s).length
      ∧ (old s)[r.oldStart - i + r.removed.length]? = (new s)[r.newStart - j + r.added.length]? := by
  induction s using blockInduction with
  | nil => simp
  | equal a s ih =>
    intro i j r hr
    obtain ⟨h1, h2, h3⟩ := ih (i + 1) (j + 1) r hr
    have hle := regions_start_le s (i + 1) (j + 1) r hr
    refine ⟨by simp only [old, length_cons]; omega,
      by simp only [new, length_cons]; omega, ?_⟩
    rw [show r.oldStart - i + r.removed.length
          = r.oldStart - (i + 1) + r.removed.length + 1 from by omega,
      show r.newStart - j + r.added.length
          = r.newStart - (j + 1) + r.added.length + 1 from by omega]
    simpa [old, new] using h3
  | run b s hne hb hs ih =>
    intro i j r hr
    rw [regions_block hne hb hs] at hr
    rw [old_append, new_append]
    rcases mem_cons.mp hr with rfl | hr
    · refine ⟨by simp, by simp, ?_⟩
      cases s with
      | nil => simp [old, new]
      | cons c s =>
        cases c with
        | equal a => simp [old, new]
        | delete a => simp [Closed, Change.isEqual] at hs
        | insert a => simp [Closed, Change.isEqual] at hs
    · obtain ⟨h1, h2, h3⟩ := ih _ _ r hr
      have hle := regions_start_le s _ _ r hr
      refine ⟨by simp only [length_append]; omega, by simp only [length_append]; omega,
        ?_⟩
      rw [getElem?_append_right (by omega), getElem?_append_right (by omega)]
      rw [show r.oldStart - i + r.removed.length - (old b).length
            = r.oldStart - (i + (old b).length) + r.removed.length from by omega,
        show r.newStart - j + r.added.length - (new b).length
            = r.newStart - (j + (new b).length) + r.added.length from by omega]
      exact h3

theorem old_eq_new_of_regions_nil (s : List (Change α)) : ∀ {i j : Nat},
    regions i j none s = [] → old s = new s := by
  induction s using blockInduction with
  | nil => simp [old, new]
  | equal a s ih =>
    intro i j h
    simp only [old, new, ih h]
  | run b s hne hb hs ih =>
    intro i j h
    rw [regions_block hne hb hs] at h
    cases h

/-! ## Reading a script backwards -/

/-- The change that undoes a change. -/
def Change.undo : Change α → Change α
  | .equal a => .equal a
  | .delete a => .insert a
  | .insert a => .delete a

/-- The script that undoes a script. -/
def undo (s : List (Change α)) : List (Change α) := s.map Change.undo

/-- A region with its two sides exchanged. -/
def Region.undo (r : Region α) : Region α := ⟨r.newStart, r.oldStart, r.added, r.removed⟩

@[simp] theorem Change.isEqual_undo (c : Change α) : c.undo.isEqual = c.isEqual := by
  cases c <;> rfl

@[simp] theorem Change.value_undo (c : Change α) : c.undo.value = c.value := by
  cases c <;> rfl

@[simp] theorem Change.undo_undo (c : Change α) : c.undo.undo = c := by cases c <;> rfl

@[simp] theorem undo_undo (s : List (Change α)) : undo (undo s) = s := by
  simp [undo, Function.comp_def]

@[simp] theorem old_undo (s : List (Change α)) : old (undo s) = new s := by
  induction s with
  | nil => rfl
  | cons c s ih =>
    simp only [undo] at ih
    cases c <;> simp [undo, Change.undo, old, new, ih]

@[simp] theorem new_undo (s : List (Change α)) : new (undo s) = old s := by
  rw [← old_undo, undo_undo]

theorem IsRun.undo {r : List (Change α)} (h : IsRun r) : IsRun (EditScript.undo r) := by
  intro c hc
  obtain ⟨d, hd, rfl⟩ := List.mem_map.mp hc
  rw [Change.isEqual_undo]
  exact h d hd

theorem Closed.undo (h : Closed s) : Closed (EditScript.undo s) := by
  cases s with
  | nil => trivial
  | cons c s => exact (Change.isEqual_undo c).trans h

theorem regions_undo (s : List (Change α)) : ∀ (i j : Nat),
    regions i j none (undo s) = (regions j i none s).map Region.undo := by
  induction s using blockInduction with
  | nil => exact fun i j => rfl
  | equal a s ih => exact fun i j => ih (i + 1) (j + 1)
  | run b s hne hb hs ih =>
    intro i j
    have hsplit : undo (b ++ s) = undo b ++ undo s := map_append
    have hne' : undo b ≠ [] := by simpa [undo] using hne
    rw [hsplit, regions_block hne' hb.undo hs.undo, regions_block hne hb hs, ih]
    simp [Region.undo]

end EditScript
