import Mathlib.Data.List.Basic
import Mathlib.Logic.Relation

/-!
# Linear undo histories

A history of states: the past, oldest first, the state now, the future that was
undone, and the state in which an open group began. A state is noted before it is
changed, or a change is joined to the one before it; a group is noted when it is
closed. Whatever happens, the oldest state stays the same (`Step.origin_eq`), so
undoing everything leads back to it.
-/

/-- The newest entries are last. -/
structure UndoLog (α : Type*) where
  past : List α
  future : List α
  /-- Where the open group began. -/
  opened : Option α
  now : α

namespace UndoLog

variable {α : Type*} {l l' : UndoLog α}

/-- The oldest state. -/
def origin (l : UndoLog α) : α := (l.past ++ l.opened.toList).headD l.now

inductive Step : UndoLog α → UndoLog α → Prop
  /-- A change, with the state before it noted. -/
  | note (past future : List α) (before now : α) :
      Step ⟨past, future, none, before⟩ ⟨past ++ [before], [], none, now⟩
  /-- A change, or all those of a group, joined to the entry before. -/
  | join (past future : List α) (opened : Option α) (before now : α) (hpast : past ≠ []) :
      Step ⟨past, future, opened, before⟩ ⟨past, [], none, now⟩
  /-- A change inside a group. -/
  | inside (past future : List α) (first before now : α) :
      Step ⟨past, future, some first, before⟩ ⟨past, future, some first, now⟩
  | openGroup (past future : List α) (now : α) :
      Step ⟨past, future, none, now⟩ ⟨past, future, some now, now⟩
  | close (past future : List α) (first now : α) :
      Step ⟨past, future, some first, now⟩ ⟨past ++ [first], [], none, now⟩
  /-- A group that changed nothing, or was cancelled. -/
  | cancel (past future : List α) (first before : α) :
      Step ⟨past, future, some first, before⟩ ⟨past, future, none, first⟩
  | undo (past future : List α) (entry now : α) :
      Step ⟨past ++ [entry], future, none, now⟩ ⟨past, future ++ [now], none, entry⟩
  | redo (past future : List α) (entry now : α) :
      Step ⟨past, future ++ [entry], none, now⟩ ⟨past ++ [now], future, none, entry⟩

/-- No step changes the oldest state. -/
theorem Step.origin_eq (h : Step l l') : l'.origin = l.origin := by
  cases h with
  | join past future opened before now hpast =>
    cases past with
    | nil => exact absurd rfl hpast
    | cons x xs => rfl
  | _ => simp [origin]

theorem origin_eq_of_steps (h : Relation.ReflTransGen Step l l') : l'.origin = l.origin := by
  induction h with
  | refl => rfl
  | tail _ hstep ih => exact hstep.origin_eq.trans ih

theorem origin_of_nil (hpast : l.past = []) (hopened : l.opened = none) : l.origin = l.now := by
  simp [origin, hpast, hopened]

end UndoLog
