import GrokBuild.PromptEditor.Edits

/-!
# Every planned edit is valid

Whatever a reachable buffer is asked to plan, around whatever atomic ranges, the
plan is there, passes its own check, and does to the text what it says. That
needs line endings to be clusters of their own: a segmentation that keeps the CR
LF together with the text before it leaves the line commands at a position their
own check refuses.
-/

namespace GrokBuild.PromptEditor

open TextLines Str ByteText

/-- A plan that is valid for its buffer, so that no text area over that buffer
panics on it. -/
def PlanHolds (u : Unicode) (b : EditBuffer) (atomic : List ByteRange) (plan : EditPlan) : Prop :=
  b.ValidPlan u (normalizeAtomicRanges u b.text atomic) plan ∧
    ∀ ta : TextArea, ta.text = b → ∀ kind, (ta.applyEditPlan u plan kind).isSome

variable {u : Unicode} {b : EditBuffer}

theorem planHolds_of_valid {atomic : List ByteRange} {plan : EditPlan}
    (h : b.ValidPlan u (normalizeAtomicRanges u b.text atomic) plan) :
    PlanHolds u b atomic plan := by
  refine ⟨h, ?_⟩
  rintro ta rfl kind
  obtain ⟨ta', outcome, hok, -⟩ :=
    TextArea.applyEditPlan_applied (EditBuffer.validatePlan_eq_ok.mp h.accepted) kind
  simp [hok]

theorem planned_edit_valid (hu : BreaksLines u) (hb : EditBuffer.Reachable u b)
    (atomic : List ByteRange) :
    (∀ command, ∃ plan, b.planCommand u command atomic = some plan ∧
        PlanHolds u b atomic plan) ∧
      ∀ range replacement, ∃ plan,
        b.planReplaceByteRange u range replacement atomic = some plan ∧
          plan.replacement = replacement ∧ PlanHolds u b atomic plan := by
  have hcursor := hb.boundary hu
  constructor
  · intro command
    obtain ⟨plan, hplan, hvalid⟩ := EditBuffer.planCommand_valid hu hcursor command atomic
    exact ⟨plan, hplan, planHolds_of_valid hvalid⟩
  · intro range replacement
    obtain ⟨plan, hplan, hrepl, hvalid⟩ :=
      EditBuffer.planReplaceByteRange_valid hcursor range replacement atomic
    exact ⟨plan, hplan, hrepl, planHolds_of_valid hvalid⟩

/-- The end of the first of two lines, deleted from its middle around a range
that is given backwards. -/
theorem planned_edit_valid_two_lines :
    ∃ plan,
      (EditBuffer.fromParts (Unicode.ofRule plainRule) ['a', 'b', '\r', '\n', 'c'] 1
          ⟨0, 0⟩).planCommand (Unicode.ofRule plainRule) .deleteToLineEnd [⟨9, 4⟩] = some plan ∧
        PlanHolds (Unicode.ofRule plainRule)
          (.fromParts (Unicode.ofRule plainRule) ['a', 'b', '\r', '\n', 'c'] 1 ⟨0, 0⟩) [⟨9, 4⟩]
          plan :=
  (planned_edit_valid breaksLines_plainRule (EditBuffer.Reachable.fromParts _ 1 _) _).1
    .deleteToLineEnd

/-- Cuts after every LF and before one that ends no CR LF, and nowhere else. -/
def coarseRule (c d : Char) : Bool := c == '\n' || (d == '\n' && c != '\r')

/-- With `a`, CR and LF in one cluster, moving to the end of the line plans a
cursor between `a` and the CR, and the check refuses it. -/
theorem line_end_inside_cluster :
    ¬ ∀ u, KeepsLines u → ∀ b, EditBuffer.Reachable u b → ∀ command atomic, ∃ plan,
      b.planCommand u command atomic = some plan ∧ b.validatePlan u plan = .ok () := by
  intro h
  have hkeeps : KeepsLines (Unicode.ofRule coarseRule) :=
    keepsLines_ofRule (by decide) (fun c hc => by simp [coarseRule, hc]) (by simp [coarseRule])
  obtain ⟨plan, hplan, hok⟩ := h _ hkeeps _
    (EditBuffer.Reachable.fromParts ['a', '\r', '\n'] 0 ⟨0, 0⟩) .moveLogicalLineEnd []
  have hrefused : ((EditBuffer.fromParts (Unicode.ofRule coarseRule) ['a', '\r', '\n'] 0
      ⟨0, 0⟩).planCommand (Unicode.ofRule coarseRule) .moveLogicalLineEnd []).map (fun plan =>
        (EditBuffer.fromParts (Unicode.ofRule coarseRule) ['a', '\r', '\n'] 0 ⟨0, 0⟩).validatePlan
          (Unicode.ofRule coarseRule) plan) = some (.error .invalidCursor) := by
    decide +kernel
  rw [hplan, Option.map_some, hok] at hrefused
  cases hrefused

end GrokBuild.PromptEditor
