import GrokBuild.PromptEditor.Editor

/-!
# Plans between stops

A plan whose range runs from one stop to another passes its own check, respects
every atomic range and leaves the cursor on a grapheme boundary
(`validPlan_of_stops`). Each command only has to be shown to choose stops, which
`planCommand_valid` does case by case from the walks.
-/

namespace GrokBuild.PromptEditor

open TextLines Str ByteText Option

namespace EditBuffer

variable {u : Unicode} {b b' : EditBuffer} {plan : EditPlan} {outcome : EditOutcome}

theorem advanceGeneration_frame (b : EditBuffer) :
    b.advanceGeneration.text = b.text ∧ b.advanceGeneration.cursorByte = b.cursorByte := by
  unfold advanceGeneration
  split <;> exact ⟨rfl, rfl⟩

theorem ite_advanceGeneration (c : Prop) [Decidable c] (b : EditBuffer) :
    (if c then b.advanceGeneration else b).text = b.text ∧
      (if c then b.advanceGeneration else b).cursorByte = b.cursorByte := by
  split
  · exact advanceGeneration_frame b
  · exact ⟨rfl, rfl⟩

/-! ## What the check establishes -/

/-- The conditions `validatePlan` checks, in its order. -/
structure Checked (u : Unicode) (b : EditBuffer) (plan : EditPlan) : Prop where
  source : plan.sourceIdentity = b.identity ∧ plan.sourceGeneration = b.generation
  start : IsBoundary u b.text plan.replacedByteRange.start
  stop : IsBoundary u b.text plan.replacedByteRange.stop
  removed : slice b.text plan.replacedByteRange.start plan.replacedByteRange.stop =
    some plan.removedText
  cursor : plan.cursorByte ≤ byteLen b.text -
    (plan.replacedByteRange.stop - plan.replacedByteRange.start) + byteLen plan.replacement
  exact : plan.cursorAffinity = .exact →
    plan.replacement = plan.removedText ∧ IsBoundary u b.text plan.cursorByte

theorem validatePlan_eq_ok : validatePlan u b plan = .ok () ↔ Checked u b plan := by
  constructor
  · intro h
    unfold validatePlan at h
    simp only at h
    split_ifs at h with hsource hrange hremoved hlen hcursor hexact
    simp only [not_or, not_lt, Bool.not_eq_false, not_and, ne_eq, Decidable.not_not] at *
    exact ⟨hsource, isGraphemeBoundary_iff.mp hrange.2.2.2.2.1,
      isGraphemeBoundary_iff.mp hrange.2.2.2.2.2, hremoved, hcursor,
      fun h => ⟨(hexact h).1, isGraphemeBoundary_iff.mp (hexact h).2⟩⟩
  · intro h
    obtain ⟨pre, post, htext, hstart, hstop⟩ := slice_eq_some.mp h.removed
    have hle := h.stop.le_byteLen
    have hgs := isGraphemeBoundary_iff.mpr h.start
    have hge := isGraphemeBoundary_iff.mpr h.stop
    unfold validatePlan
    simp only
    rw [if_neg (by simp [h.source]), if_neg, if_neg (by simp [h.removed]), if_neg (by omega),
      if_neg (by have := h.cursor; omega), if_neg]
    · rintro ⟨hex, hne⟩
      have hexact := h.exact hex
      rcases hne with hne | hne
      · exact hne hexact.1
      · rw [isGraphemeBoundary_iff.mpr hexact.2] at hne
        cases hne
    · simp only [not_or, not_lt, Bool.not_eq_false]
      exact ⟨by omega, hle, h.start.isCharBoundary, h.stop.isCharBoundary, hgs, hge⟩

/-- What applying a checked plan does: the text around the range stays, and the
cursor is left on a grapheme boundary. -/
theorem Checked.applied (h : Checked u b plan) :
    ∃ b' outcome pre post, applyValidatedPlan u b plan = some (b', outcome) ∧
      b.text = pre ++ plan.removedText ++ post ∧
      byteLen pre = plan.replacedByteRange.start ∧
      byteLen pre + byteLen plan.removedText = plan.replacedByteRange.stop ∧
      b'.text = pre ++ plan.replacement ++ post ∧ IsBoundary u b'.text b'.cursorByte := by
  obtain ⟨pre, post, htext, hstart, hstop⟩ := slice_eq_some.mp h.removed
  -- wherever the affinity leads, it is a boundary of the text that the edit makes
  have hcursor : ∀ text cursorByte, (plan.cursorAffinity = .exact → text = b.text) →
      (plan.cursorAffinity = .exact → cursorByte = plan.cursorByte) →
      (plan.cursorAffinity = .right → cursorByte = ceilGraphemeBoundary u text plan.cursorByte) →
      IsBoundary u text cursorByte := by
    intro text cursorByte hsame hexact hright
    cases haff : plan.cursorAffinity with
    | exact => simpa [hsame haff, hexact haff] using (h.exact haff).2
    | right => exact hright haff ▸ (ceilGraphemeBoundary_spec u text _).1
  rw [← hstart] at hstop
  unfold applyValidatedPlan
  simp only [bind_eq_bind]
  by_cases hne : plan.removedText = plan.replacement
  · simp only [hne, bne_self_eq_false, Bool.false_eq_true, if_false, bind_some,
      Bool.false_or]
    refine ⟨_, _, pre, post, rfl, by rw [htext, hne], hstart, by rw [← hstop, hne], ?_⟩
    rw [(ite_advanceGeneration _ _).1, (ite_advanceGeneration _ _).2]
    exact ⟨by rw [htext, hne], hcursor b.text _ (fun _ => rfl) (fun haff => by simp [haff])
      fun haff => by simp [haff]⟩
  · have hbne : (plan.removedText != plan.replacement) = true := by simpa using hne
    have hsplice : splice b.text plan.replacedByteRange.start plan.replacedByteRange.stop
        plan.replacement = some (pre ++ plan.replacement ++ post) := by
      rw [← hstart, ← hstop, htext]
      exact splice_append pre plan.removedText post plan.replacement
    simp only [hbne, if_true, hsplice, bind_some, Bool.true_or]
    refine ⟨_, _, pre, post, rfl, htext, hstart, hstop, ?_⟩
    rw [(advanceGeneration_frame _).1, (advanceGeneration_frame _).2]
    exact ⟨rfl, hcursor _ _ (fun hex => absurd (h.exact hex).1.symm hne) (fun haff => by simp [haff])
      fun haff => by simp [haff]⟩

/-! ## Valid plans -/

/-- What a plan made for a buffer and its atomic ranges is meant to be. -/
structure ValidPlan (u : Unicode) (b : EditBuffer) (ranges : List ByteRange) (plan : EditPlan) :
    Prop where
  accepted : validatePlan u b plan = .ok ()
  respects : ∀ r ∈ ranges, Span.Respects plan.replacedByteRange r
  applied : ∃ b' outcome pre post, applyValidatedPlan u b plan = some (b', outcome) ∧
    b.text = pre ++ plan.removedText ++ post ∧
    byteLen pre = plan.replacedByteRange.start ∧
    byteLen pre + byteLen plan.removedText = plan.replacedByteRange.stop ∧
    b'.text = pre ++ plan.replacement ++ post ∧ IsBoundary u b'.text b'.cursorByte

variable {ranges : List ByteRange}

theorem validPlan_of_stops (range : ByteRange) (replacement : Text) (cursorByte : Nat)
    (affinity : PostEditCursorAffinity) (hle : range.start ≤ range.stop)
    (hstart : Stop u b.text ranges range.start) (hstop : Stop u b.text ranges range.stop)
    (hcursor : cursorByte ≤ byteLen b.text - (range.stop - range.start) + byteLen replacement)
    (hexact : affinity = .exact →
      replacement = [] ∧ range.stop = range.start ∧ IsBoundary u b.text cursorByte) :
    ∃ plan, b.makePlan range replacement cursorByte affinity = some plan ∧
      plan.replacement = replacement ∧ ValidPlan u b ranges plan := by
  obtain ⟨removed, hremoved⟩ :=
    exists_slice hle hstart.boundary.isCharBoundary hstop.boundary.isCharBoundary
  have hchecked : Checked u b ⟨range, replacement, removed, cursorByte, affinity, b.identity,
      b.generation⟩ := by
    refine ⟨⟨rfl, rfl⟩, hstart.boundary, hstop.boundary, hremoved, hcursor, fun hex => ?_⟩
    obtain ⟨rfl, hempty, hb⟩ := hexact hex
    rw [hempty, slice_self hstart.boundary.isCharBoundary] at hremoved
    exact ⟨some.inj hremoved, hb⟩
  exact ⟨_, by rw [makePlan, hremoved]; rfl, rfl, validatePlan_eq_ok.mpr hchecked,
    hstart.respects hstop, hchecked.applied⟩

theorem makeMove_valid {cursorByte target : Nat} (hcursor : Stop u b.text ranges cursorByte)
    (htarget : Stop u b.text ranges target) :
    ∃ plan, b.makeMove cursorByte target = some plan ∧ ValidPlan u b ranges plan := by
  obtain ⟨plan, hplan, -, hvalid⟩ := validPlan_of_stops ⟨cursorByte, cursorByte⟩ [] target .exact
    le_rfl hcursor hcursor (by simpa using htarget.le_byteLen)
    fun _ => ⟨rfl, rfl, htarget.boundary⟩
  exact ⟨plan, hplan, hvalid⟩

theorem makeDeletion_valid (range : ByteRange) (hle : range.start ≤ range.stop)
    (hstart : Stop u b.text ranges range.start) (hstop : Stop u b.text ranges range.stop) :
    ∃ plan, b.makeDeletion range = some plan ∧ ValidPlan u b ranges plan := by
  have hlen := hstop.le_byteLen
  obtain ⟨plan, hplan, -, hvalid⟩ := validPlan_of_stops range [] range.start .right hle hstart hstop
    (by simp; omega) (by simp)
  exact ⟨plan, hplan, hvalid⟩

/-! ## Every planner -/

theorem planReplaceByteRange_valid (hb : IsBoundary u b.text b.cursorByte) (range : ByteRange)
    (replacement : Text) (atomic : List ByteRange) :
    ∃ plan, planReplaceByteRange u b range replacement atomic = some plan ∧
      plan.replacement = replacement ∧
      ValidPlan u b (normalizeAtomicRanges u b.text atomic) plan := by
  have hatomic := atomic_normalizeAtomicRanges u b.text atomic
  obtain ⟨e, he, hle, hstart, hstop⟩ := hatomic.normalizeReplacementRange_spec range
  have hcursor := (hatomic.stop_normalizeCursor hb).le_byteLen
  have hlen := hstop.le_byteLen
  unfold planReplaceByteRange
  simp only [he, bind_eq_bind, bind_some]
  refine validPlan_of_stops e _ _ _ hle hstart hstop ?_ (by simp)
  split_ifs <;> omega

theorem planCommand_valid (hu : BreaksLines u) (hb : IsBoundary u b.text b.cursorByte)
    (command : EditCommand) (atomic : List ByteRange) :
    ∃ plan, planCommand u b command atomic = some plan ∧
      ValidPlan u b (normalizeAtomicRanges u b.text atomic) plan := by
  have hatomic := atomic_normalizeAtomicRanges u b.text atomic
  have hcursor := hatomic.stop_normalizeCursor hb
  unfold planCommand
  simp only
  generalize normalizeAtomicRanges u b.text atomic = ranges at hatomic hcursor ⊢
  generalize normalizeCursorForAtomicRanges b.cursorByte ranges = cursorByte at hcursor ⊢
  have hprev := hatomic.previousAtomicBoundary_spec hcursor.le_byteLen
  have hnext := hatomic.nextAtomicBoundary_spec hcursor.le_byteLen
  have hstart := hatomic.lineStartAt_spec hu hcursor.le_byteLen
  have hend := hatomic.lineEndFrom_spec hu hcursor.boundary
  cases command with
  | insert character =>
    obtain ⟨plan, hplan, -, hvalid⟩ := validPlan_of_stops ⟨cursorByte, cursorByte⟩ [character]
      (cursorByte + character.utf8Size) .right le_rfl hcursor hcursor
      (by simpa using hcursor.le_byteLen) (by simp)
    exact ⟨plan, hplan, hvalid⟩
  | moveGraphemeLeft => exact makeMove_valid hcursor hprev.1
  | moveGraphemeRight => exact makeMove_valid hcursor hnext.1
  | moveWordLeft style =>
    obtain ⟨m, hm, hstop, -⟩ := hatomic.previousWordBoundary_spec style hcursor
    simpa [hm] using makeMove_valid hcursor hstop
  | moveWordRight style =>
    obtain ⟨m, hm, hstop, -⟩ := hatomic.nextWordBoundary_spec style hcursor
    simpa [hm] using makeMove_valid hcursor hstop
  | moveLogicalLineStart =>
    exact makeMove_valid hcursor (hatomic.logicalLineStartTarget_spec hu hcursor.le_byteLen)
  | moveLogicalLineEnd =>
    exact makeMove_valid hcursor (hatomic.logicalLineEndTarget_spec hu hcursor.boundary)
  | deleteGraphemeBackward => exact makeDeletion_valid _ hprev.2.2 hprev.1 hcursor
  | deleteGraphemeForward => exact makeDeletion_valid _ hnext.2.2 hcursor hnext.1
  | deleteWordBackward style =>
    obtain ⟨m, hm, hstop, hle⟩ := hatomic.previousWordBoundary_spec style hcursor
    simpa [hm] using makeDeletion_valid ⟨m, cursorByte⟩ hle hstop hcursor
  | deleteWordForward style =>
    obtain ⟨m, hm, hstop, hle⟩ := hatomic.nextWordBoundary_spec style hcursor
    simpa [hm] using makeDeletion_valid ⟨cursorByte, m⟩ hle hcursor hstop
  | deleteToLineStart =>
    have hback := hatomic.previousAtomicBoundary_spec hstart.1.le_byteLen
    simp only
    split
    · exact makeDeletion_valid _ (hback.2.2.trans hstart.2) hback.1 hcursor
    · exact makeDeletion_valid _ hstart.2 hstart.1 hcursor
  | deleteToLineEnd =>
    simp only [min_eq_left hend.2]
    split
    · -- the cursor is at the end of its line: the line ending goes
      cases hr : lineEndingAt b.text (lineEndFrom b.text cursorByte ranges) with
      | some range =>
        have hafter := hatomic.lineEndingAt_spec hu hcursor.boundary hr
        exact makeDeletion_valid _ (hend.2.trans hafter.2) hcursor hafter.1
      | none => exact makeDeletion_valid _ hend.2 hcursor hend.1
    · exact makeDeletion_valid _ hend.2 hcursor hend.1

/-! ## Reachable buffers -/

theorem Checked.boundary (h : Checked u b plan)
    (happly : applyValidatedPlan u b plan = some (b', outcome)) :
    IsBoundary u b'.text b'.cursorByte := by
  obtain ⟨c, o, pre, post, hc, -, -, -, -, hboundary⟩ := h.applied
  obtain ⟨rfl, -⟩ : c = b' ∧ o = outcome := by simpa [happly, eq_comm] using hc
  exact hboundary

theorem ValidPlan.boundary (h : ValidPlan u b ranges plan)
    (happly : applyValidatedPlan u b plan = some (b', outcome)) :
    IsBoundary u b'.text b'.cursorByte :=
  (validatePlan_eq_ok.mp h.accepted).boundary happly

theorem Reachable.boundary (hu : BreaksLines u) (h : Reachable u b) :
    IsBoundary u b.text b.cursorByte := by
  induction h with
  | new identity => exact isBoundary_byteLen []
  | fromText text identity => exact isBoundary_byteLen text
  | fromParts text cursorByte identity => exact isBoundary_normalizeExternalCursor u text cursorByte
  | clone _ identity ih => exact ih
  | @setCursorByte b _ cursorByte _ =>
    have hb := isBoundary_normalizeExternalCursor u b.text cursorByte
    unfold EditBuffer.setCursorByte
    simp only
    rw [(ite_advanceGeneration _ _).1, (ite_advanceGeneration _ _).2]
    exact hb
  | @insertStr b b' outcome _ text hb ih =>
    obtain ⟨plan, hplan, -, hvalid⟩ :=
      planReplaceByteRange_valid ih ⟨b.cursorByte, b.cursorByte⟩ text []
    simp only [EditBuffer.insertStr, hplan, bind_eq_bind, bind_some] at hb
    exact hvalid.boundary hb
  | replaceByteRange _ range replacement hb ih =>
    obtain ⟨plan, hplan, -, hvalid⟩ := planReplaceByteRange_valid ih range replacement []
    simp only [EditBuffer.replaceByteRange, hplan, bind_eq_bind, bind_some] at hb
    exact hvalid.boundary hb
  | @applyPlan b b' outcome _ plan hb _ =>
    unfold EditBuffer.applyPlan at hb
    cases hv : validatePlan u b plan with
    | error e => simp [hv] at hb
    | ok x =>
      have happly : applyValidatedPlan u b plan = some (b', outcome) := by simpa [hv] using hb
      exact (validatePlan_eq_ok.mp hv).boundary happly
  | apply _ command hb ih =>
    obtain ⟨plan, hplan, hvalid⟩ := planCommand_valid hu ih command []
    simp only [EditBuffer.apply, hplan, bind_eq_bind, bind_some] at hb
    exact hvalid.boundary hb

end EditBuffer

end GrokBuild.PromptEditor
