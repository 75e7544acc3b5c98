import GrokBuild.PromptEditor.Kept
import GrokBuild.PromptEditor.Screen

/-!
# What operations are made of

Every operation that succeeds is a few changes in a row: bookkeeping, one planned
edit, the cursor put outside the elements, elements dropped or added, a snapshot
brought back (`Change`). A fact that each of these keeps holds after every
operation, and so over every run. The operations below leave the selection to
the edits: setting it is not among them.
-/

namespace GrokBuild.PromptEditor

open TextLines Str ByteText List Option

namespace TextArea

variable {u : Unicode} {restores : Bool} {ta ta' ta'' : TextArea} {plan : EditPlan}

/-- A position that is not strictly inside an element. -/
def Outside (elements : List TextElement) (p : Nat) : Prop :=
  ∀ e ∈ elements, ¬ Span.Inside p e.range

/-- Only an operation that restores brings a snapshot back. -/
inductive Change (u : Unicode) (restores : Bool) : TextArea → TextArea → Prop where
  /-- The history, the kill buffer or a setting. -/
  | record {ta ta' : TextArea} (htext : ta'.text = ta.text) (helements : ta'.elements = ta.elements)
      (hselection : ta'.selection = ta.selection) (hhistory : Remembers ta ta') : Change u restores ta ta'
  | unselect (ta : TextArea) : Change u restores ta { ta with selection := none }
  | edit {ta ta' : TextArea} {plan : EditPlan} {kind : Option MutationKind} {outcome : EditOutcome}
      (hsound : Sound u ta)
      (hvalid : ta.text.ValidPlan u (normalizeAtomicRanges u ta.text.text ta.elementRanges) plan)
      (hlands : Outside ta'.elements plan.cursorByte)
      (hok : ta.applyValidatedEditPlan u plan kind = some (ta', outcome)) : Change u restores ta ta'
  | move (ta : TextArea) (p : Nat) (hout : Outside ta.elements p) : Change u restores ta (ta.setCursorInner u p)
  | drop {ta : TextArea} {elements : List TextElement} (hsub : elements.Sublist ta.elements) :
      Change u restores ta { ta with elements }
  | add (ta : TextArea) (range : ByteRange) (kind : ElementKind)
      (hsound : Sound u (ta.addElement range kind).1) :
      Change u restores ta ((ta.addElement range kind).1.setCursor u range.stop)
  /-- Another text without elements. -/
  | replace (ta : TextArea) {text : EditBuffer} (hcursor : IsBoundary u text.text text.cursorByte) :
      Change u restores ta { ta with text, elements := [], selection := none }
  | restore (ta : TextArea) (hrestores : restores = true) (entry : UndoEntry)
      (hentry : entry ∈ ta.undo.entries) (undo : UndoState)
      (hundo : ∀ x ∈ undo.entries, x ∈ ta.undo.entries ∨ x = ta.snapshot) :
      Change u restores ta (TextArea.restore u { ta with undo } entry)

/-- Any number of changes. -/
abbrev Changes (u : Unicode) (restores : Bool) : TextArea → TextArea → Prop :=
  Relation.ReflTransGen (Change u restores)

theorem Changes.keeps {P : TextArea → Prop} (hP : ∀ ta ta', Change u restores ta ta' → P ta → P ta')
    (h : Changes u restores ta ta') (hta : P ta) : P ta' := by
  induction h with
  | refl => exact hta
  | tail _ hchange ih => exact hP _ _ hchange ih

theorem Changes.of_record (htext : ta'.text = ta.text) (helements : ta'.elements = ta.elements)
    (hselection : ta'.selection = ta.selection) (hhistory : Remembers ta ta') : Changes u restores ta ta' :=
  .single (.record htext helements hselection hhistory)

/-! ## Where a plan leaves the cursor -/

theorem outside_of_stop (hs : Sound u ta) {p : Nat}
    (h : Stop u ta.text.text (normalizeAtomicRanges u ta.text.text ta.elementRanges) p) :
    Outside ta.elements p := by
  intro e he hin
  have hmem : e.range ∈ ta.elementRanges := List.mem_map_of_mem he
  obtain ⟨m, hm, hstart, hstop⟩ := exists_normalized_of_mem (u := u) hmem
    (hin.1.trans hin.2) (hs.whole.inside e he).2
  exact h.outside m hm ⟨hstart.trans_lt hin.1, hin.2.trans_le hstop⟩

/-- The cursor of a plan: behind what it inserts, at a stop before or behind the
replaced range, or, when nothing is replaced, at any stop. -/
def Lands (u : Unicode) (text : Text) (ranges : List ByteRange) (plan : EditPlan) : Prop :=
  plan.cursorByte = plan.replacedByteRange.start + byteLen plan.replacement ∨
    (Stop u text ranges plan.cursorByte ∧ plan.cursorByte < plan.replacedByteRange.start) ∨
    (∃ p, Stop u text ranges p ∧ plan.replacedByteRange.stop < p ∧ plan.cursorByte =
      p - (plan.replacedByteRange.stop - plan.replacedByteRange.start) + byteLen plan.replacement) ∨
    (isSemanticEdit plan = false ∧ Stop u text ranges plan.cursorByte)

theorem outside_of_lands (hs : Sound u ta)
    (hvalid : ta.text.ValidPlan u (normalizeAtomicRanges u ta.text.text ta.elementRanges) plan)
    (happ : Applied u ta ta' plan)
    (h : Lands u ta.text.text (normalizeAtomicRanges u ta.text.text ta.elementRanges) plan) :
    Outside ta'.elements plan.cursorByte := by
  have hclear := (sound_of_applied hs hvalid happ).2
  have hresp := plan_respects hs hvalid
  have hle : plan.replacedByteRange.start ≤ plan.replacedByteRange.stop := by
    obtain ⟨pre, post, -, hstart, hstop, -⟩ := happ.text
    omega
  -- an element after the edit is one of before, left where it was or shifted
  have hcases : ∀ e' ∈ ta'.elements, isSemanticEdit plan = true → ∃ e ∈ ta.elements,
      (e'.range = e.range ∧ e.range.stop ≤ plan.replacedByteRange.start) ∨
        (plan.replacedByteRange.stop ≤ e.range.start ∧ e'.range =
          ⟨e.range.start - (plan.replacedByteRange.stop - plan.replacedByteRange.start) +
              byteLen plan.replacement,
            e.range.stop - (plan.replacedByteRange.stop - plan.replacedByteRange.start) +
              byteLen plan.replacement⟩) := by
    intro e' he' hsem
    rw [happ.elements, hsem, if_pos rfl] at he'
    obtain ⟨e, he, hkeep, rfl⟩ := mem_shiftElements he'
    rcases shiftRange_cases (byteLen plan.replacement) hle (hresp e he) hkeep with
      ⟨hbefore, -, heq⟩ | ⟨hafter, -, heq⟩
    · exact ⟨e, he, Or.inl ⟨heq, hbefore⟩⟩
    · exact ⟨e, he, Or.inr ⟨hafter, heq⟩⟩
  intro e' he' hin
  have hside := hclear e' he'
  simp only [Span.Inside] at hin
  rcases h with hcursor | ⟨hstop, hlt⟩ | ⟨p, hstop, hlt, hcursor⟩ | ⟨hsem, hstop⟩
  · omega
  · -- before the edit nothing has moved
    cases hsem : isSemanticEdit plan with
    | true =>
      obtain ⟨e, he, ⟨heq, -⟩ | ⟨hafter, heq⟩⟩ := hcases e' he' hsem
      · exact outside_of_stop hs hstop e he (heq ▸ hin)
      · rw [heq] at hin
        simp only at hin
        omega
    | false =>
      rw [happ.elements, hsem, if_neg (by simp)] at he'
      exact outside_of_stop hs hstop e' he' hin
  · cases hsem : isSemanticEdit plan with
    | true =>
      obtain ⟨e, he, ⟨heq, hbefore⟩ | ⟨hafter, heq⟩⟩ := hcases e' he' hsem
      · rw [heq] at hin
        omega
      · -- behind the edit the cursor has moved with the elements
        apply outside_of_stop hs hstop e he
        rw [heq, hcursor] at hin
        simp only at hin
        constructor <;> omega
    | false =>
      obtain ⟨hsame, hempty⟩ : plan.removedText = plan.replacement ∧
          plan.replacedByteRange.stop ≤ plan.replacedByteRange.start := by
        simpa [isSemanticEdit] using hsem
      have hzero : byteLen plan.replacement = 0 := by
        obtain ⟨pre, post, -, hstart, hstop', -⟩ := happ.text
        rw [← hsame]
        omega
      rw [happ.elements, hsem, if_neg (by simp)] at he'
      apply outside_of_stop hs hstop e' he'
      constructor <;> omega
  · rw [happ.elements, hsem, if_neg (by simp)] at he'
    exact outside_of_stop hs hstop e' he' hin

end TextArea

namespace EditBuffer

open TextArea

variable {u : Unicode} {b : EditBuffer} {plan : EditPlan} {replacement : Text}
theorem makePlan_eq_some {range : ByteRange} {cursorByte : Nat}
    {affinity : PostEditCursorAffinity}
    (h : b.makePlan range replacement cursorByte affinity = some plan) :
    plan.replacedByteRange = range ∧ plan.replacement = replacement ∧ plan.cursorByte = cursorByte ∧
      slice b.text range.start range.stop = some plan.removedText := by
  obtain ⟨removed, hslice, rfl⟩ := map_eq_some_iff.mp h
  exact ⟨rfl, rfl, rfl, hslice⟩

theorem makeDeletion_lands {ranges : List ByteRange} {range : ByteRange}
    (h : b.makeDeletion range = some plan) : Lands u b.text ranges plan := by
  obtain ⟨hrange, hrepl, hcursor, -⟩ := makePlan_eq_some h
  left
  rw [hrange, hrepl, hcursor]
  rfl

theorem makeMove_lands {ranges : List ByteRange} {cursorByte target : Nat}
    (hcursor : Stop u b.text ranges cursorByte) (htarget : Stop u b.text ranges target)
    (h : b.makeMove cursorByte target = some plan) : Lands u b.text ranges plan := by
  obtain ⟨hrange, hrepl, hto, hslice⟩ := makePlan_eq_some h
  rw [slice_self hcursor.boundary.isCharBoundary] at hslice
  have hremoved : plan.removedText = [] := (some.inj hslice).symm
  refine Or.inr (Or.inr (Or.inr ⟨?_, hto ▸ htarget⟩))
  simp [isSemanticEdit, hremoved, hrepl, hrange]

theorem planReplaceByteRange_lands (hb : IsBoundary u b.text b.cursorByte) {range : ByteRange}
    {atomic : List ByteRange}
    (h : planReplaceByteRange u b range replacement atomic = some plan) :
    Lands u b.text (normalizeAtomicRanges u b.text atomic) plan := by
  have hatomic := atomic_normalizeAtomicRanges u b.text atomic
  have hcursor := hatomic.stop_normalizeCursor hb
  obtain ⟨e, he, hle, -, -⟩ := hatomic.normalizeReplacementRange_spec range
  simp only [planReplaceByteRange, he, bind_eq_bind, bind_some] at h
  obtain ⟨hrange, hrepl, hto, -⟩ := makePlan_eq_some h
  rw [Lands, hrange, hrepl, hto]
  split_ifs with hbefore hin
  · exact Or.inr (Or.inl ⟨hcursor, hbefore⟩)
  · exact Or.inl rfl
  · exact Or.inr (Or.inr (Or.inl ⟨_, hcursor, by omega, rfl⟩))
variable {command : EditCommand}

theorem planCommand_lands (hu : BreaksLines u) (hb : IsBoundary u b.text b.cursorByte)
    {atomic : List ByteRange}
    (h : planCommand u b command atomic = some plan) :
    Lands u b.text (normalizeAtomicRanges u b.text atomic) plan := by
  have hatomic := atomic_normalizeAtomicRanges u b.text atomic
  have hcursor := hatomic.stop_normalizeCursor hb
  unfold planCommand at h
  simp only at h
  generalize normalizeAtomicRanges u b.text atomic = ranges at hatomic hcursor h ⊢
  generalize normalizeCursorForAtomicRanges b.cursorByte ranges = cursorByte at hcursor h
  cases command with
  | insert character =>
    obtain ⟨hrange, hrepl, hto, -⟩ := makePlan_eq_some h
    left
    rw [hrange, hrepl, hto]
    simp
  | moveGraphemeLeft =>
    exact makeMove_lands hcursor (hatomic.previousAtomicBoundary_spec hcursor.le_byteLen).1 h
  | moveGraphemeRight =>
    exact makeMove_lands hcursor (hatomic.nextAtomicBoundary_spec hcursor.le_byteLen).1 h
  | moveWordLeft style =>
    obtain ⟨m, hm, hstop, -⟩ := hatomic.previousWordBoundary_spec style hcursor
    obtain ⟨target, htarget, hmove⟩ := bind_eq_some_iff.mp h
    obtain rfl : m = target := some.inj (hm.symm.trans htarget)
    exact makeMove_lands hcursor hstop hmove
  | moveWordRight style =>
    obtain ⟨m, hm, hstop, -⟩ := hatomic.nextWordBoundary_spec style hcursor
    obtain ⟨target, htarget, hmove⟩ := bind_eq_some_iff.mp h
    obtain rfl : m = target := some.inj (hm.symm.trans htarget)
    exact makeMove_lands hcursor hstop hmove
  | moveLogicalLineStart =>
    exact makeMove_lands hcursor (hatomic.logicalLineStartTarget_spec hu hcursor.le_byteLen) h
  | moveLogicalLineEnd =>
    exact makeMove_lands hcursor (hatomic.logicalLineEndTarget_spec hu hcursor.boundary) h
  | deleteGraphemeBackward => exact makeDeletion_lands h
  | deleteGraphemeForward => exact makeDeletion_lands h
  | deleteWordBackward style =>
    obtain ⟨m, -, hm⟩ := bind_eq_some_iff.mp h
    exact makeDeletion_lands hm
  | deleteWordForward style =>
    obtain ⟨m, -, hm⟩ := bind_eq_some_iff.mp h
    exact makeDeletion_lands hm
  | deleteToLineStart => exact makeDeletion_lands h
  | deleteToLineEnd => exact makeDeletion_lands h

end EditBuffer

namespace TextArea

variable {u : Unicode} {restores : Bool} {ta ta' : TextArea} {plan : EditPlan} {kind : Option MutationKind}
  {outcome : EditOutcome}

/-! ## Edits -/

theorem preMutate_selection (ta : TextArea) (kind : MutationKind) :
    (ta.preMutate kind).selection = ta.selection := by
  rw [preMutate]
  split <;> rfl

theorem preMutateIf_selection (ta : TextArea) (semanticEdit : Bool) (kind : Option MutationKind) :
    (ta.preMutateIf semanticEdit kind).selection = ta.selection := by
  cases kind with
  | none => rfl
  | some kind =>
    cases semanticEdit with
    | true => exact preMutate_selection ta kind
    | false => rfl

theorem changes_preMutate (ta : TextArea) (kind : MutationKind) : Changes u restores ta (ta.preMutate kind) :=
  Changes.of_record (preMutate_text ta kind) (preMutate_elements ta kind) (preMutate_selection ta kind)
    (preMutate_remembers ta kind)

theorem changes_postMutate (ta : TextArea) : Changes u restores ta ta.postMutate :=
  .of_record rfl rfl rfl fun _ hx => Or.inl hx

theorem changes_applyEditPlan (hs : Sound u ta)
    (hvalid : ta.text.ValidPlan u (normalizeAtomicRanges u ta.text.text ta.elementRanges) plan)
    (hlands : Lands u ta.text.text (normalizeAtomicRanges u ta.text.text ta.elementRanges) plan)
    (h : ta.applyEditPlan u plan kind = some (ta', outcome)) : Changes u restores ta ta' := by
  obtain ⟨htext, helements, hids, hhistory⟩ := preMutateIf_frame ta (isSemanticEdit plan) kind
  have hselection := preMutateIf_selection ta (isSemanticEdit plan) kind
  have hsm := (sound_of_same hs htext helements hids hhistory).1
  have hranges : (ta.preMutateIf (isSemanticEdit plan) kind).elementRanges = ta.elementRanges := by
    rw [elementRanges, elementRanges, helements]
  rw [← hranges, ← htext] at hvalid hlands
  simp only [applyEditPlan, bind_eq_bind, bind_eq_some_iff] at h
  obtain ⟨-, -, ⟨edited, o⟩, hok, hrest⟩ := h
  obtain ⟨c, o', hok', happ⟩ :=
    applyValidatedEditPlan_applied (EditBuffer.validatePlan_eq_ok.mp hvalid.accepted) kind
  obtain ⟨rfl, rfl⟩ : c = edited ∧ o' = o := by simpa using hok'.symm.trans hok
  have hedit : Changes u restores ta c :=
    (Changes.of_record htext helements hselection hhistory).tail
      (.edit hsm hvalid (outside_of_lands hsm hvalid happ hlands) hok)
  obtain ⟨rfl, -⟩ := Prod.mk.inj (some.inj hrest)
  split
  · exact hedit.trans (changes_postMutate c)
  · exact hedit

theorem changes_applyEditCommand (hu : BreaksLines u) (hs : Sound u ta)
    (h : ta.applyEditCommand u command kind = some (ta', outcome)) : Changes u restores ta ta' := by
  obtain ⟨plan, hplan, hvalid⟩ :=
    EditBuffer.planCommand_valid hu hs.cursor command ta.elementRanges
  have hlands := EditBuffer.planCommand_lands hu hs.cursor hplan
  simp only [applyEditCommand, hplan, bind_eq_bind, bind_some] at h
  exact changes_applyEditPlan hs hvalid hlands h

theorem changes_applyEditReplacement (hs : Sound u ta) {range : ByteRange}
    (h : ta.applyEditReplacement u range replacement kind = some ta') : Changes u restores ta ta' := by
  obtain ⟨plan, hplan, -, hvalid⟩ := EditBuffer.planReplaceByteRange_valid hs.cursor range
    (ta.expandTabs replacement) ta.elementRanges
  have hlands := EditBuffer.planReplaceByteRange_lands hs.cursor hplan
  simp only [applyEditReplacement, planEditReplacement, hplan, bind_eq_bind, bind_some,
    bind_eq_some_iff] at h
  obtain ⟨⟨edited, o⟩, hok, hrest⟩ := h
  obtain rfl := some.inj hrest
  exact changes_applyEditPlan hs hvalid hlands hok

/-! ## The cursor -/
variable {text : Text}

theorem outside_ends {elements : List TextElement} (h : Whole text elements)
    {x : TextElement} (hx : x ∈ elements) :
    Outside elements x.range.start ∧ Outside elements x.range.stop := by
  have hside : ∀ e ∈ elements, e = x ∨ e.range.stop ≤ x.range.start ∨ x.range.stop ≤ e.range.start := by
    intro e he
    by_cases hex : e = x
    · exact Or.inl hex
    · have hsymm : Std.Symm fun a b : TextElement =>
          a.range.stop ≤ b.range.start ∨ b.range.stop ≤ a.range.start := ⟨fun _ _ => Or.symm⟩
      exact Or.inr (h.disjoint.forall he hx hex)
  constructor <;> intro e he hin
  all_goals
    have hx' := (h.inside x hx).1
    simp only [Span.Inside] at hin
    rcases hside e he with rfl | hle | hle <;> omega

theorem outside_clamp (hs : Sound u ta) (pos : Nat) :
    Outside ta.elements (ta.clampPosToNearestBoundary pos) := by
  intro e he
  unfold clampPosToNearestBoundary
  simp only
  cases hf : ta.elements.find? fun e => decide (Span.Inside (min pos (byteLen ta.text.text)) e.range) with
  | none => simpa using find?_eq_none.mp hf e he
  | some x =>
    have hends := outside_ends hs.whole (mem_of_find?_eq_some hf)
    simp only
    split
    · exact hends.1 e he
    · exact hends.2 e he

theorem changes_setCursor (hs : Sound u ta) (pos : Nat) : Changes u restores ta (ta.setCursor u pos) :=
  .single (.move ta _ (outside_clamp hs _))

/-! ## Typing and deleting -/

theorem changes_noteInserted (ta : TextArea) (text : Text) : Changes u restores ta (ta.noteInserted text) := by
  rw [noteInserted]
  split
  · exact Changes.of_record rfl rfl rfl fun _ hx => Or.inl hx
  · exact .refl

theorem changes_insert (hs : Sound u ta) {range : ByteRange}
    (h : (do
      let edited ← ta.applyEditReplacement u range text kind
      some (edited.noteInserted text)) = some ta') : Changes u restores ta ta' := by
  obtain ⟨edited, hedit, hrest⟩ := bind_eq_some_iff.mp h
  obtain rfl := some.inj hrest
  exact (changes_applyEditReplacement hs hedit).trans (changes_noteInserted edited text)

theorem changes_insertStr (hs : Sound u ta) (h : ta.insertStr u text = some ta') :
    Changes u restores ta ta' := by
  cases text with
  | nil =>
    obtain rfl := some.inj h
    exact .refl
  | cons first rest =>
    have hbroken : ∀ broken : TextArea, broken = (if ta.undo.lastKind = some .insert ∧
        ta.undo.lastInsertWs ≠ isWhitespace first then
          { ta with undo := { ta.undo with lastKind := none } } else ta) →
        Sound u broken ∧ Changes u restores ta broken := by
      intro broken heq
      rw [heq]
      split
      · exact ⟨(withUndo_sound hs { ta.undo with lastKind := none } fun _ hx => Or.inl hx).1,
          Changes.of_record rfl rfl rfl fun _ hx => Or.inl hx⟩
      · exact ⟨hs, .refl⟩
    obtain ⟨hsb, hchanges⟩ := hbroken _ rfl
    exact hchanges.trans (changes_insert hsb h)

theorem changes_insertStrAt (hs : Sound u ta) {pos : Nat}
    (h : ta.insertStrAt u pos text = some ta') : Changes u restores ta ta' := by
  rw [insertStrAt] at h
  split at h
  · obtain rfl := some.inj h
    exact .refl
  · exact changes_insert hs h

theorem changes_yank (hs : Sound u ta) (h : ta.yank u = some ta') : Changes u restores ta ta' := by
  rw [yank] at h
  split at h
  · obtain rfl := some.inj h
    exact .refl
  · exact changes_insert hs h

theorem changes_killCurrentLine (hs : Sound u ta) (h : ta.killCurrentLine u = some ta') :
    Changes u restores ta ta' := by
  simp only [killCurrentLine] at h
  split_ifs at h
  · exact changes_applyEditReplacement hs h
  · obtain rfl := some.inj h
    exact .refl
  · exact changes_applyEditReplacement hs h

theorem changes_setText (hs : Sound u ta) (h : ta.setText u text = some ta') :
    Changes u restores ta ta' := by
  obtain ⟨plan, hplan, -, hvalid⟩ := EditBuffer.planReplaceByteRange_valid hs.cursor
    ⟨0, byteLen ta.text.text⟩ (ta.expandTabs text) ta.elementRanges
  simp only [setText, planEditReplacement, hplan, assertValidEditPlan, hvalid.accepted,
    bind_eq_bind, bind_some, bind_eq_some_iff] at h
  obtain ⟨⟨buffer, o⟩, happly, hrest⟩ := h
  obtain rfl := some.inj hrest
  rw [preMutate_text] at happly
  have hreplaced : Changes u restores ta
      { ta.preMutate .replace with text := buffer, elements := [], selection := none } :=
    (changes_preMutate ta .replace).tail (.replace _ (hvalid.boundary happly))
  have hmoved := hreplaced.tail (.move _ (min ta.cursor (byteLen buffer.text)) (by
    intro e he
    cases he))
  exact hmoved.trans (changes_postMutate _)

theorem changes_applyEditCommand_map (hu : BreaksLines u) (hs : Sound u ta)
    (h : (ta.applyEditCommand u command kind).map (·.1) = some ta') : Changes u restores ta ta' := by
  obtain ⟨⟨edited, o⟩, hok, rfl⟩ := map_eq_some_iff.mp h
  exact changes_applyEditCommand hu hs hok

theorem changes_repeatCommand (hu : BreaksLines u) {n : Nat} {ta : TextArea}
    (hs : Sound u ta) (h : repeatCommand u command n ta = some ta') : Changes u restores ta ta' := by
  induction n generalizing ta with
  | zero =>
    obtain rfl := some.inj h
    exact .refl
  | succ n ih =>
    obtain ⟨edited, o, hok, hse, -⟩ := applyEditCommand_sound hu hs command (some .delete)
    have hedit : Changes u restores ta edited := changes_applyEditCommand hu hs hok
    simp only [repeatCommand, hok, bind_eq_bind, bind_some] at h
    split at h
    · obtain rfl := some.inj h
      exact hedit
    · exact hedit.trans (ih hse h)

theorem changes_endUndoGroup (ta : TextArea) : Changes u restores ta ta.endUndoGroup := by
  obtain ⟨htext, helements, hselection, -⟩ := endUndoGroup_frame ta
  exact Changes.of_record htext helements hselection (endUndoGroup_entries ta)

theorem changes_beginUndoGroup (ta : TextArea) : Changes u restores ta ta.beginUndoGroup :=
  Changes.of_record rfl rfl rfl (beginUndoGroup_entries ta)

theorem changes_deleteGraphemes (hu : BreaksLines u) (hs : Sound u ta)
    {n : Nat} (h : ta.deleteGraphemes u command n = some ta') : Changes u restores ta ta' := by
  rw [deleteGraphemes] at h
  split_ifs at h
  · obtain rfl := some.inj h
    exact .refl
  · exact changes_applyEditCommand_map hu hs h
  · obtain ⟨edited, hrepeat, rfl⟩ := map_eq_some_iff.mp h
    exact ((changes_beginUndoGroup ta).trans
      (changes_repeatCommand hu (beginUndoGroup_sound hs).1 hrepeat)).trans
        (changes_endUndoGroup edited)

theorem changes_applyClassifiedCommand (hu : BreaksLines u) (hs : Sound u ta)
    (h : ta.applyClassifiedCommand u command = some ta') : Changes u restores ta ta' := by
  cases command with
  | insert character =>
    have h : ta.insertStr u [character] = some ta' := h
    exact changes_insertStr hs h
  | _ => exact changes_applyEditCommand_map hu hs h

/-! ## Deleting the selection -/

theorem outside_selectionRange (hs : Sound u ta) {range : ByteRange}
    (h : ta.selectionRange = some (some range)) :
    range.start < range.stop ∧ Outside ta.elements range.start ∧ Outside ta.elements range.stop := by
  rw [selectionRange] at h
  split at h
  · cases h
  · split at h
    · cases h
    · simp only [bind_eq_bind, bind_eq_some_iff] at h
      obtain ⟨e, he, hclamp⟩ := h
      have hle : min ‹Selection›.anchor ‹Selection›.head ≤ max ‹Selection›.anchor ‹Selection›.head :=
        min_le_max
      obtain ⟨-, ⟨hgrow, hgrow'⟩, hresp⟩ :=
        Span.expand_spec (P := fun _ => True) (fun _ _ => ⟨trivial, trivial⟩) ⟨trivial, trivial⟩ he
      split at hclamp
      · cases hclamp
      · rename_i hlt
        obtain rfl := some.inj (some.inj hclamp)
        simp only at hgrow hgrow' hlt ⊢
        have hends : ∀ x ∈ ta.elements, ¬ Span.Inside e.start x.range ∧ ¬ Span.Inside e.stop x.range :=
          fun x hx => Span.not_inside_of_respects (by omega) (hresp x.range (List.mem_map_of_mem hx))
        -- an element ends with the text at the latest, so clipping to the text changes nothing
        have hclip : ∀ p x, x ∈ ta.elements → ¬ Span.Inside p x.range →
            ¬ Span.Inside (min p (byteLen ta.text.text)) x.range := by
          intro p x hx hp hin
          have hlen := (hs.whole.inside x hx).2
          simp only [Span.Inside] at hp hin
          omega
        exact ⟨by omega, fun x hx => hclip _ x hx (hends x hx).1, fun x hx => hclip _ x hx (hends x hx).2⟩

theorem le_byteLen_of_selectionRange {range : ByteRange}
    (h : ta.selectionRange = some (some range)) : range.stop ≤ byteLen ta.text.text := by
  rw [selectionRange] at h
  split at h
  · cases h
  · split at h
    · cases h
    · simp only [bind_eq_bind, bind_eq_some_iff] at h
      obtain ⟨e, -, hclamp⟩ := h
      split at hclamp
      · cases hclamp
      · obtain rfl := some.inj (some.inj hclamp)
        exact min_le_right _ _

theorem stop_of_outside (hs : Sound u ta) {p : Nat} (hp : IsBoundary u ta.text.text p)
    (hout : Outside ta.elements p) :
    Stop u ta.text.text (normalizeAtomicRanges u ta.text.text ta.elementRanges) p := by
  refine ⟨hp, fun m hm hin => ?_⟩
  obtain ⟨r, hr, hin⟩ := Span.inside_of_mem_merge (rangeLe_sorted _) hm hin
  obtain ⟨q, hq, hnormal⟩ := mem_filterMap.mp (mem_mergeSort.mp hr)
  obtain ⟨e, he, rfl⟩ := List.mem_map.mp hq
  have hinside := hs.whole.inside e he
  have hfloor := floorGraphemeBoundary_spec u ta.text.text e.range.start
  have hceil := ceilGraphemeBoundary_spec u ta.text.text e.range.stop
  have hstart : min (min e.range.start e.range.stop) (byteLen ta.text.text) = e.range.start := by omega
  have hstop : min (max e.range.start e.range.stop) (byteLen ta.text.text) = e.range.stop := by omega
  simp only [normalizeAtomicRange, hstart, hstop] at hnormal
  split_ifs at hnormal
  obtain rfl := some.inj hnormal
  simp only [Span.Inside] at hin
  -- no boundary is between an end of the element and where it is widened to
  have hbefore : ¬ p ≤ e.range.start := fun hle => absurd (hfloor.2.2 p hp hle) (by omega)
  have hafter : ¬ e.range.stop ≤ p := fun hle => absurd (hceil.2.2 p hp hle) (by omega)
  exact hout e he ⟨by omega, by omega⟩

theorem start_of_planned (hs : Sound u ta) {range : ByteRange} (hlt : range.start < range.stop)
    (hle : range.stop ≤ byteLen ta.text.text) (hp : IsBoundary u ta.text.text range.start)
    (hout : Outside ta.elements range.start)
    (h : ta.text.planReplaceByteRange u range replacement ta.elementRanges = some plan) :
    plan.replacedByteRange.start = range.start := by
  have hstop := stop_of_outside hs hp hout
  have hfloor := floorGraphemeBoundary_spec u ta.text.text range.start
  have heq : floorGraphemeBoundary u ta.text.text range.start = range.start :=
    le_antisymm hfloor.2.1 (hfloor.2.2 _ hp le_rfl)
  simp only [EditBuffer.planReplaceByteRange, bind_eq_bind, bind_eq_some_iff] at h
  obtain ⟨e, he, hplan⟩ := h
  obtain ⟨hrange, -⟩ := EditBuffer.makePlan_eq_some hplan
  have hraw : min (min range.start range.stop) (byteLen ta.text.text) = range.start := by omega
  have hraw' : min (max range.start range.stop) (byteLen ta.text.text) = range.stop := by omega
  simp only [normalizeReplacementRange, hraw, hraw', if_neg hlt.ne, heq] at he
  rw [hrange]
  exact Span.expand_start (e := ⟨range.start, ceilGraphemeBoundary u ta.text.text range.stop⟩)
    hstop.outside he

theorem changes_deleteSelection (hs : Sound u ta)
    (hstart : ∀ range, ta.selectionRange = some (some range) → IsBoundary u ta.text.text range.start)
    (h : (ta.deleteSelection u).map (·.1) = some ta') : Changes u restores ta ta' := by
  obtain ⟨⟨edited, deleted⟩, hok, rfl⟩ := map_eq_some_iff.mp h
  simp only [deleteSelection, bind_eq_bind, bind_eq_some_iff] at hok
  obtain ⟨selected, hselected, hok⟩ := hok
  cases selected with
  | none =>
    obtain ⟨rfl, -⟩ := Prod.mk.inj (some.inj hok)
    exact .refl
  | some range =>
    obtain ⟨removed, hremoved, hok⟩ := bind_eq_some_iff.mp hok
    obtain ⟨rfl, -⟩ := Prod.mk.inj (some.inj hok)
    have hchanges : Changes u restores ta removed := changes_applyEditReplacement hs hremoved
    obtain ⟨hlt, hout, -⟩ := outside_selectionRange hs hselected
    have hle := le_byteLen_of_selectionRange hselected
    -- the deletion begins where the selection does, and no element holds that byte
    obtain ⟨plan, hplan, -, hvalid⟩ := EditBuffer.planReplaceByteRange_valid hs.cursor range
      (ta.expandTabs []) ta.elementRanges
    have hfrom := start_of_planned hs hlt hle (hstart range hselected) hout hplan
    obtain ⟨c, o, hc, happ⟩ := applyEditPlan_applied
      (EditBuffer.validatePlan_eq_ok.mp hvalid.accepted) (some .replace)
    have hremoved' : c = removed := by
      simpa [applyEditReplacement, planEditReplacement, hplan, hc] using hremoved
    obtain ⟨pre, post, -, hpre, -, htext⟩ := happ.text
    have hclear := (sound_of_applied hs hvalid happ).2
    rw [hremoved'] at htext hclear
    have hmin : min range.start (byteLen removed.text.text) = range.start := by
      rw [htext, byteLen_append, byteLen_append]
      omega
    have hmoved := hchanges.tail (.move removed (min range.start (byteLen removed.text.text)) (by
      intro e he hin
      rw [hmin] at hin
      have hside := hclear e he
      simp only [Span.Inside] at hin
      omega))
    exact (hmoved.trans (changes_postMutate _)).tail (.unselect _)

/-! ## Elements -/

theorem changes_replaceRangeWithElement (hs : Sound u ta) {range : ByteRange}
    {elementKind : ElementKind}
    (h : (ta.replaceRangeWithElement u range text elementKind).map (·.1) = some ta') :
    Changes u restores ta ta' := by
  obtain ⟨plan, hplan, -, hvalid⟩ := EditBuffer.planReplaceByteRange_valid hs.cursor range
    (ta.expandTabs text) ta.elementRanges
  have hlands := EditBuffer.planReplaceByteRange_lands hs.cursor hplan
  have hsm := (preMutate_sound hs .element).1
  have hranges : (ta.preMutate .element).elementRanges = ta.elementRanges := by
    rw [elementRanges, elementRanges, preMutate_elements]
  rw [← hranges, ← preMutate_text ta .element] at hvalid hlands
  obtain ⟨edited, outcome, hedit, happ⟩ := applyValidatedEditPlan_applied
    (EditBuffer.validatePlan_eq_ok.mp hvalid.accepted) (some .element)
  obtain ⟨⟨hse, -⟩, hclear⟩ := sound_of_applied hsm hvalid happ
  obtain ⟨pre, post, -, hstart, -, htext⟩ := happ.text
  have hchars := isCharBoundary_of_slice (slice_append pre plan.replacement post)
  rw [← htext, hstart] at hchars
  obtain ⟨hsa, -⟩ := addElement_sound hse ⟨plan.replacedByteRange.start,
    plan.replacedByteRange.start + byteLen plan.replacement⟩ elementKind (by simp) hchars hclear
  have hedited : Changes u restores ta edited := (changes_preMutate ta .element).tail
    (.edit hsm hvalid (outside_of_lands hsm hvalid happ hlands) hedit)
  have hadded := hedited.tail (.add edited _ elementKind hsa)
  rw [preMutate_text] at hvalid
  simp only [replaceRangeWithElement, planEditReplacement, hplan, applyElementTransaction,
    assertValidEditPlan, hvalid.accepted, hedit, bind_eq_bind, bind_some,
    map_some] at h
  obtain rfl := some.inj h
  exact hadded.trans (changes_postMutate _)

theorem changes_inlineElement (hs : Sound u ta) (id : ElementId) :
    Changes u restores ta (ta.inlineElement u id).1 := by
  rw [inlineElement]
  cases hf : ta.elements.findIdx? fun e => e.id == id with
  | none => exact .refl
  | some idx =>
    obtain ⟨hidx, -⟩ := findIdx?_eq_some_iff_getElem.mp hf
    have hdropped : Changes u restores ta { ta.preMutate .element with
        elements := (ta.preMutate .element).elements.eraseIdx idx } :=
      (changes_preMutate ta .element).tail (.drop (eraseIdx_sublist (ta.preMutate .element).elements idx))
    have hget : ta.elements[idx]? = some ta.elements[idx] := getElem?_eq_getElem hidx
    have hout : Outside ((ta.preMutate .element).elements.eraseIdx idx) ta.elements[idx].range.stop := by
      intro e he
      rw [preMutate_elements] at he
      exact (outside_ends hs.whole (getElem_mem hidx)).2 e
        ((eraseIdx_sublist ta.elements idx).subset he)
    have hmoved := hdropped.tail (.move _ ta.elements[idx].range.stop hout)
    simp only [hget, map_some, getD_some]
    exact hmoved.trans (Changes.of_record rfl rfl rfl fun _ hx => Or.inl hx)

/-! ## The history -/

theorem changes_resetBatch (ta : TextArea) : Changes u restores ta ta.resetBatch :=
  Changes.of_record rfl rfl rfl fun _ hx => Or.inl hx

theorem changes_clearHistory (ta : TextArea) : Changes u restores ta ta.clearHistory :=
  Changes.of_record rfl rfl rfl (clearHistory_entries ta)

theorem changes_undoStep (ta : TextArea) : Changes u true ta (ta.undoStep u) := by
  rw [undoStep]
  cases hl : ta.undo.stack.getLast? with
  | none => exact .refl
  | some entry =>
    exact (Relation.ReflTransGen.single (.restore ta rfl entry
      (by simp [UndoState.entries, mem_of_getLast? hl]) _ (popped_entries ta))).trans
        (changes_resetBatch _)

theorem changes_redoStep (ta : TextArea) : Changes u true ta (ta.redoStep u) := by
  rw [redoStep]
  cases hl : ta.undo.redo.getLast? with
  | none => exact .refl
  | some entry =>
    exact (Relation.ReflTransGen.single (.restore ta rfl entry
      (by simp [UndoState.entries, mem_of_getLast? hl]) _ (unpopped_entries ta))).trans
        (changes_resetBatch _)

theorem changes_cancelUndoGroup (ta : TextArea) : Changes u true ta (ta.cancelUndoGroup u) := by
  rw [cancelUndoGroup]
  split
  · exact .refl
  · have hleft : ∀ x ∈ ({ ta.undo with groupDepth := 0, groupCheckpoint := none } :
        UndoState).entries, x ∈ ta.undo.entries ∨ x = ta.snapshot :=
      fun _ hx => Or.inl (ungrouped_entries hx)
    cases hcheck : ta.undo.groupCheckpoint with
    | some checkpoint =>
      exact (Relation.ReflTransGen.single (.restore ta rfl _ (by simp [UndoState.entries, hcheck]) _
        hleft)).trans (changes_resetBatch _)
    | none =>
      have hclosed : Changes u true ta { ta with undo :=
          { ta.undo with groupDepth := 0, groupCheckpoint := none } } :=
        Changes.of_record rfl rfl rfl hleft
      exact hclosed.trans (changes_resetBatch _)

/-! ## Every operation -/

/-- The operations that are made of changes: those that set no selection and
take no position from the screen. -/
def Op.plain : Op → Bool
  | .setSelection _ _ => false
  | op => op.direct

theorem step_changes (hu : BreaksLines u) (hs : Sound u ta) {op : Op} (hplain : op.plain = true)
    (hdelete : op = .deleteSelection → ∀ range, ta.selectionRange = some (some range) →
      IsBoundary u ta.text.text range.start)
    (h : ta.step u op = some ta') : Changes u op.restores ta ta' := by
  cases op with
  | setTabWidth tabWidth =>
    obtain rfl := some.inj h
    exact Changes.of_record rfl rfl rfl fun _ hx => Or.inl hx
  | setText text => exact changes_setText hs h
  | insertStr text => exact changes_insertStr hs h
  | insertStrAt pos text => exact changes_insertStrAt hs h
  | replaceRange range text =>
    have h : ta.applyEditReplacement u range text (some .replace) = some ta' := h
    exact changes_applyEditReplacement hs h
  | setCursor pos =>
    obtain rfl := some.inj h
    exact changes_setCursor hs pos
  | moveCursorLeft => exact changes_applyEditCommand_map hu hs h
  | moveCursorRight => exact changes_applyEditCommand_map hu hs h
  | moveCursorVertically target => cases hplain
  | moveCursorToBeginningOfLine up visual =>
    cases up with
    | true => exact changes_applyEditCommand_map hu hs h
    | false => cases hplain
  | moveCursorToEndOfLine down visual =>
    cases down with
    | true => exact changes_applyEditCommand_map hu hs h
    | false => cases hplain
  | classified command => exact changes_applyClassifiedCommand hu hs h
  | deleteBackward n => exact changes_deleteGraphemes hu hs h
  | deleteForward n => exact changes_deleteGraphemes hu hs h
  | deleteBackwardWord => exact changes_applyEditCommand_map hu hs h
  | deleteBackwardUnixWord => exact changes_applyEditCommand_map hu hs h
  | deleteForwardWord => exact changes_applyEditCommand_map hu hs h
  | killToEndOfLine => exact changes_applyEditCommand_map hu hs h
  | killToBeginningOfLine => exact changes_applyEditCommand_map hu hs h
  | killCurrentLine => exact changes_killCurrentLine hs h
  | yank => exact changes_yank hs h
  | setSelection anchor head => cases hplain
  | clearSelection =>
    obtain rfl := some.inj h
    exact .single (.unselect ta)
  | deleteSelection => exact changes_deleteSelection hs (hdelete rfl) h
  | insertElement text kind =>
    have h : (ta.replaceRangeWithElement u ⟨ta.cursor, ta.cursor⟩ text kind).map (·.1) = some ta' := h
    exact changes_replaceRangeWithElement hs h
  | replaceRangeWithElement range text kind => exact changes_replaceRangeWithElement hs h
  | inlineElement id =>
    obtain rfl := some.inj h
    exact changes_inlineElement hs id
  | clearHistory =>
    obtain rfl := some.inj h
    exact changes_clearHistory ta
  | undo =>
    obtain rfl := some.inj h
    exact changes_undoStep ta
  | redo =>
    obtain rfl := some.inj h
    exact changes_redoStep ta
  | beginUndoGroup =>
    obtain rfl := some.inj h
    exact changes_beginUndoGroup ta
  | endUndoGroup =>
    obtain rfl := some.inj h
    exact changes_endUndoGroup ta
  | cancelUndoGroup =>
    obtain rfl := some.inj h
    exact changes_cancelUndoGroup ta

end TextArea

end GrokBuild.PromptEditor
