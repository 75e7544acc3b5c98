import GrokBuild.Lib.Guided
import GrokBuild.PromptEditor.Changes

/-!
# The cursor and the elements

Where the cursor may come to rest. Every position an operation aims at is meant
to be outside the elements, and the cursor is then snapped to the nearest
cluster boundary, which can be beyond the border of an element only when a
cluster crosses that border. A few mouse paths aim at the last character of a
word or a line, or at the start of a wrapped line, and these can be inside.
-/

namespace GrokBuild.PromptEditor

open TextLines Str ByteText Option

/-! ## Snapping -/

/-- No boundary is strictly between a position and where it is snapped to. -/
def Snaps (u : Unicode) (text : Text) (p cursor : Nat) : Prop :=
  ∀ b, IsBoundary u text b → (p ≤ b → cursor ≤ b) ∧ (b ≤ p → b ≤ cursor)

theorem Snaps.refl (u : Unicode) (text : Text) (p : Nat) : Snaps u text p p :=
  fun _ _ => ⟨id, id⟩

theorem snaps_ceilGraphemeBoundary (u : Unicode) (text : Text) (p : Nat) :
    Snaps u text p (ceilGraphemeBoundary u text p) := by
  obtain ⟨-, hle, hleast⟩ := ceilGraphemeBoundary_spec u text p
  intro b hb
  have hlen := hb.le_byteLen
  exact ⟨hleast b hb, by omega⟩

theorem snaps_normalizeExternalCursor (u : Unicode) (text : Text) (p : Nat) :
    Snaps u text p (normalizeExternalCursor u text p) := by
  obtain ⟨-, hfloorLe, hgreatest⟩ := floorGraphemeBoundary_spec u text (min p (byteLen text))
  obtain ⟨-, hceilLe, hleast⟩ := ceilGraphemeBoundary_spec u text (min p (byteLen text))
  intro b hb
  have hlen := hb.le_byteLen
  unfold normalizeExternalCursor
  simp only
  split
  · exact ⟨by omega, fun h => hgreatest b hb (by omega)⟩
  · exact ⟨fun h => hleast b hb (by omega), by omega⟩

theorem Snaps.eq_of_boundary {u : Unicode} {text : Text} {p cursor : Nat} (h : Snaps u text p cursor)
    (hp : IsBoundary u text p) : cursor = p :=
  le_antisymm ((h p hp).1 le_rfl) ((h p hp).2 le_rfl)

namespace TextArea

variable {u : Unicode} {restores : Bool} {ta ta' : TextArea} {plan : EditPlan}

/-- The cursor is on a boundary, snapped from a position outside the elements. -/
structure Rests (u : Unicode) (text : Text) (elements : List TextElement) (cursor : Nat) : Prop where
  boundary : IsBoundary u text cursor
  aimed : ∃ p, Outside elements p ∧ Snaps u text p cursor

/-- Unless a cluster crosses a border of an element, the cursor is not inside it. -/
theorem Rests.not_inside {text : Text} {elements : List TextElement} {cursor : Nat}
    (h : Rests u text elements cursor) {e : TextElement} (he : e ∈ elements)
    (hstart : IsBoundary u text e.range.start) (hstop : IsBoundary u text e.range.stop) :
    ¬ Span.Inside cursor e.range := by
  obtain ⟨p, hout, hsnap⟩ := h.aimed
  intro hin
  have hbefore := (hsnap e.range.start hstart).1
  have hafter := (hsnap e.range.stop hstop).2
  have hp := hout e he
  simp only [Span.Inside] at hin hp
  omega

theorem Rests.sublist {text : Text} {elements fewer : List TextElement} {cursor : Nat}
    (h : Rests u text elements cursor) (hsub : fewer.Sublist elements) :
    Rests u text fewer cursor := by
  obtain ⟨p, hout, hsnap⟩ := h.aimed
  exact ⟨h.boundary, p, fun e he => hout e (hsub.subset he), hsnap⟩

/-- The cursor rests, and did in every snapshot of the history. -/
structure Steady (u : Unicode) (ta : TextArea) : Prop where
  now : Rests u ta.text.text ta.elements ta.cursor
  history : ∀ x ∈ ta.undo.entries, Rests u x.text x.elements x.cursor

theorem Steady.of_entries (h : Steady u ta)
    (hnow : Rests u ta'.text.text ta'.elements ta'.cursor)
    (hentries : ∀ x ∈ ta'.undo.entries, x ∈ ta.undo.entries ∨ x = ta.snapshot) : Steady u ta' := by
  refine ⟨hnow, fun x hx => ?_⟩
  rcases hentries x hx with hx | rfl
  · exact h.history x hx
  · exact h.now

theorem rests_setCursorInner {p : Nat} (hout : Outside ta.elements p) :
    Rests u (ta.setCursorInner u p).text.text (ta.setCursorInner u p).elements
      (ta.setCursorInner u p).cursor := by
  have hcursor : (ta.setCursorInner u p).cursor = normalizeExternalCursor u ta.text.text p :=
    (EditBuffer.ite_advanceGeneration _ _).2
  have htext : (ta.setCursorInner u p).text.text = ta.text.text :=
    (EditBuffer.ite_advanceGeneration _ _).1
  rw [hcursor, htext]
  exact ⟨isBoundary_normalizeExternalCursor u ta.text.text p, p, hout,
    snaps_normalizeExternalCursor u ta.text.text p⟩

theorem Steady.setCursorInner (h : Steady u ta) {p : Nat} (hout : Outside ta.elements p) :
    Steady u (ta.setCursorInner u p) :=
  h.of_entries (rests_setCursorInner hout) fun _ hx => Or.inl hx

theorem snaps_of_applyValidatedPlan {b b' : EditBuffer} {outcome : EditOutcome}
    (h : b.applyValidatedPlan u plan = some (b', outcome)) :
    Snaps u b'.text plan.cursorByte b'.cursorByte := by
  simp only [EditBuffer.applyValidatedPlan, bind_eq_bind] at h
  split at h
  all_goals
    obtain ⟨text, -, hedited⟩ := bind_eq_some_iff.mp h
    obtain ⟨hb, -⟩ := Prod.mk.inj (some.inj hedited)
    rw [← hb, (EditBuffer.ite_advanceGeneration _ _).1, (EditBuffer.ite_advanceGeneration _ _).2]
    cases plan.cursorAffinity with
    | exact => exact Snaps.refl u text plan.cursorByte
    | right => exact snaps_ceilGraphemeBoundary u text plan.cursorByte

theorem applyValidatedEditPlan_buffer {kind : Option MutationKind} {outcome : EditOutcome}
    (h : ta.applyValidatedEditPlan u plan kind = some (ta', outcome)) :
    ta.text.applyValidatedPlan u plan = some (ta'.text, outcome) ∧ ta'.undo = ta.undo := by
  simp only [applyValidatedEditPlan, bind_eq_bind, bind_eq_some_iff] at h
  obtain ⟨⟨text, o⟩, happly, hrest⟩ := h
  rw [happly]
  simp only at hrest
  split at hrest
  · obtain ⟨rfl, rfl⟩ := Prod.mk.inj (some.inj hrest)
    exact ⟨rfl, rfl⟩
  · obtain ⟨rfl, rfl⟩ := Prod.mk.inj (some.inj hrest)
    exact ⟨rfl, rfl⟩

/-- Every change leaves the cursor at rest. -/
theorem steady_of_change (h : Change u restores ta ta') (hta : Steady u ta) : Steady u ta' := by
  cases h with
  | record htext helements hselection hhistory =>
    refine hta.of_entries ?_ hhistory
    rw [cursor, htext, helements]
    exact hta.now
  | unselect => exact ⟨hta.now, hta.history⟩
  | edit hsound hvalid hlands hok =>
    obtain ⟨happly, hundo⟩ := applyValidatedEditPlan_buffer hok
    refine hta.of_entries ?_ fun x hx => Or.inl (hundo ▸ hx)
    exact ⟨hvalid.boundary happly, _, hlands, snaps_of_applyValidatedPlan happly⟩
  | move p hout => exact hta.setCursorInner hout
  | drop hsub => exact ⟨hta.now.sublist hsub, hta.history⟩
  | add range kind hsound =>
    exact hta.of_entries (rests_setCursorInner (outside_clamp hsound _)) fun _ hx => Or.inl hx
  | replace hcursor =>
    refine ⟨⟨hcursor, _, ?_, Snaps.refl u _ _⟩, hta.history⟩
    intro e he
    cases he
  | restore hrestores entry hentry undo hundo =>
    have hrests := hta.history _ hentry
    have hsame := (snaps_normalizeExternalCursor u _ _).eq_of_boundary hrests.boundary
    refine hta.of_entries ?_ hundo
    simp only [restore, EditBuffer.fromParts, cursor, hsame]
    exact hrests

theorem steady_of_changes (h : Changes u restores ta ta') (hta : Steady u ta) : Steady u ta' :=
  h.keeps (fun _ _ => steady_of_change) hta

theorem steady_new (u : Unicode) (identity : BufferIdentity) : Steady u (new identity) := by
  refine ⟨⟨isBoundary_byteLen [], 0, ?_, Snaps.refl u [] 0⟩, ?_⟩
  · intro e he
    cases he
  · intro x hx
    simp [new, UndoState.default, UndoState.entries] at hx

/-! ## Positions from the screen -/

/-- A position that the pointer or a column leads to: outside the elements, and an
end of a non-empty element when it hit one. -/
def Aimed (ta : TextArea) (pos : Nat) (hit : Bool) : Prop :=
  Outside ta.elements pos ∧ (hit = true → ∃ e ∈ ta.elements, e.range.start < e.range.stop ∧
    (pos = e.range.start ∨ pos = e.range.stop))

theorem aimed_clamp (hs : Sound u ta) (pos : Nat) :
    Aimed ta (ta.clampPosToNearestBoundary pos) false :=
  ⟨outside_clamp hs pos, fun h => by cases h⟩

theorem aimed_end (hs : Sound u ta) {e : TextElement} (he : e ∈ ta.elements)
    (hne : e.range.start < e.range.stop) :
    Aimed ta e.range.start true ∧ Aimed ta e.range.stop true := by
  have hends := outside_ends hs.whole he
  exact ⟨⟨hends.1, fun _ => ⟨e, he, hne, Or.inl rfl⟩⟩, ⟨hends.2, fun _ => ⟨e, he, hne, Or.inr rfl⟩⟩⟩

variable {pos : Nat}

theorem elementAt_eq_some {e : TextElement} (h : ta.elementAt pos = some e) :
    e ∈ ta.elements ∧ e.range.start ≤ pos ∧ pos < e.range.stop :=
  ⟨List.mem_of_find?_eq_some h, by simpa using List.find?_some h⟩

variable {hit : Bool}

theorem displayColLoop_aimed (hs : Sound u ta) (lay : Layout)
    {lineEnd targetCol fuel start width : Nat}
    (h : ta.displayColLoop u lay lineEnd targetCol fuel start width = some (pos, hit)) :
    Aimed ta pos hit := by
  have hclamp : ∀ p, (pos, hit) = (ta.clampPosToNearestBoundary p, false) → Aimed ta pos hit := by
    intro p heq
    obtain ⟨rfl, rfl⟩ := Prod.mk.inj heq
    exact aimed_clamp hs p
  induction fuel generalizing start width with
  | zero => exact hclamp lineEnd (some.inj h).symm
  | succ fuel ih =>
    rw [displayColLoop] at h
    split at h
    · cases helem : ta.elementAt start with
      | some elem =>
        obtain ⟨hmem, hle, hlt⟩ := elementAt_eq_some helem
        obtain ⟨hatStart, hatStop⟩ := aimed_end hs hmem (hle.trans_lt hlt)
        rw [helem] at h
        simp only at h
        split at h
        · -- whichever way the width of the element is found
          split at h
          all_goals
            obtain ⟨elemWidth, -, h⟩ := bind_eq_some_iff.mp h
            split at h
            · obtain ⟨rfl, rfl⟩ := Prod.mk.inj (some.inj h)
              split
              · exact hatStart
              · exact hatStop
            · exact ih h
        · obtain ⟨partialWidth, -, h⟩ := bind_eq_some_iff.mp h
          split at h
          · obtain ⟨rfl, rfl⟩ := Prod.mk.inj (some.inj h)
            exact hatStop
          · exact ih h
      | none =>
        rw [helem] at h
        obtain ⟨rest, -, h⟩ := bind_eq_some_iff.mp h
        cases hg : u.graphemes rest with
        | nil =>
          rw [hg] at h
          exact hclamp lineEnd (some.inj h).symm
        | cons grapheme more =>
          rw [hg] at h
          simp only at h
          split at h
          · exact hclamp start (some.inj h).symm
          · exact ih h
    · exact hclamp lineEnd (some.inj h).symm

theorem outside_zero (elements : List TextElement) : Outside elements 0 :=
  fun _ _ hin => Nat.not_lt_zero _ hin.1

theorem outside_byteLen (hs : Sound u ta) : Outside ta.elements (byteLen ta.text.text) := by
  intro e he hin
  have hle := (hs.whole.inside e he).2
  simp only [Span.Inside] at hin
  omega

variable {col : Nat}

theorem bufferPosOnLine_aimed (hs : Sound u ta) (lay : Layout) {row : Nat}
    (h : ta.bufferPosOnLine u lay row col = some (pos, hit)) : Aimed ta pos hit := by
  rw [bufferPosOnLine] at h
  split at h
  · obtain ⟨rfl, rfl⟩ := Prod.mk.inj (some.inj h)
    exact ⟨outside_byteLen hs, fun h => by cases h⟩
  · exact displayColLoop_aimed hs lay h

theorem bufferPosAtScreenEx_aimed (hs : Sound u ta) (lay : Layout) {row : Nat}
    (h : ta.bufferPosAtScreenEx u lay col row = some (some (pos, hit))) : Aimed ta pos hit := by
  rw [bufferPosAtScreenEx] at h
  split at h
  · cases h
  · obtain ⟨found, hfound, heq⟩ := map_eq_some_iff.mp h
    obtain rfl := some.inj heq
    exact bufferPosOnLine_aimed hs lay hfound

/-- Only the cursor moves, to a position outside the elements. -/
def Moves (u : Unicode) (ta ta' : TextArea) : Prop :=
  ∃ p, Outside ta.elements p ∧ ta' = ta.setCursorInner u p

theorem Moves.steady (h : Moves u ta ta') (hta : Steady u ta) : Steady u ta' := by
  obtain ⟨p, hout, rfl⟩ := h
  exact hta.setCursorInner hout

theorem Moves.sound (h : Moves u ta ta') (hs : Sound u ta) : Sound u ta' := by
  obtain ⟨p, -, rfl⟩ := h
  exact (setCursorInner_sound hs p).1

theorem moves_moveToDisplayColOnLine (hs : Sound u ta) (lay : Layout) {start stop : Nat}
    (h : ta.moveToDisplayColOnLine u lay start stop col = some ta') : Moves u ta ta' := by
  obtain ⟨⟨pos, hit⟩, hpos, hrest⟩ := bind_eq_some_iff.mp h
  exact ⟨pos, (displayColLoop_aimed hs lay hpos).1, (some.inj hrest).symm⟩

theorem moves_moveCursorUp (hs : Sound u ta) (lay : Layout) (h : ta.moveCursorUp u lay = some ta') :
    Moves u ta ta' := by
  have htop : some (ta.setCursorInner u 0) = some ta' → Moves u ta ta' :=
    fun heq => ⟨0, outside_zero ta.elements, (some.inj heq).symm⟩
  rw [moveCursorUp] at h
  split at h
  · obtain ⟨current, -, h⟩ := bind_eq_some_iff.mp h
    obtain ⟨col, -, h⟩ := bind_eq_some_iff.mp h
    split at h
    · obtain ⟨previous, -, h⟩ := bind_eq_some_iff.mp h
      exact moves_moveToDisplayColOnLine hs lay h
    · exact htop h
  · split at h
    · obtain ⟨col, -, h⟩ := bind_eq_some_iff.mp h
      exact moves_moveToDisplayColOnLine hs lay h
    · exact htop h

theorem moves_moveCursorDown (hs : Sound u ta) (lay : Layout)
    (h : ta.moveCursorDown u lay = some ta') : Moves u ta ta' := by
  have hbottom : some (ta.setCursorInner u (byteLen ta.text.text)) = some ta' → Moves u ta ta' :=
    fun heq => ⟨_, outside_byteLen hs, (some.inj heq).symm⟩
  rw [moveCursorDown] at h
  split at h
  · obtain ⟨current, -, h⟩ := bind_eq_some_iff.mp h
    obtain ⟨col, -, h⟩ := bind_eq_some_iff.mp h
    split at h
    · exact moves_moveToDisplayColOnLine hs lay h
    · exact hbottom h
  · obtain ⟨col, -, h⟩ := bind_eq_some_iff.mp h
    split at h
    · exact moves_moveToDisplayColOnLine hs lay h
    · exact hbottom h

theorem moves_setCursor (hs : Sound u ta) (pos : Nat) : Moves u ta (ta.setCursor u pos) :=
  ⟨_, outside_clamp hs _, rfl⟩

theorem moves_home (hs : Sound u ta) (lay : Layout) (h : ta.home u lay = some ta') :
    Moves u ta ta' := by
  obtain rfl := some.inj h
  exact moves_setCursor hs _

theorem moves_toEnd (hs : Sound u ta) (lay : Layout) (h : ta.toEnd u lay = some ta') :
    Moves u ta ta' := by
  obtain ⟨visual, -, h⟩ := bind_eq_some_iff.mp h
  obtain rfl := some.inj h
  exact moves_setCursor hs _

end TextArea

end GrokBuild.PromptEditor
