import GrokBuild.PromptEditor.Pointer

/-!
# The selection and the characters

The ends of a selection are byte offsets. Every edit shifts them with the bytes
they stand between, so they stay between characters (`held_of_change`). A
snapshot that is brought back leaves them where they are, and so does an edit
between a press and the drag that goes on from it: these two need that the old
offset is between characters of the new text as well.
-/

namespace GrokBuild.PromptEditor

open TextLines Str ByteText List Option

/-- Clipped to the text, the position is between characters. -/
def OnChar (text : Text) (p : Nat) : Prop := isCharBoundary text (min p (byteLen text)) = true

variable {text : Text} {p : Nat}

theorem onChar_of_boundary (h : isCharBoundary text p = true) : OnChar text p := by
  rw [OnChar, min_eq_left (le_byteLen_of_isCharBoundary h)]
  exact h

theorem onChar_of_le (h : byteLen text ≤ p) : OnChar text p := by
  rw [OnChar, min_eq_right h]
  exact isCharBoundary_byteLen text

theorem OnChar.boundary (h : OnChar text p) (hle : p ≤ byteLen text) :
    isCharBoundary text p = true := by
  rw [OnChar, min_eq_left hle] at h
  exact h

theorem onChar_min {q : Nat} (hp : OnChar text p) (hq : OnChar text q) : OnChar text (min p q) := by
  rcases min_choice p q with h | h
  · rwa [h]
  · rwa [h]

theorem onChar_max {q : Nat} (hp : OnChar text p) (hq : OnChar text q) : OnChar text (max p q) := by
  rcases max_choice p q with h | h
  · rwa [h]
  · rwa [h]

/-- Both ends of the selection are between characters. -/
def Held (text : Text) (selection : Option Selection) : Prop :=
  ∀ sel, selection = some sel → OnChar text sel.anchor ∧ OnChar text sel.head

theorem held_none (text : Text) : Held text none := by
  intro sel h
  cases h

theorem held_some {sel : Selection} (ha : OnChar text sel.anchor) (hh : OnChar text sel.head) :
    Held text (some sel) := by
  intro sel' h
  obtain rfl := some.inj h
  exact ⟨ha, hh⟩

namespace TextArea

variable {u : Unicode} {ta ta' : TextArea} {plan : EditPlan}

/-! ## The selected range -/

theorem boundary_of_selectionRange (hs : Sound u ta) (h : Held ta.text.text ta.selection)
    {range : ByteRange} (hrange : ta.selectionRange = some (some range)) :
    isCharBoundary ta.text.text range.start = true ∧ isCharBoundary ta.text.text range.stop = true := by
  rw [selectionRange] at hrange
  split at hrange
  · cases hrange
  · rename_i sel hsel
    obtain ⟨hanchor, hhead⟩ := h sel hsel
    split at hrange
    · cases hrange
    · obtain ⟨e, he, hclamp⟩ := bind_eq_some_iff.mp hrange
      have hends : ∀ r ∈ ta.elementRanges, OnChar ta.text.text r.start ∧ OnChar ta.text.text r.stop := by
        intro r hr
        obtain ⟨x, hx, rfl⟩ := List.mem_map.mp hr
        have hx := hs.whole.onChars x hx
        exact ⟨onChar_of_boundary hx.1, onChar_of_boundary hx.2⟩
      obtain ⟨hgrown, -, -⟩ :=
        Span.expand_spec hends ⟨onChar_min hanchor hhead, onChar_max hanchor hhead⟩ he
      simp only at hclamp
      split at hclamp
      · cases hclamp
      · obtain rfl := some.inj (some.inj hclamp)
        exact hgrown

/-- No slice of a selection that is held panics. -/
theorem selectedText_ne_none (hs : Sound u ta) (h : Held ta.text.text ta.selection) :
    ta.selectedText ≠ none := by
  obtain ⟨r, hr⟩ := exists_selectionRange ta
  rw [selectedText, hr]
  cases r with
  | none =>
    intro hnone
    cases hnone
  | some range =>
    obtain ⟨hstart, hstop⟩ := boundary_of_selectionRange hs h hr
    have hlt := (outside_selectionRange hs hr).1
    obtain ⟨m, hm⟩ := exists_slice hlt.le hstart hstop
    intro hnone
    simp [hm] at hnone

/-! ## Shifting -/

theorem onChar_adjustPositionAfterEdit {pre removed post replacement : Text} {p : Nat}
    {range : ByteRange} (hstart : byteLen pre = range.start)
    (hstop : byteLen pre + byteLen removed = range.stop) (h : OnChar (pre ++ removed ++ post) p) :
    OnChar (pre ++ replacement ++ post) (adjustPositionAfterEdit p range (byteLen replacement)) := by
  have hlen : byteLen (pre ++ removed ++ post) = byteLen pre + byteLen removed + byteLen post := by
    rw [byteLen_append, byteLen_append]
  have hlen' : byteLen (pre ++ replacement ++ post) =
      byteLen pre + byteLen replacement + byteLen post := by
    rw [byteLen_append, byteLen_append]
  rw [adjustPositionAfterEdit]
  split_ifs with hbefore hinside
  · -- before the edit
    obtain ⟨a, b, heq, rfl⟩ := isCharBoundary_iff.mp (h.boundary (by omega))
    rw [append_assoc] at heq
    obtain ⟨m, rfl, -⟩ := prefix_of_byteLen_le heq.symm (by omega)
    apply onChar_of_boundary
    rw [append_assoc, append_assoc]
    exact isCharBoundary_append a _
  · apply onChar_of_boundary
    rw [← hstart, ← byteLen_append]
    exact isCharBoundary_append (pre ++ replacement) post
  · rcases le_or_gt p (byteLen (pre ++ removed ++ post)) with hle | hgt
    · -- behind the edit
      obtain ⟨a, b, heq, rfl⟩ := isCharBoundary_iff.mp (h.boundary hle)
      obtain ⟨m, rfl, rfl⟩ := prefix_of_byteLen_le heq (by rw [byteLen_append]; omega)
      apply onChar_of_boundary
      refine isCharBoundary_iff.mpr ⟨pre ++ replacement ++ m, b, by simp, ?_⟩
      simp only [byteLen_append]
      omega
    · -- behind the text
      apply onChar_of_le
      omega

theorem applyValidatedEditPlan_selection {kind : Option MutationKind} {outcome : EditOutcome}
    (h : ta.applyValidatedEditPlan u plan kind = some (ta', outcome)) :
    ta'.selection = if isSemanticEdit plan then
      ta.selection.bind (adjustSelection plan.replacedByteRange (byteLen plan.replacement))
      else ta.selection := by
  obtain ⟨⟨text, o⟩, happly, hrest⟩ := bind_eq_some_iff.mp h
  simp only at hrest
  split at hrest
  · rename_i hsem
    obtain ⟨rfl, rfl⟩ := Prod.mk.inj (some.inj hrest)
    rw [if_pos hsem]
  · rename_i hsem
    obtain ⟨rfl, rfl⟩ := Prod.mk.inj (some.inj hrest)
    rw [if_neg hsem]

theorem held_of_applied (hvalid : EditBuffer.Checked u ta.text plan) {kind : Option MutationKind}
    {outcome : EditOutcome} (hok : ta.applyValidatedEditPlan u plan kind = some (ta', outcome))
    (h : Held ta.text.text ta.selection) : Held ta'.text.text ta'.selection := by
  obtain ⟨c, o, hc, happ⟩ := applyValidatedEditPlan_applied hvalid kind
  obtain rfl : c = ta' := (Prod.mk.inj (some.inj (hc.symm.trans hok))).1
  obtain ⟨pre, post, htext, hstart, hstop, htext'⟩ := happ.text
  rw [applyValidatedEditPlan_selection hok]
  rw [htext] at h
  rw [htext']
  split
  · intro sel hsel
    obtain ⟨old, hold, hadjust⟩ := bind_eq_some_iff.mp hsel
    obtain ⟨hanchor, hhead⟩ := h old hold
    rw [adjustSelection] at hadjust
    simp only at hadjust
    split at hadjust
    · cases hadjust
    · obtain rfl := some.inj hadjust
      exact ⟨onChar_adjustPositionAfterEdit hstart hstop hanchor,
        onChar_adjustPositionAfterEdit hstart hstop hhead⟩
  · rename_i hsem
    have hsame : plan.removedText = plan.replacement := by
      simp only [isSemanticEdit, Bool.or_eq_true, not_or, bne_iff_ne, ne_eq, Decidable.not_not] at hsem
      exact hsem.1
    rw [hsame] at h
    exact h

theorem held_of_change (h : Change u false ta ta') (hta : Held ta.text.text ta.selection) :
    Held ta'.text.text ta'.selection := by
  cases h with
  | record htext helements hselection hhistory =>
    rw [htext, hselection]
    exact hta
  | unselect => exact held_none _
  | edit hsound hvalid hlands hok =>
    exact held_of_applied (EditBuffer.validatePlan_eq_ok.mp hvalid.accepted) hok hta
  | move p hout =>
    have htext : (ta.setCursorInner u p).text.text = ta.text.text :=
      (EditBuffer.ite_advanceGeneration _ _).1
    rw [htext]
    exact hta
  | drop hsub => exact hta
  | add range kind hsound =>
    have htext : ((ta.addElement range kind).1.setCursor u range.stop).text.text = ta.text.text :=
      (EditBuffer.ite_advanceGeneration _ _).1
    rw [htext]
    exact hta
  | replace hcursor => exact held_none _
  | restore hrestores entry hentry undo hundo => cases hrestores

/-! ## Bringing a snapshot back -/

/-- The snapshot that an operation brings back. -/
def restored (ta : TextArea) : Op → Option UndoEntry
  | .undo => ta.undo.stack.getLast?
  | .redo => ta.undo.redo.getLast?
  | .cancelUndoGroup => if ta.undo.groupDepth = 0 then none else ta.undo.groupCheckpoint
  | _ => none

/-- A snapshot leaves the selection where it was. -/
theorem restored_spec {op : Op} (hop : op.restores = true) (h : ta.step u op = some ta') :
    ta'.selection = ta.selection ∧ (ta'.text.text = ta.text.text ∨
      ∃ entry, ta.restored op = some entry ∧ ta'.text.text = entry.text) := by
  cases op with
  | undo =>
    obtain rfl := some.inj h
    rw [undoStep, restored]
    cases ta.undo.stack.getLast? with
    | none => exact ⟨rfl, Or.inl rfl⟩
    | some entry => exact ⟨rfl, Or.inr ⟨entry, rfl, rfl⟩⟩
  | redo =>
    obtain rfl := some.inj h
    rw [redoStep, restored]
    cases ta.undo.redo.getLast? with
    | none => exact ⟨rfl, Or.inl rfl⟩
    | some entry => exact ⟨rfl, Or.inr ⟨entry, rfl, rfl⟩⟩
  | cancelUndoGroup =>
    obtain rfl := some.inj h
    rw [cancelUndoGroup, restored]
    split
    · exact ⟨rfl, Or.inl rfl⟩
    · cases ta.undo.groupCheckpoint with
      | none => exact ⟨rfl, Or.inl rfl⟩
      | some entry => exact ⟨rfl, Or.inr ⟨entry, rfl, rfl⟩⟩
  | _ => cases hop

theorem held_deleteSelection (h : Held ta.text.text ta.selection)
    (hok : (ta.deleteSelection u).map (·.1) = some ta') : Held ta'.text.text ta'.selection := by
  obtain ⟨⟨edited, deleted⟩, hdeleted, rfl⟩ := map_eq_some_iff.mp hok
  obtain ⟨selected, -, hok⟩ := bind_eq_some_iff.mp hdeleted
  cases selected with
  | none =>
    obtain ⟨rfl, -⟩ := Prod.mk.inj (some.inj hok)
    exact h
  | some range =>
    obtain ⟨removed, -, hok⟩ := bind_eq_some_iff.mp hok
    obtain ⟨rfl, -⟩ := Prod.mk.inj (some.inj hok)
    exact held_none _

/-- The condition on an operation: a selection is set between characters, and a
snapshot is brought back only under a selection that its text holds too. -/
def Holds (ta : TextArea) (op : Op) : Prop :=
  (∀ anchor head, op = .setSelection anchor head →
    isCharBoundary ta.text.text anchor = true ∧ isCharBoundary ta.text.text head = true) ∧
  ∀ entry, ta.restored op = some entry → Held entry.text ta.selection

theorem held_step (hu : BreaksLines u) (hs : Sound u ta) (h : Held ta.text.text ta.selection) {op : Op}
    (hdirect : op.direct = true) (hholds : Holds ta op) (hok : ta.step u op = some ta') :
    Held ta'.text.text ta'.selection := by
  by_cases hdelete : op = .deleteSelection
  · subst hdelete
    exact held_deleteSelection h hok
  by_cases hrestores : op.restores = true
  · obtain ⟨hselection, htext | ⟨entry, hentry, htext⟩⟩ := restored_spec hrestores hok
    · rw [htext, hselection]
      exact h
    · rw [htext, hselection]
      exact hholds.2 entry hentry
  by_cases hplain : op.plain = true
  · have hchanges := step_changes hu hs hplain (fun hop => absurd hop hdelete) hok
    rw [Bool.not_eq_true] at hrestores
    rw [hrestores] at hchanges
    exact hchanges.keeps (P := fun ta => Held ta.text.text ta.selection)
      (fun _ _ => held_of_change) h
  · cases op with
    | setSelection anchor head =>
      obtain rfl := some.inj hok
      obtain ⟨hanchor, hhead⟩ := hholds.1 anchor head rfl
      exact held_some (onChar_of_boundary hanchor) (onChar_of_boundary hhead)
    | _ => exact absurd hdirect hplain

/-! ## Positions from the screen -/

/-- Every line runs from one character border to another, up to the end of the text. -/
def Wraps (lay : Layout) (ta : TextArea) : Prop :=
  ∀ line ∈ lay.lines, OnChar ta.text.text line.start ∧ OnChar ta.text.text line.stop

theorem onChar_zero (text : Text) : OnChar text 0 := onChar_of_boundary (isCharBoundary_zero text)

theorem onChar_byteLen (text : Text) : OnChar text (byteLen text) := onChar_of_le le_rfl

theorem onChar_element (hs : Sound u ta) {e : TextElement} (he : e ∈ ta.elements) :
    OnChar ta.text.text e.range.start ∧ OnChar ta.text.text e.range.stop := by
  have hchars := hs.whole.onChars e he
  exact ⟨onChar_of_boundary hchars.1, onChar_of_boundary hchars.2⟩

variable {pos : Nat}

theorem onChar_clamp (hs : Sound u ta) (h : OnChar ta.text.text pos) :
    OnChar ta.text.text (ta.clampPosToNearestBoundary pos) := by
  rw [clampPosToNearestBoundary]
  cases hf : ta.elements.find? fun e => decide (Span.Inside (min pos (byteLen ta.text.text)) e.range) with
  | none => exact onChar_min h (onChar_byteLen _)
  | some e =>
    obtain ⟨hstart, hstop⟩ := onChar_element hs (mem_of_find?_eq_some hf)
    simp only
    split
    · exact hstart
    · exact hstop

/-- A grapheme cluster is a piece of the text. -/
theorem onChar_grapheme {start stop : Nat} {rest grapheme : Text} {more : List Text}
    (hrest : slice text start stop = some rest) (hg : u.graphemes rest = grapheme :: more) :
    OnChar text (start + byteLen grapheme) := by
  obtain ⟨pre, post, htext, rfl, -⟩ := slice_eq_some.mp hrest
  have hflat := u.flatten_graphemes rest
  rw [hg, flatten_cons] at hflat
  apply onChar_of_boundary
  rw [htext, ← hflat, ← byteLen_append]
  exact isCharBoundary_iff.mpr ⟨pre ++ grapheme, more.flatten ++ post, by simp, rfl⟩

theorem onChar_displayColLoop (hs : Sound u ta) (lay : Layout)
    {lineEnd targetCol fuel start width : Nat} {hit : Bool} (hend : OnChar ta.text.text lineEnd)
    (hstart : OnChar ta.text.text start)
    (h : ta.displayColLoop u lay lineEnd targetCol fuel start width = some (pos, hit)) :
    OnChar ta.text.text pos := by
  have hclamp : ∀ p, OnChar ta.text.text p →
      (pos, hit) = (ta.clampPosToNearestBoundary p, false) → OnChar ta.text.text pos := by
    intro p hp heq
    obtain ⟨rfl, -⟩ := Prod.mk.inj heq
    exact onChar_clamp hs hp
  induction fuel generalizing start width with
  | zero => exact hclamp lineEnd hend (some.inj h).symm
  | succ fuel ih =>
    rw [displayColLoop] at h
    split at h
    · cases helem : ta.elementAt start with
      | some elem =>
        obtain ⟨hatStart, hatStop⟩ := onChar_element hs (elementAt_eq_some helem).1
        have hnext := onChar_min hatStop hend
        rw [helem] at h
        simp only at h
        split at h
        · -- whichever way the width of the element is found
          split at h
          all_goals
            obtain ⟨elemWidth, -, h⟩ := bind_eq_some_iff.mp h
            split at h
            · obtain ⟨rfl, -⟩ := Prod.mk.inj (some.inj h)
              split
              · exact hatStart
              · exact hatStop
            · exact ih hnext h
        · obtain ⟨partialWidth, -, h⟩ := bind_eq_some_iff.mp h
          split at h
          · obtain ⟨rfl, -⟩ := Prod.mk.inj (some.inj h)
            exact hatStop
          · exact ih hnext h
      | none =>
        rw [helem] at h
        obtain ⟨rest, hrest, h⟩ := bind_eq_some_iff.mp h
        cases hg : u.graphemes rest with
        | nil =>
          rw [hg] at h
          exact hclamp lineEnd hend (some.inj h).symm
        | cons grapheme more =>
          rw [hg] at h
          simp only at h
          split at h
          · exact hclamp start hstart (some.inj h).symm
          · exact ih (onChar_grapheme hrest hg) h
    · exact hclamp lineEnd hend (some.inj h).symm

theorem onChar_bufferPosOnLine (hs : Sound u ta) {lay : Layout} (hwraps : Wraps lay ta)
    {row col : Nat} {hit : Bool} (h : ta.bufferPosOnLine u lay row col = some (pos, hit)) :
    OnChar ta.text.text pos := by
  rw [bufferPosOnLine] at h
  split at h
  · obtain ⟨rfl, -⟩ := Prod.mk.inj (some.inj h)
    exact onChar_byteLen _
  · rename_i line hline
    obtain ⟨hstart, hstop⟩ := hwraps line (mem_of_getElem? hline)
    exact onChar_displayColLoop hs lay (onChar_min hstop (onChar_byteLen _)) hstart h

theorem onChar_behind (pre post : Text) {c : Char} (hc : c.utf8Size = 1) :
    OnChar (pre ++ c :: post) (byteLen pre + 1) :=
  onChar_of_boundary (isCharBoundary_iff.mpr ⟨pre ++ [c], post, by simp, by simp [hc]⟩)

theorem onChar_of_lineFeed {ranges : List ByteRange} {p : Nat}
    (h : isLineFeed ta.text.text ranges p = true) : OnChar ta.text.text (p + 1) := by
  obtain ⟨⟨pre, post, htext, rfl⟩, -⟩ := isLineFeed_spec h
  rw [htext]
  exact onChar_behind pre post (by decide)

theorem onChar_nextLogicalNewline (ta : TextArea) (start : Nat) :
    OnChar ta.text.text (ta.nextLogicalNewline start) ∧
      OnChar ta.text.text (ta.nextLogicalNewline start + 1) := by
  rw [nextLogicalNewline]
  cases hfind : (List.range' start (byteLen ta.text.text - start)).find?
      (isLineFeed ta.text.text ta.elementRanges) with
  | none => exact ⟨onChar_byteLen _, onChar_of_le (Nat.le_succ _)⟩
  | some p =>
    have hfeed := find?_some hfind
    obtain ⟨⟨pre, post, htext, hpre⟩, -⟩ := isLineFeed_spec hfeed
    exact ⟨onChar_of_boundary (isCharBoundary_iff.mpr ⟨pre, _, htext, hpre⟩),
      onChar_of_lineFeed hfeed⟩

theorem onChar_skipBlanks (pos : Nat) (h : OnChar text p) : OnChar text (skipBlanks text p pos) := by
  rw [skipBlanks]
  generalize pos - p = n
  induction n generalizing p with
  | zero => exact h
  | succ n ih =>
    rw [range'_succ, takeWhile_cons]
    split
    · rename_i hblank
      rw [length_cons, ← Nat.add_assoc, Nat.add_right_comm]
      refine ih ?_
      rcases of_decide_eq_true hblank with hbyte | hbyte
      · obtain ⟨pre, post, rfl, rfl⟩ := (byteAt_eq_ascii (c := ' ') (by decide)).mp hbyte
        exact onChar_behind pre post (by decide)
      · obtain ⟨pre, post, rfl, rfl⟩ := (byteAt_eq_ascii (c := '\t') (by decide)).mp hbyte
        exact onChar_behind pre post (by decide)
    · exact h

/-- A line is filled from character border to character border. -/
structure VisualLine.OnChars (line : VisualLine) (text : Text) : Prop where
  start : OnChar text line.start
  pos : OnChar text line.pos
  lastBreak : ∀ p, line.lastBreak = some p → OnChar text p

theorem VisualLine.OnChars.breakAt {line : VisualLine} (h : line.OnChars text) :
    OnChar text line.breakAt := by
  rw [VisualLine.breakAt]
  cases hlast : line.lastBreak with
  | none => exact h.pos
  | some p => exact h.lastBreak p hlast

theorem onChars_wrapRound (hs : Sound u ta) {lay : Layout} {stop : Nat} {line next : VisualLine}
    {full : Bool} (hstop : OnChar ta.text.text stop) (hline : line.OnChars ta.text.text)
    (h : ta.wrapRound u lay stop line = some (some (full, next))) : next.OnChars ta.text.text := by
  have hnext := onChar_skipBlanks line.pos hline.breakAt
  simp only [wrapRound] at h
  split at h
  · split at h
    · rename_i elem hfind
      have hend := onChar_min (onChar_element hs (mem_of_find?_eq_some hfind)).2 hstop
      obtain ⟨elemWidth, -, h⟩ := bind_eq_some_iff.mp h
      split at h
      · cases h
        exact ⟨hnext, hnext, fun _ hp => (by cases hp)⟩
      · cases h
        exact ⟨hline.start, hend, fun p hp => some.inj hp ▸ hend⟩
    · obtain ⟨rest, hrest, h⟩ := bind_eq_some_iff.mp h
      split at h
      · cases h
      · rename_i grapheme more hg
        have hbehind := onChar_grapheme hrest hg
        split at h
        · split at h
          · cases h
            exact ⟨hnext, hbehind, fun _ hp => (by cases hp)⟩
          · obtain ⟨width, -, h⟩ := bind_eq_some_iff.mp h
            cases h
            exact ⟨hnext, hline.pos, fun _ hp => (by cases hp)⟩
        · split at h
          · cases h
            exact ⟨hline.start, hbehind, fun p hp => some.inj hp ▸ hbehind⟩
          · cases h
            exact ⟨hline.start, hbehind, hline.lastBreak⟩
  · cases h

theorem onChar_greedyWrapSegment (hs : Sound u ta) {lay : Layout} {stop fuel : Nat}
    {line : VisualLine} {lines : List ByteRange} (hstop : OnChar ta.text.text stop)
    (hline : line.OnChars ta.text.text)
    (h : ta.greedyWrapSegment u lay stop fuel line = some lines) :
    ∀ line ∈ lines, OnChar ta.text.text line.start ∧ OnChar ta.text.text line.stop := by
  induction fuel generalizing line lines with
  | zero => cases h
  | succ fuel ih =>
    obtain ⟨round, hround, h⟩ := bind_eq_some_iff.mp h
    split at h
    · obtain rfl := some.inj h
      exact forall_mem_singleton.mpr ⟨hline.start, hstop⟩
    · obtain ⟨rest, hrest, rfl⟩ := map_eq_some_iff.mp h
      exact forall_mem_cons.mpr ⟨⟨hline.start, hline.breakAt⟩,
        ih (onChars_wrapRound hs hstop hline hround) hrest⟩
    · exact ih (onChars_wrapRound hs hstop hline hround) h

theorem onChar_elementAwareWrapRanges (hs : Sound u ta) {lay : Layout} {fuel start : Nat}
    {lines : List ByteRange} (hstart : OnChar ta.text.text start)
    (h : ta.elementAwareWrapRanges u lay fuel start = some lines) :
    ∀ line ∈ lines, OnChar ta.text.text line.start ∧ OnChar ta.text.text line.stop := by
  induction fuel generalizing start lines with
  | zero => cases h
  | succ fuel ih =>
    obtain ⟨hstop, hnext⟩ := onChar_nextLogicalNewline ta start
    obtain ⟨segment, hsegment, h⟩ := bind_eq_some_iff.mp h
    have hlines : ∀ line ∈ segment,
        OnChar ta.text.text line.start ∧ OnChar ta.text.text line.stop := by
      split at hsegment
      · obtain rfl := some.inj hsegment
        exact forall_mem_singleton.mpr ⟨hstart, hstop⟩
      · exact onChar_greedyWrapSegment hs hstop ⟨hstart, hstart, fun _ hp => (by cases hp)⟩ hsegment
    split at h
    · exact some.inj h ▸ hlines
    · obtain ⟨rest, hrest, rfl⟩ := map_eq_some_iff.mp h
      exact forall_mem_append.mpr ⟨hlines, ih hnext hrest⟩

theorem onChar_beginningOfLine (ta : TextArea) (pos : Nat) :
    OnChar ta.text.text (ta.beginningOfLine pos) := by
  rw [beginningOfLine]
  split
  · rename_i i hfind
    exact onChar_of_lineFeed (find?_some hfind)
  · exact onChar_zero _

theorem onChar_lineStop (ta : TextArea) (pos : Nat) :
    OnChar ta.text.text (if ta.endOfLine pos < byteLen ta.text.text then ta.endOfLine pos + 1
      else ta.endOfLine pos) := by
  split
  · rename_i hlt
    rw [endOfLine] at hlt ⊢
    split at hlt
    · rename_i i hfind
      exact onChar_of_lineFeed (find?_some hfind)
    · exact absurd hlt (lt_irrefl _)
  · rename_i hge
    exact onChar_of_le (not_lt.mp hge)

theorem onChar_adjustPosOutOfElements (hs : Sound u ta) (h : OnChar ta.text.text pos)
    (preferStart : Bool) : OnChar ta.text.text (ta.adjustPosOutOfElements pos preferStart) := by
  rw [adjustPosOutOfElements]
  cases hf : ta.elements.find? fun e => decide (Span.Inside pos e.range) with
  | none => exact h
  | some e =>
    obtain ⟨hstart, hstop⟩ := onChar_element hs (mem_of_find?_eq_some hf)
    cases preferStart with
    | true => exact hstart
    | false => exact hstop

theorem onChar_wordStartAt (hs : Sound u ta) {start : Nat} (h : ta.wordStartAt u pos = some start) :
    OnChar ta.text.text start := by
  rw [wordStartAt] at h
  split at h
  · rename_i elem helem
    obtain rfl := some.inj h
    exact (onChar_element hs (elementAt_eq_some helem).1).1
  · obtain ⟨⟨before, after⟩, hsplit, h⟩ := bind_eq_some_iff.mp h
    obtain ⟨htext, -⟩ := splitAtByte_eq_some.mp hsplit
    simp only at h
    split at h
    · obtain rfl := some.inj h
      exact onChar_zero _
    · rename_i c hc
      obtain rfl := some.inj h
      apply onChar_adjustPosOutOfElements hs
      -- what is kept of the characters before the click is where the text begins
      have hsuffix := dropWhile_suffix (fun d => charClass u d == charClass u c) (l := before.reverse)
      obtain ⟨word, hword⟩ := hsuffix
      have hbefore : before = (before.reverse.dropWhile fun d => charClass u d == charClass u c).reverse
          ++ word.reverse := by
        rw [← reverse_append, hword, reverse_reverse]
      generalize (before.reverse.dropWhile fun d => charClass u d == charClass u c) = kept at hbefore ⊢
      apply onChar_of_boundary
      rw [htext, hbefore]
      exact isCharBoundary_iff.mpr ⟨kept.reverse, word.reverse ++ after, by simp, byteLen_reverse kept⟩

theorem onChar_wordEndAt (hs : Sound u ta) {stop : Nat} (h : ta.wordEndAt u pos = some stop) :
    OnChar ta.text.text stop := by
  rw [wordEndAt] at h
  split at h
  · rename_i elem helem
    obtain rfl := some.inj h
    exact (onChar_element hs (elementAt_eq_some helem).1).2
  · split at h
    · obtain ⟨⟨before, after⟩, hsplit, h⟩ := bind_eq_some_iff.mp h
      obtain ⟨c, -, h⟩ := bind_eq_some_iff.mp h
      obtain rfl := some.inj h
      obtain ⟨htext, rfl⟩ := splitAtByte_eq_some.mp hsplit
      apply onChar_adjustPosOutOfElements hs
      apply onChar_of_boundary
      rw [htext, ← byteLen_append]
      refine isCharBoundary_iff.mpr ⟨before ++ after.takeWhile fun d => charClass u d == charClass u c,
        after.dropWhile fun d => charClass u d == charClass u c, ?_, rfl⟩
      rw [append_assoc, takeWhile_append_dropWhile]
    · obtain rfl := some.inj h
      exact onChar_byteLen _

end TextArea

namespace Widget

open TextArea

variable {u : Unicode} {ta : TextArea} {w w' : Widget} {lay : Layout} {event : MouseEvent}

/-! ## Dragging -/

theorem onChar_posOnLine (hs : Sound u ta) (hwraps : Wraps lay ta) {line : ByteRange}
    (hline : line ∈ lay.lines) {column pos : Nat} (h : posOnLine u lay ta line column = some pos) :
    OnChar ta.text.text pos := by
  obtain ⟨hstart, hstop⟩ := hwraps line hline
  obtain ⟨⟨p, hit⟩, hp, hclamp⟩ := bind_eq_some_iff.mp h
  have hpos := onChar_displayColLoop hs lay (onChar_min hstop (onChar_byteLen _)) hstart hp
  simp only at hclamp
  rw [clampToLine] at hclamp
  split at hclamp
  · rename_i hlt
    obtain ⟨last, hlast, rfl⟩ := map_eq_some_iff.mp hclamp
    obtain ⟨-, d, hd⟩ := lastCharStart_spec hlt hlast
    exact onChar_min hpos (onChar_of_boundary (isCharBoundary_of_slice hd).1)
  · obtain rfl := some.inj hclamp
    exact hstart

theorem onChar_dragTarget (hs : Sound u ta) (hwraps : Wraps lay ta) {head : Nat}
    (h : dragTarget u lay ta event = some (some head)) : OnChar ta.text.text head := by
  rw [dragTarget] at h
  split at h
  · split at h
    · rename_i line hline
      obtain ⟨pos, hpos, heq⟩ := map_eq_some_iff.mp h
      obtain rfl := some.inj heq
      exact onChar_posOnLine hs hwraps (mem_of_getElem? hline) hpos
    · obtain rfl := some.inj (some.inj h)
      exact onChar_zero _
  · split at h
    · split at h
      · rename_i line hline
        obtain ⟨pos, hpos, heq⟩ := map_eq_some_iff.mp h
        obtain rfl := some.inj heq
        exact onChar_posOnLine hs hwraps (mem_of_getElem? hline) hpos
      · obtain rfl := some.inj (some.inj h)
        exact onChar_byteLen _
    · rw [bufferPosAtScreen] at h
      split at h
      · cases h
      · obtain ⟨⟨pos, hit⟩, hpos, heq⟩ := map_eq_some_iff.mp h
        obtain rfl := some.inj heq
        exact onChar_bufferPosOnLine hs hwraps hpos

theorem onChar_wheelTarget (hwraps : Wraps lay w.area) {newPos : Nat}
    (hturn : (event.kind = .scrollDown ∧ w.scrollDownTarget lay = some (some newPos)) ∨
      (event.kind = .scrollUp ∧ w.scrollUpTarget lay = some newPos)) :
    OnChar w.area.text.text newPos := by
  rcases hturn with ⟨-, htarget⟩ | ⟨-, htarget⟩
  · rw [scrollDownTarget] at htarget
    simp only at htarget
    split at htarget
    · cases htarget
    · split at htarget
      · cases htarget
      · obtain ⟨line, hline, htarget⟩ := bind_eq_some_iff.mp htarget
        obtain rfl := some.inj (some.inj htarget)
        exact (hwraps line (mem_of_getElem? hline)).1
  · rw [scrollUpTarget] at htarget
    simp only at htarget
    split at htarget
    · cases htarget
    · split at htarget
      · cases htarget
      · obtain rfl := some.inj htarget
        generalize hline : lay.lines[lay.scrollOverride.getD (w.area.effectiveScroll lay) -
          scrollLinesForHeight lay.area.height]? = found
        cases found with
        | none => exact onChar_zero _
        | some line => exact (hwraps line (mem_of_getElem? hline)).1

/-! ## The conditions -/

/-- What the host and the wrapping see to: selections are set between
characters, and the lines are those of the text. Where no element has a display,
`textwrap` cuts them. -/
def Proper (u : Unicode) (w : Widget) : Event → Prop
  | .edit op _ => ∀ anchor head, op = .setSelection anchor head →
      isCharBoundary w.area.text.text anchor = true ∧ isCharBoundary w.area.text.text head = true
  | .mouse lay _ =>
    if w.area.elements.any fun e => (lay.displayWidth e).isSome then
      ∃ fuel, w.area.elementAwareWrapRanges u lay fuel 0 = some lay.lines
    else Wraps lay w.area
  | _ => True

/-- The condition on a step: a snapshot is brought back under a selection that
its text holds too, and a drag goes on from an anchor that is still between
characters. -/
def Grips (w : Widget) : Event → Prop
  | .edit op _ => ∀ entry, w.area.restored op = some entry → Held entry.text w.area.selection
  | .mouse lay event => OnScrollbar lay event ∨
      ((event.kind = .drag ∨ (event.kind = .down ∧ w.dragActive = true)) →
        ¬ ((event.row < lay.area.y ∨ event.row ≥ lay.area.y + lay.area.height) ∧
          event.throttled = true) →
        ∀ anchor, w.dragAnchor = some anchor → OnChar w.area.text.text anchor)
  | _ => True

theorem held_of_points (hs : Sound u w.area) (h : Held w.area.text.text w.area.selection)
    (hwraps : Wraps lay w.area)
    (hdrag : (event.kind = .drag ∨ (event.kind = .down ∧ w.dragActive = true)) →
      ¬ ((event.row < lay.area.y ∨ event.row ≥ lay.area.y + lay.area.height) ∧
        event.throttled = true) →
      ∀ anchor, w.dragAnchor = some anchor → OnChar w.area.text.text anchor)
    {selection : Option Selection} {p : Nat} (hpoints : Points u lay w event selection p) :
    Held w.area.text.text selection := by
  have hsound := (withSelection_sound hs none).1
  cases hpoints with
  | snap helem => exact held_none _
  | click hat => exact held_none _
  | word hat htwo hword hcursor =>
    exact held_some (onChar_wordStartAt hsound hword.2.1) (onChar_wordEndAt hsound hword.2.2.1)
  | line hat => exact held_some (onChar_beginningOfLine _ _) (onChar_lineStop _ _)
  | drag hkind hanchor hfresh hhead =>
    split
    · exact held_none _
    · exact held_some (hdrag hkind hfresh _ hanchor) (onChar_dragTarget hs hwraps hhead)
  | wheel hactive hturn =>
    intro sel hsel
    obtain ⟨old, hold, rfl⟩ := map_eq_some_iff.mp hsel
    exact ⟨(h old hold).1, onChar_wheelTarget hwraps hturn⟩

theorem held_of_moves {ta' : TextArea} (hmoves : Moves u ta ta') (h : Held ta.text.text ta.selection) :
    Held ta'.text.text ta'.selection := by
  obtain ⟨p, -, rfl⟩ := hmoves
  have htext : (ta.setCursorInner u p).text.text = ta.text.text :=
    (EditBuffer.ite_advanceGeneration _ _).1
  rw [htext]
  exact h

theorem held_handleMouse (hs : Sound u w.area) (h : Held w.area.text.text w.area.selection)
    (hwraps : Wraps lay w.area) (hgrips : Grips w (.mouse lay event))
    (hok : w.handleMouse u lay event = some w') : Held w'.area.text.text w'.area.selection := by
  have hpointed := pointed_handleMouse hs hok
  generalize w'.area = ta at hpointed ⊢
  cases hpointed with
  | same => exact h
  | unselected => exact held_none _
  | @pointed selection p hfree hpoints =>
    have hheld := held_of_points hs h hwraps (hgrips.resolve_left hfree) hpoints
    have htext : ((w.withSelection selection).setCursorInner u p).area.text.text = w.area.text.text :=
      (EditBuffer.ite_advanceGeneration _ _).1
    rw [htext]
    exact hheld

theorem held_step (hu : BreaksLines u) (hs : Sound u w.area)
    (h : Held w.area.text.text w.area.selection) {event : Event} (hproper : Proper u w event)
    (hgrips : Grips w event) (hok : w.step u event = some w') :
    Held w'.area.text.text w'.area.selection := by
  obtain ⟨op, hdirect, rfl, hop⟩ | ⟨lay, mouse, rfl, hmouse⟩ | hmoves := step_cases hs hok
  · exact TextArea.held_step hu hs h hdirect ⟨hproper, hgrips⟩ hop
  · refine held_handleMouse hs h ?_ hgrips hmouse
    rw [Proper] at hproper
    split at hproper
    · obtain ⟨fuel, hlines⟩ := hproper
      exact onChar_elementAwareWrapRanges hs (onChar_zero _) hlines
    · exact hproper
  · exact held_of_moves hmoves h

/-! ## Whole runs -/

/-- After a run of such steps the selected range is cut between characters, and
taking its text does not panic. -/
theorem selection_between_characters (hu : BreaksLines u) (identity : BufferIdentity)
    {events : List Event}
    (hgrips : Guided.EachTaken (step u) (fun w event => Proper u w event ∧ Grips w event)
      (new identity) events)
    (hrun : (new identity).run u events = some w) :
    (∀ range, w.area.selectionRange = some (some range) →
      isCharBoundary w.area.text.text range.start = true ∧
        isCharBoundary w.area.text.text range.stop = true) ∧
      w.area.selectedText ≠ none := by
  rw [run_eq_foldlM] at hrun
  have hstep : ∀ (w : Widget) (event : Event) (w' : Widget),
      (Sound u w.area ∧ Held w.area.text.text w.area.selection) → (Proper u w event ∧ Grips w event) →
        w.step u event = some w' → (Sound u w'.area ∧ Held w'.area.text.text w'.area.selection) :=
    fun _ _ _ h hs hok => ⟨sound_step hu h.1 hok, held_step hu h.1 h.2 hs.1 hs.2 hok⟩
  obtain ⟨hsound, hheld⟩ :=
    Guided.of_eachTaken hstep ⟨sound_new u identity, held_none _⟩ hgrips hrun
  exact ⟨fun range hrange => boundary_of_selectionRange hsound hheld hrange,
    selectedText_ne_none hsound hheld⟩

/-- The first of two typed letters is selected, and the typing undone. -/
def selectAndUndo : List Event :=
  [.edit (.insertStr ['a', 'b']) rfl, .edit (.setSelection 0 1) rfl, .edit .undo rfl]

theorem selection_between_characters_undo : ∃ w,
    (new ⟨0, 0⟩).run (Unicode.ofRule plainRule) selectAndUndo = some w ∧
      w.area.selectedText ≠ none := by
  have hdone : (((new ⟨0, 0⟩).run (Unicode.ofRule plainRule) selectAndUndo).isSome) = true := by
    decide +kernel
  obtain ⟨w, hrun⟩ := isSome_iff_exists.mp hdone
  refine ⟨w, hrun, (selection_between_characters breaksLines_plainRule ⟨0, 0⟩ ?_ hrun).2⟩
  have hfirst : (((new ⟨0, 0⟩).step (Unicode.ofRule plainRule) (.edit (.insertStr ['a', 'b']) rfl)).map
      fun w => (w.area.text.text, w.area.undo.stack)) = some (['a', 'b'], [⟨[], 0, []⟩]) := by
    decide +kernel
  refine ⟨⟨fun _ _ h => (by cases h), fun _ h => (by cases h)⟩, fun typed htyped => ?_⟩
  rw [htyped] at hfirst
  obtain ⟨htext, hstack⟩ := Prod.mk.inj (some.inj hfirst)
  refine ⟨⟨fun anchor head h => ?_, fun _ h => (by cases h)⟩, fun selected hselected => ?_⟩
  · obtain ⟨rfl, rfl⟩ := Op.setSelection.inj h
    rw [htext]
    decide
  · obtain rfl : { typed with area := { typed.area with selection := some ⟨0, 1⟩ } } = selected :=
      some.inj hselected
    refine ⟨⟨fun _ _ h => (by cases h), fun entry hentry => ?_⟩, fun _ _ => trivial⟩
    have hlast : typed.area.undo.stack.getLast? = some entry := hentry
    rw [hstack] at hlast
    obtain rfl := some.inj hlast
    exact held_some (onChar_of_le (by simp)) (onChar_of_le (by simp))

/-- A selection set on a text of two letters, and a text of one two-byte letter
brought back under it. -/
def selectUnderUndo : List Event :=
  [.edit (.insertStr ['é']) rfl, .edit (.setText ['a', 'b']) rfl, .edit (.setSelection 0 1) rfl,
    .edit .undo rfl]

theorem undo_cuts_character : ∃ w,
    (new ⟨0, 0⟩).run (Unicode.ofRule plainRule) selectUnderUndo = some w ∧
      (∃ range, w.area.selectionRange = some (some range) ∧
        isCharBoundary w.area.text.text range.stop = false) ∧
      w.area.selectedText = none := by
  have hrun : ((new ⟨0, 0⟩).run (Unicode.ofRule plainRule) selectUnderUndo).map (fun w =>
      (w.area.text.text, w.area.selectionRange, w.area.selectedText)) =
        some (['é'], some (some ⟨0, 1⟩), none) := by
    decide +kernel
  obtain ⟨w, hw, hstate⟩ := map_eq_some_iff.mp hrun
  obtain ⟨htext, hrange, hselected⟩ : w.area.text.text = ['é'] ∧
      w.area.selectionRange = some (some ⟨0, 1⟩) ∧ w.area.selectedText = none := by simpa using hstate
  refine ⟨w, hw, ⟨⟨0, 1⟩, hrange, ?_⟩, hselected⟩
  rw [htext]
  decide

end Widget

end GrokBuild.PromptEditor
