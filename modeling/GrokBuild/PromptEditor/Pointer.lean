import GrokBuild.PromptEditor.Clear

/-!
# Where the pointer leaves the cursor

A click goes to a position outside the elements, and so do vertical movement,
Home and End. Three mouse paths can do otherwise: a double click puts the cursor
on the last character of the word, a drag beyond the edge stops at the last
character of the line, and the wheel during a drag goes to the start of a line.
Each has its condition here; a run whose steps all meet theirs never leaves the
cursor inside an element.
-/

namespace GrokBuild.PromptEditor

open TextLines Str ByteText TextArea List Option

namespace Widget

variable {u : Unicode} {ta : TextArea} {w w' : Widget}

/-! ## The last character of a word or a line -/

variable {stop : Nat}

theorem lastCharStart_spec {start c : Nat} (hlt : start < stop)
    (h : ta.lastCharStart start stop = some c) :
    c < stop ∧ ∃ d, slice ta.text.text c stop = some [d] := by
  obtain ⟨s, hs, hc⟩ := map_eq_some_iff.mp h
  obtain ⟨pre, post, htext, hpre, hlen⟩ := slice_eq_some.mp hs
  rcases eq_nil_or_concat' s with rfl | ⟨init, d, rfl⟩
  · simp at hlen
    omega
  · have hd := Char.utf8Size_pos d
    rw [getLast?_concat] at hc
    simp only [byteLen_append, byteLen_cons, byteLen_nil, Nat.add_zero] at hc hlen
    refine ⟨by omega, d, slice_eq_some.mpr ⟨pre ++ init, post, by simp [htext], ?_, ?_⟩⟩
    · rw [byteLen_append]
      omega
    · simp only [byteLen_cons, byteLen_nil]
      omega

/-- No element of two or more characters ends there. -/
def NoneEnds (ta : TextArea) (stop : Nat) : Prop :=
  ∀ e ∈ ta.elements, e.range.stop = stop →
    ∀ text, slice ta.text.text e.range.start e.range.stop = some text → text.length ≤ 1

theorem outside_lastCharStart (hs : Sound u ta) {start c : Nat} (hlt : start < stop)
    (hstop : Outside ta.elements stop) (hends : NoneEnds ta stop)
    (h : ta.lastCharStart start stop = some c) : Outside ta.elements c := by
  obtain ⟨hcs, d, hd⟩ := lastCharStart_spec hlt h
  intro e he hin
  have hchars := hs.whole.onChars e he
  simp only [Span.Inside] at hin
  -- the element ends behind its character `c`, so where the word ends
  have hle : stop ≤ e.range.stop := le_of_slice_singleton hd hchars.2 hin.2
  have heq : e.range.stop = stop := by
    have hout := hstop e he
    simp only [Span.Inside] at hout
    omega
  obtain ⟨text, htext⟩ := hs.whole.exists_slice he
  have hshort := hends e he heq text htext
  have hc := (isCharBoundary_of_slice hd).1
  -- the element is of one character at most, so the cut at its end leaves none inside
  cases text with
  | nil =>
    obtain ⟨pre, post, -, hpre, hlen⟩ := slice_eq_some.mp htext
    simp at hlen
    omega
  | cons x rest =>
    obtain rfl : rest = [] := by simpa using hshort
    have hbeyond := le_of_slice_singleton htext hc hin.1
    omega

theorem outside_adjustPosOutOfElements (hs : Sound u ta) (pos : Nat) (preferStart : Bool) :
    Outside ta.elements (ta.adjustPosOutOfElements pos preferStart) := by
  intro e he
  rw [adjustPosOutOfElements]
  cases hf : ta.elements.find? fun e => decide (Span.Inside pos e.range) with
  | none => simpa using find?_eq_none.mp hf e he
  | some x =>
    have hends := outside_ends hs.whole (mem_of_find?_eq_some hf)
    cases preferStart with
    | true => exact hends.1 e he
    | false => exact hends.2 e he

variable {pos : Nat}

theorem outside_wordEndAt (hs : Sound u ta) (h : ta.wordEndAt u pos = some stop) :
    Outside ta.elements stop := by
  rw [wordEndAt] at h
  split at h
  · rename_i elem helem
    obtain rfl := some.inj h
    exact (outside_ends hs.whole (elementAt_eq_some helem).1).2
  · split at h
    · obtain ⟨⟨before, after⟩, -, h⟩ := bind_eq_some_iff.mp h
      obtain ⟨c, -, h⟩ := bind_eq_some_iff.mp h
      obtain rfl := some.inj h
      exact outside_adjustPosOutOfElements hs _ false
    · obtain rfl := some.inj h
      exact outside_byteLen hs

/-! ## What a mouse event does -/

/-- A double click there selects the word `start..stop`. -/
def SelectsWord (u : Unicode) (ta : TextArea) (pos start stop : Nat) : Prop :=
  (∃ before after, splitAtByte ta.text.text pos = some (before, after) ∧
    after.head?.any isWhitespace = false) ∧
  ta.wordStartAt u pos = some start ∧ ta.wordEndAt u pos = some stop ∧ start < stop

/-- Where the pointer is, for a press: nothing is selected any more. -/
def PressedAt (u : Unicode) (lay : Layout) (w : Widget) (event : MouseEvent) (pos : Nat) (hit : Bool) :
    Prop :=
  event.kind = .down ∧ w.dragActive = false ∧
    (w.withSelection none).area.bufferPosAtScreenEx u lay event.column event.row = some (some (pos, hit))

/-- The selection and the cursor that a mouse event sets. -/
inductive Points (u : Unicode) (lay : Layout) (w : Widget) (event : MouseEvent) :
    Option Selection → Nat → Prop where
  | snap {elem : TextElement} (helem : elem ∈ w.area.elements) :
      Points u lay w event none elem.range.start
  | click {pos : Nat} {hit : Bool} (hat : PressedAt u lay w event pos hit) :
      Points u lay w event none pos
  | word {pos start stop cursor : Nat} (hat : PressedAt u lay w event pos false)
      (htwo : event.clickCount = 2) (hword : SelectsWord u (w.withSelection none).area pos start stop)
      (hcursor : w.area.lastCharStart start stop = some cursor) :
      Points u lay w event (some ⟨start, stop⟩) cursor
  | line {pos : Nat} {hit : Bool} (hat : PressedAt u lay w event pos hit) :
      Points u lay w event (some ⟨w.area.beginningOfLine pos,
        if w.area.endOfLine pos < byteLen w.area.text.text then w.area.endOfLine pos + 1
        else w.area.endOfLine pos⟩) pos
  | drag {anchor head : Nat} (hkind : event.kind = .drag ∨ (event.kind = .down ∧ w.dragActive = true))
      (hanchor : w.dragAnchor = some anchor)
      (hfresh : ¬ ((event.row < lay.area.y ∨ event.row ≥ lay.area.y + lay.area.height) ∧
        event.throttled = true))
      (hhead : dragTarget u lay w.area event = some (some head)) :
      Points u lay w event (if head = anchor then none else some ⟨anchor, head⟩) head
  | wheel {newPos : Nat} (hactive : w.dragActive = true)
      (hturn : (event.kind = .scrollDown ∧ w.scrollDownTarget lay = some (some newPos)) ∨
        (event.kind = .scrollUp ∧ w.scrollUpTarget lay = some newPos)) :
      Points u lay w event (w.area.selection.map fun sel => { sel with head := newPos }) newPos

/-- The scrollbar takes the event. -/
def OnScrollbar (lay : Layout) (event : MouseEvent) : Prop :=
  (lay.scrollbarDragging = true ∧ (event.kind = .drag ∨ event.kind = .down ∨ event.kind = .up)) ∨
    ((lay.showScrollbar = true ∧ lay.textWidth < lay.area.width ∧
      event.column + 1 = lay.area.x + lay.area.width) ∧ event.kind = .down)

/-- What a mouse event leaves: the area, with nothing selected or not, or with
the selection and the cursor it sets. -/
inductive Pointed (u : Unicode) (lay : Layout) (w : Widget) (event : MouseEvent) : TextArea → Prop where
  | same : Pointed u lay w event w.area
  | unselected : Pointed u lay w event (w.withSelection none).area
  | pointed {selection : Option Selection} {p : Nat} (hfree : ¬ OnScrollbar lay event)
      (h : Points u lay w event selection p) :
      Pointed u lay w event ((w.withSelection selection).setCursorInner u p).area

theorem Pointed.sound {lay : Layout} {event : MouseEvent} (h : Pointed u lay w event ta)
    (hs : Sound u w.area) : Sound u ta := by
  cases h with
  | same => exact hs
  | unselected => exact (withSelection_sound hs none).1
  | @pointed selection p hfree h => exact (setCursorInner_sound (withSelection_sound hs selection).1 p).1

variable {lay : Layout} {event : MouseEvent}

theorem elementClickSnap_eq_some {hit : Bool} (h : w.elementClickSnap u pos hit = some w') :
    ∃ elem ∈ w.area.elements, w'.area = (w.setCursorInner u elem.range.start).area := by
  rw [elementClickSnap] at h
  split at h
  · obtain ⟨elem, helem, h⟩ := bind_eq_some_iff.mp h
    obtain rfl := some.inj h
    exact ⟨elem, mem_of_find?_eq_some helem, rfl⟩
  · cases h

theorem elementClickSnap_ne_none (haimed : Aimed w.area pos true) :
    w.elementClickSnap u pos true ≠ none := by
  obtain ⟨e, he, hne, hpos⟩ := haimed.2 rfl
  intro hnone
  rw [elementClickSnap, if_pos rfl] at hnone
  have hfind : (w.area.elements.find? fun e =>
      decide (pos ≥ e.range.start ∧ pos ≤ e.range.stop ∧ e.range.start < e.range.stop)) = none := by
    cases hf : w.area.elements.find? fun e =>
        decide (pos ≥ e.range.start ∧ pos ≤ e.range.stop ∧ e.range.start < e.range.stop) with
    | none => rfl
    | some x =>
      rw [hf] at hnone
      cases hnone
  have hmiss := find?_eq_none.mp hfind e he
  simp only [decide_eq_true_eq] at hmiss
  omega

theorem copySelection_eq_some (h : w.copySelection = some w') : w' = w := by
  obtain ⟨-, -, heq⟩ := map_eq_some_iff.mp h
  exact heq.symm

theorem points_clickAt {cleared : Widget} {hit : Bool}
    (harea : cleared.area = (w.withSelection none).area) (hs : Sound u w.area)
    (hat : PressedAt u lay w event pos hit)
    (hok : cleared.clickAt u event.clickCount pos hit = some w') :
    ∃ selection p, Points u lay w event selection p ∧
      w'.area = ((w.withSelection selection).setCursorInner u p).area := by
  have hsnapped : ∀ snapped, cleared.elementClickSnap u pos hit = some snapped →
      ∃ selection p, Points u lay w event selection p ∧
        snapped.area = ((w.withSelection selection).setCursorInner u p).area := by
    intro snapped hsnap
    obtain ⟨elem, helem, heq⟩ := elementClickSnap_eq_some hsnap
    rw [harea] at helem
    refine ⟨none, elem.range.start, .snap helem, ?_⟩
    rw [heq, setCursorInner, setCursorInner, harea]
  rw [clickAt] at hok
  split at hok
  · rename_i htwo
    split at hok
    · rename_i snapped hsnap
      obtain rfl := some.inj hok
      exact hsnapped _ hsnap
    · rename_i hsnap
      have hmissed : hit = false := by
        cases hit with
        | false => rfl
        | true =>
          have haimed := bufferPosAtScreenEx_aimed (withSelection_sound hs none).1 lay hat.2.2
          exact absurd hsnap (elementClickSnap_ne_none (harea ▸ haimed))
      subst hmissed
      obtain ⟨⟨before, after⟩, hsplit, hok⟩ := bind_eq_some_iff.mp hok
      obtain ⟨start, hstart, hok⟩ := bind_eq_some_iff.mp hok
      obtain ⟨stop, hstop, hok⟩ := bind_eq_some_iff.mp hok
      rw [harea] at hsplit hstart hstop
      split at hok
      · rename_i hword
        obtain ⟨cursor, hcursor, hok⟩ := bind_eq_some_iff.mp hok
        obtain rfl := copySelection_eq_some hok
        rw [harea] at hcursor
        refine ⟨some ⟨start, stop⟩, cursor, .word hat htwo
          ⟨⟨before, after, hsplit, by simpa using hword.1⟩, hstart, hstop, hword.2⟩ hcursor, ?_⟩
        rw [setCursorInner, setCursorInner, withSelection, withSelection, harea]
        rfl
      · obtain rfl := some.inj hok
        refine ⟨none, pos, .click hat, ?_⟩
        rw [setCursorInner, setCursorInner, harea]
  · split at hok
    · obtain rfl := copySelection_eq_some hok
      refine ⟨_, pos, .line hat, ?_⟩
      rw [setCursorInner, setCursorInner, withSelection, withSelection, harea]
      rfl
    · split at hok
      · rename_i snapped hsnap
        obtain rfl := some.inj hok
        exact hsnapped _ hsnap
      · obtain rfl := some.inj hok
        refine ⟨none, pos, .click hat, ?_⟩
        rw [setCursorInner, setCursorInner, harea]

theorem pointed_press (hs : Sound u w.area) (hfree : ¬ OnScrollbar lay event)
    (hkind : event.kind = .down) (hidle : w.dragActive = false)
    (hok : w.press u lay event = some w') : Pointed u lay w event w'.area := by
  obtain ⟨found, hfound, hok⟩ := bind_eq_some_iff.mp hok
  cases found with
  | none =>
    obtain rfl := some.inj hok
    exact .unselected
  | some found =>
    obtain ⟨pos, hit⟩ := found
    simp only at hok
    have harea : (({ w with dragActive := false } : Widget).withSelection none).area =
        (w.withSelection none).area := rfl
    obtain ⟨selection, p, hpoints, heq⟩ := points_clickAt harea hs ⟨hkind, hidle, hfound⟩ hok
    rw [heq]
    exact .pointed hfree hpoints

theorem pointed_drag (hfree : ¬ OnScrollbar lay event)
    (hkind : event.kind = .drag ∨ (event.kind = .down ∧ w.dragActive = true))
    (hok : w.drag u lay event = some w') : Pointed u lay w event w'.area := by
  rw [drag] at hok
  split at hok
  · obtain rfl := some.inj hok
    exact .same
  · rename_i anchor hanchor
    simp only at hok
    split at hok
    · obtain rfl := some.inj hok
      exact .same
    · rename_i hfresh
      obtain ⟨target, htarget, hok⟩ := bind_eq_some_iff.mp hok
      cases target with
      | none =>
        obtain rfl := some.inj hok
        exact .same
      | some head =>
        obtain rfl := some.inj hok
        exact .pointed hfree (.drag hkind hanchor hfresh htarget)

theorem pointed_release (hok : w.release event = some w') : Pointed u lay w event w'.area := by
  rw [release] at hok
  split at hok
  · obtain ⟨selected, -, hok⟩ := bind_eq_some_iff.mp hok
    obtain rfl := some.inj hok
    split
    · exact .same
    · exact .unselected
  · obtain rfl := some.inj hok
    exact .same

theorem pointed_dragToLine (hfree : ¬ OnScrollbar lay event) {newPos : Nat}
    (hturn : (event.kind = .scrollDown ∧ w.scrollDownTarget lay = some (some newPos)) ∨
      (event.kind = .scrollUp ∧ w.scrollUpTarget lay = some newPos)) :
    Pointed u lay w event (w.dragToLine u newPos).area := by
  rw [dragToLine]
  split
  · rename_i hactive
    exact .pointed hfree (.wheel hactive hturn)
  · exact .same

theorem pointed_handleMouse (hs : Sound u w.area) (hok : w.handleMouse u lay event = some w') :
    Pointed u lay w event w'.area := by
  rw [handleMouse] at hok
  split at hok
  · obtain rfl := some.inj hok
    exact .same
  · rename_i hnotDragging
    split at hok
    · obtain rfl := some.inj hok
      exact .same
    · rename_i hoff
      have hfree : ¬ OnScrollbar lay event := not_or.mpr ⟨hnotDragging, hoff⟩
      split at hok
      · rename_i hkind
        split at hok
        · rename_i hactive
          exact pointed_drag hfree (Or.inr ⟨hkind, hactive⟩) hok
        · rename_i hidle
          exact pointed_press hs hfree hkind (by simpa using hidle) hok
      · rename_i hkind
        exact pointed_drag hfree (Or.inl hkind) hok
      · exact pointed_release hok
      · rename_i hkind
        obtain ⟨target, htarget, hok⟩ := bind_eq_some_iff.mp hok
        cases target with
        | none =>
          obtain rfl := some.inj hok
          exact .same
        | some newPos =>
          obtain rfl := some.inj hok
          exact pointed_dragToLine hfree (Or.inl ⟨hkind, htarget⟩)
      · rename_i hkind
        obtain rfl := some.inj hok
        rw [scrollUp]
        split
        · rename_i newPos htarget
          exact pointed_dragToLine hfree (Or.inr ⟨hkind, htarget⟩)
        · exact .same
      · obtain rfl := some.inj hok
        exact .same

/-! ## When the cursor stays outside the elements -/

/-- A double click beside the elements is not on a word that ends with an element. -/
def PressSettles (u : Unicode) (lay : Layout) (w : Widget) (event : MouseEvent) : Prop :=
  event.clickCount = 2 → ∀ pos start stop, PressedAt u lay w event pos false →
    SelectsWord u (w.withSelection none).area pos start stop → NoneEnds w.area stop

/-- The pointer is not right of the last character of a line that ends inside an
element, and not on an empty line inside one. -/
def LineSettles (u : Unicode) (lay : Layout) (ta : TextArea) (line : ByteRange) (column : Nat) : Prop :=
  let lineEnd := min line.stop (byteLen ta.text.text)
  if line.start < lineEnd then
    ∀ pos hit last,
      ta.displayColToBufferPos u lay line.start lineEnd (column - lay.area.x) = some (pos, hit) →
        ta.lastCharStart line.start lineEnd = some last → last < pos → Outside ta.elements last
  else Outside ta.elements line.start

def DragSettles (u : Unicode) (lay : Layout) (w : Widget) (event : MouseEvent) : Prop :=
  w.dragAnchor ≠ none → event.throttled = false →
    (event.row < lay.area.y → ∀ line, lineAbove lay w.area event = some line →
      LineSettles u lay w.area line event.column) ∧
    (event.row ≥ lay.area.y + lay.area.height → ∀ line, lineBelow lay w.area event = some line →
      LineSettles u lay w.area line event.column)

/-- The wheel takes a drag to a line that does not start inside an element. -/
def WheelSettles (lay : Layout) (w : Widget) (event : MouseEvent) : Prop :=
  w.dragActive = true → ∀ newPos,
    (event.kind = .scrollDown ∧ w.scrollDownTarget lay = some (some newPos)) ∨
      (event.kind = .scrollUp ∧ w.scrollUpTarget lay = some newPos) → Outside w.area.elements newPos

structure MouseSettles (u : Unicode) (lay : Layout) (w : Widget) (event : MouseEvent) : Prop where
  press : PressSettles u lay w event
  drag : event.kind = .drag ∨ (event.kind = .down ∧ w.dragActive = true) → DragSettles u lay w event
  wheel : WheelSettles lay w event

/-- The condition on a step. A deleted selection also has to begin at a cluster
boundary: the cursor is put back where it began. -/
def Settles (u : Unicode) (w : Widget) : Event → Prop
  | .edit op _ => op = .deleteSelection → ∀ range, w.area.selectionRange = some (some range) →
      IsBoundary u w.area.text.text range.start
  | .mouse lay event => OnScrollbar lay event ∨ MouseSettles u lay w event
  | _ => True

theorem outside_posOnLine (hs : Sound u ta) {line : ByteRange} {column : Nat}
    (hsettles : LineSettles u lay ta line column) (h : posOnLine u lay ta line column = some pos) :
    Outside ta.elements pos := by
  obtain ⟨⟨p, hit⟩, hp, hclamp⟩ := bind_eq_some_iff.mp h
  have hpos := (displayColLoop_aimed hs lay hp).1
  simp only at hclamp
  rw [clampToLine] at hclamp
  rw [LineSettles] at hsettles
  split at hclamp
  · rename_i hlt
    rw [if_pos hlt] at hsettles
    obtain ⟨last, hlast, rfl⟩ := map_eq_some_iff.mp hclamp
    -- the pointer is on the line, or right of its last character
    rcases le_or_gt p last with hle | hgt
    · rw [min_eq_left hle]
      exact hpos
    · rw [min_eq_right hgt.le]
      exact hsettles p hit last hp hlast hgt
  · rename_i hge
    rw [if_neg hge] at hsettles
    obtain rfl := some.inj hclamp
    exact hsettles

theorem outside_dragTarget (hs : Sound u w.area) {head : Nat} (hanchor : w.dragAnchor ≠ none)
    (hfresh : ¬ ((event.row < lay.area.y ∨ event.row ≥ lay.area.y + lay.area.height) ∧
      event.throttled = true))
    (hsettles : DragSettles u lay w event)
    (h : dragTarget u lay w.area event = some (some head)) : Outside w.area.elements head := by
  have hkept : event.row < lay.area.y ∨ event.row ≥ lay.area.y + lay.area.height →
      event.throttled = false := fun hout => by simpa [hout] using hfresh
  rw [dragTarget] at h
  split at h
  · rename_i habove
    split at h
    · rename_i line hline
      obtain ⟨pos, hpos, heq⟩ := map_eq_some_iff.mp h
      obtain rfl := some.inj heq
      exact outside_posOnLine hs ((hsettles hanchor (hkept (Or.inl habove))).1 habove line hline) hpos
    · obtain rfl := some.inj (some.inj h)
      exact outside_zero _
  · split at h
    · rename_i hbelow
      split at h
      · rename_i line hline
        obtain ⟨pos, hpos, heq⟩ := map_eq_some_iff.mp h
        obtain rfl := some.inj heq
        exact outside_posOnLine hs ((hsettles hanchor (hkept (Or.inr hbelow))).2 hbelow line hline) hpos
      · obtain rfl := some.inj (some.inj h)
        exact outside_byteLen hs
    · rw [bufferPosAtScreen] at h
      split at h
      · cases h
      · obtain ⟨⟨pos, hit⟩, hpos, heq⟩ := map_eq_some_iff.mp h
        obtain rfl := some.inj heq
        exact (bufferPosOnLine_aimed hs lay hpos).1

theorem outside_of_points (hs : Sound u w.area) (hsettles : MouseSettles u lay w event)
    {selection : Option Selection} {p : Nat} (h : Points u lay w event selection p) :
    Outside w.area.elements p := by
  have hpressed : ∀ pos hit, PressedAt u lay w event pos hit → Outside w.area.elements pos :=
    fun pos hit hat => (bufferPosAtScreenEx_aimed (withSelection_sound hs none).1 lay hat.2.2).1
  cases h with
  | snap helem => exact (outside_ends hs.whole helem).1
  | click hat => exact hpressed _ _ hat
  | @word pos start stop cursor hat htwo hword hcursor =>
    have hends := hsettles.press htwo pos start stop hat hword
    have hout := outside_wordEndAt (withSelection_sound hs none).1 hword.2.2.1
    exact outside_lastCharStart hs hword.2.2.2 hout hends hcursor
  | line hat => exact hpressed _ _ hat
  | drag hkind hanchor hfresh hhead =>
    exact outside_dragTarget hs (by simp [hanchor]) hfresh (hsettles.drag hkind) hhead
  | wheel hactive hturn => exact hsettles.wheel hactive _ hturn

theorem steady_handleMouse (hs : Sound u w.area) (h : Steady u w.area)
    (hsettles : OnScrollbar lay event ∨ MouseSettles u lay w event)
    (hok : w.handleMouse u lay event = some w') : Steady u w'.area := by
  have hpointed := pointed_handleMouse hs hok
  generalize w'.area = ta at hpointed ⊢
  cases hpointed with
  | same => exact h
  | unselected => exact ⟨h.now, h.history⟩
  | @pointed selection p hfree hpoints =>
    have hsettles : MouseSettles u lay w event := hsettles.resolve_left hfree
    have hselected : Steady u (w.withSelection selection).area := ⟨h.now, h.history⟩
    exact hselected.setCursorInner (outside_of_points hs hsettles hpoints)

/-! ## Whole runs -/

theorem edit_area {op : Op} (h : w.edit u op = some w') : w.area.step u op = some w'.area := by
  obtain ⟨area, harea, hrest⟩ := bind_eq_some_iff.mp h
  rw [harea]
  split at hrest
  · obtain rfl := some.inj hrest
    rfl
  · obtain rfl := some.inj hrest
    rfl

/-- A step edits, follows the mouse, or moves the cursor to a place outside the
elements. -/
theorem step_cases (hs : Sound u w.area) {event : Event} (hok : w.step u event = some w') :
    (∃ op hdirect, event = .edit op hdirect ∧ w.area.step u op = some w'.area) ∨
      (∃ lay mouse, event = .mouse lay mouse ∧ w.handleMouse u lay mouse = some w') ∨
        Moves u w.area w'.area := by
  cases event with
  | edit op hdirect => exact .inl ⟨op, hdirect, rfl, edit_area hok⟩
  | mouse lay mouse => exact .inr (.inl ⟨lay, mouse, rfl, hok⟩)
  | moveCursorUp lay =>
    rw [step] at hok
    obtain ⟨area, harea, rfl⟩ := map_eq_some_iff.mp hok
    exact .inr (.inr (moves_moveCursorUp hs lay harea))
  | moveCursorDown lay =>
    rw [step] at hok
    obtain ⟨area, harea, rfl⟩ := map_eq_some_iff.mp hok
    exact .inr (.inr (moves_moveCursorDown hs lay harea))
  | home lay =>
    rw [step] at hok
    obtain ⟨area, harea, rfl⟩ := map_eq_some_iff.mp hok
    exact .inr (.inr (moves_home hs lay harea))
  | toEnd lay =>
    rw [step] at hok
    obtain ⟨area, harea, rfl⟩ := map_eq_some_iff.mp hok
    exact .inr (.inr (moves_toEnd hs lay harea))

/-- A step keeps the elements whole, wherever it puts the cursor. -/
theorem sound_step (hu : BreaksLines u) (hs : Sound u w.area) {event : Event}
    (hok : w.step u event = some w') : Sound u w'.area := by
  obtain ⟨op, hdirect, rfl, hop⟩ | ⟨lay, mouse, rfl, hmouse⟩ | hmoves := step_cases hs hok
  · obtain ⟨ta', hta', hsound⟩ := step_sound hu hs op
    obtain rfl : w'.area = ta' := some.inj (hop.symm.trans hta')
    exact hsound
  · exact (pointed_handleMouse hs hmouse).sound hs
  · exact hmoves.sound hs

theorem steady_edit (hu : BreaksLines u) (hs : Sound u ta) (h : Steady u ta) {op : Op}
    (hdirect : op.direct = true)
    (hdelete : op = .deleteSelection → ∀ range, ta.selectionRange = some (some range) →
      IsBoundary u ta.text.text range.start)
    {ta' : TextArea} (hok : ta.step u op = some ta') : Steady u ta' := by
  by_cases hplain : op.plain = true
  · exact steady_of_changes (step_changes hu hs hplain hdelete hok) h
  · cases op with
    | setSelection anchor head =>
      obtain rfl := some.inj hok
      exact ⟨h.now, h.history⟩
    | _ => exact absurd hdirect hplain

theorem steady_step (hu : BreaksLines u) (hs : Sound u w.area) (h : Steady u w.area) {event : Event}
    (hsettles : Settles u w event) (hok : w.step u event = some w') : Steady u w'.area := by
  obtain ⟨op, hdirect, rfl, hop⟩ | ⟨lay, mouse, rfl, hmouse⟩ | hmoves := step_cases hs hok
  · exact steady_edit hu hs h hdirect hsettles hop
  · exact steady_handleMouse hs h hsettles hmouse
  · exact hmoves.steady h

theorem run_eq_foldlM (w : Widget) (events : List Event) :
    w.run u events = events.foldlM (step u) w := by
  induction events generalizing w with
  | nil => rfl
  | cons event events ih =>
    rw [run, foldlM_cons]
    exact bind_congr fun next => ih next

/-- A run of steps that meet their conditions leaves the cursor outside every
element whose borders no cluster crosses. -/
theorem cursor_outside_elements (hu : BreaksLines u) (identity : BufferIdentity) {events : List Event}
    (hsettles : Guided.EachTaken (step u) (Settles u) (new identity) events)
    (hrun : (new identity).run u events = some w) {e : TextElement} (he : e ∈ w.area.elements)
    (hstart : IsBoundary u w.area.text.text e.range.start)
    (hstop : IsBoundary u w.area.text.text e.range.stop) :
    ¬ Span.Inside w.area.cursor e.range := by
  rw [run_eq_foldlM] at hrun
  have hstep : ∀ (w : Widget) (event : Event) (w' : Widget), (Sound u w.area ∧ Steady u w.area) →
      Settles u w event → w.step u event = some w' → (Sound u w'.area ∧ Steady u w'.area) :=
    fun _ _ _ h hs hok => ⟨sound_step hu h.1 hok, steady_step hu h.1 h.2 hs hok⟩
  have hreached := Guided.of_eachTaken hstep ⟨sound_new u identity, steady_new u identity⟩ hsettles hrun
  exact hreached.2.now.not_inside he hstart hstop

/-- A text of one line, every character one column wide. -/
def oneLine (stop : Nat) : Layout where
  cached := none
  lines := [⟨0, stop⟩]
  textWidth := 10
  displayWidth _ := none
  strWidth := List.length
  preferredCol := none
  area := ⟨0, 0, 10, 1⟩
  scroll := 0
  scrollOverride := none
  showScrollbar := false
  scrollbarDragging := false

/-- A letter, a pasted block behind it, and the pointer on the letter. -/
def pasteAndClick (clickCount : Nat) : List Event :=
  [.edit (.insertStr ['a']) rfl, .edit (.insertElement ['b', 'c'] 0) rfl,
    .mouse (oneLine 3) ⟨.down, 0, 0, clickCount, false, false⟩]

theorem run_pasteAndClick :
    (((new ⟨0, 0⟩).run (Unicode.ofRule plainRule) (pasteAndClick 1)).map fun w =>
        (w.area.cursor, w.area.text.text, w.area.elements)) =
      some (0, ['a', 'b', 'c'], [⟨0, ⟨1, 3⟩, 0⟩]) ∧
    (((new ⟨0, 0⟩).run (Unicode.ofRule plainRule) (pasteAndClick 2)).map fun w =>
        (w.area.cursor, w.area.text.text, w.area.elements)) =
      some (2, ['a', 'b', 'c'], [⟨0, ⟨1, 3⟩, 0⟩]) := by
  decide +kernel

/-- A single click meets its condition. -/
theorem cursor_outside_elements_click : ∃ w,
    (new ⟨0, 0⟩).run (Unicode.ofRule plainRule) (pasteAndClick 1) = some w ∧
      ¬ Span.Inside w.area.cursor ⟨1, 3⟩ := by
  obtain ⟨w, hrun, hw⟩ := map_eq_some_iff.mp run_pasteAndClick.1
  obtain ⟨-, htext, helements⟩ : _ ∧ w.area.text.text = ['a', 'b', 'c'] ∧
      w.area.elements = [⟨0, ⟨1, 3⟩, 0⟩] := by simpa using hw
  have hboundary : ∀ n, isGraphemeBoundary (Unicode.ofRule plainRule) ['a', 'b', 'c'] n = true →
      IsBoundary (Unicode.ofRule plainRule) w.area.text.text n :=
    fun n h => htext ▸ isGraphemeBoundary_iff.mp h
  have hmouse : ∀ w : Widget, MouseSettles (Unicode.ofRule plainRule) (oneLine 3) w
      ⟨.down, 0, 0, 1, false, false⟩ := by
    intro w
    constructor
    · intro htwo
      cases htwo
    · intro hkind hanchor hfresh
      exact ⟨fun habove => absurd habove (by decide), fun hbelow => absurd hbelow (by decide)⟩
    · intro hactive newPos hturn
      obtain ⟨hkind, -⟩ | ⟨hkind, -⟩ := hturn
      · cases hkind
      · cases hkind
  have hsettles : Guided.EachTaken (step (Unicode.ofRule plainRule)) (Settles (Unicode.ofRule plainRule))
      (new ⟨0, 0⟩) (pasteAndClick 1) := by
    refine ⟨?_, fun typed _ => ⟨?_, fun pasted _ => ⟨Or.inr (hmouse pasted), fun _ _ => trivial⟩⟩⟩
    · intro hop
      cases hop
    · intro hop
      cases hop
  exact ⟨w, hrun, cursor_outside_elements breaksLines_plainRule ⟨0, 0⟩ hsettles hrun
    (e := ⟨0, ⟨1, 3⟩, 0⟩) (by simp [helements]) (hboundary 1 (by decide)) (hboundary 3 (by decide))⟩

/-- A double click puts the cursor on the last character of the word, and the
word ends with the element. -/
theorem double_click_enters_element : ∃ w,
    (new ⟨0, 0⟩).run (Unicode.ofRule plainRule) (pasteAndClick 2) = some w ∧
      ∃ e ∈ w.area.elements, Span.Inside w.area.cursor e.range := by
  obtain ⟨w, hrun, hw⟩ := map_eq_some_iff.mp run_pasteAndClick.2
  obtain ⟨hcursor, -, helements⟩ : w.area.cursor = 2 ∧ w.area.text.text = ['a', 'b', 'c'] ∧
      w.area.elements = [⟨0, ⟨1, 3⟩, 0⟩] := by simpa using hw
  refine ⟨w, hrun, ⟨0, ⟨1, 3⟩, 0⟩, by simp [helements], ?_⟩
  rw [hcursor]
  decide

end Widget

end GrokBuild.PromptEditor
