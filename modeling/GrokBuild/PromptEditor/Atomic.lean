import GrokBuild.PromptEditor.Graphemes

/-!
# Atomic ranges

The byte ranges the editor must not cut: the host passes them in any order,
overlapping, reversed or out of bounds, and every plan first turns them into
disjoint ranges on grapheme boundaries. A position is a stop when it is a
grapheme boundary inside none of them; `normalizeCursorForAtomicRanges`,
`normalizeReplacementRange`, `previousAtomicBoundary` and `nextAtomicBoundary`
only return stops.
-/

namespace GrokBuild.PromptEditor

open TextLines Str ByteText List

/-- `Range<usize>`. -/
abbrev ByteRange := Span Nat

variable (u : Unicode)

/-! ## The normalised ranges -/

/-- One range put in order, clipped to the text and widened to grapheme
boundaries; an empty one is dropped. -/
def normalizeAtomicRange (text : Text) (range : ByteRange) : Option ByteRange :=
  let rawStart := min (min range.start range.stop) (byteLen text)
  let rawEnd := min (max range.start range.stop) (byteLen text)
  if rawStart = rawEnd then none
  else
    let start := floorGraphemeBoundary u text rawStart
    let stop := ceilGraphemeBoundary u text rawEnd
    if start < stop then some ⟨start, stop⟩ else none

/-- The key order of `sort_by_key(|range| (range.start, range.end))`. -/
def rangeLe (a b : ByteRange) : Bool :=
  a.start < b.start || (a.start == b.start && a.stop ≤ b.stop)

def normalizeAtomicRanges (text : Text) (ranges : List ByteRange) : List ByteRange :=
  Span.merge ((ranges.filterMap (normalizeAtomicRange u text)).mergeSort rangeLe)

variable {u} {text : Text}

theorem normalizeAtomicRange_spec {range m : ByteRange}
    (h : normalizeAtomicRange u text range = some m) :
    IsBoundary u text m.start ∧ IsBoundary u text m.stop ∧ m.start < m.stop := by
  unfold normalizeAtomicRange at h
  simp only at h
  split at h
  · cases h
  · split at h
    · rename_i hlt
      obtain rfl := Option.some.inj h
      exact ⟨(floorGraphemeBoundary_spec u text _).1, (ceilGraphemeBoundary_spec u text _).1, hlt⟩
    · cases h

theorem exists_normalizeAtomicRange {range : ByteRange} (hne : range.start < range.stop)
    (hle : range.stop ≤ byteLen text) :
    ∃ m, normalizeAtomicRange u text range = some m ∧ m.start ≤ range.start ∧
      range.stop ≤ m.stop := by
  have hstart : min (min range.start range.stop) (byteLen text) = range.start := by omega
  have hstop : min (max range.start range.stop) (byteLen text) = range.stop := by omega
  have hfloor := (floorGraphemeBoundary_spec u text range.start).2.1
  have hceil := (ceilGraphemeBoundary_spec u text range.stop).2.1
  refine ⟨⟨floorGraphemeBoundary u text range.start, ceilGraphemeBoundary u text range.stop⟩, ?_,
    hfloor, by simpa [hle] using hceil⟩
  rw [normalizeAtomicRange, hstart, hstop, if_neg (by omega), if_pos (by omega)]

theorem rangeLe_sorted (ranges : List ByteRange) :
    (ranges.mergeSort rangeLe).Pairwise fun a b => a.start ≤ b.start := by
  have hsorted := @pairwise_mergeSort ByteRange rangeLe
    (by simp only [rangeLe, Bool.or_eq_true, Bool.and_eq_true, decide_eq_true_eq, beq_iff_eq]; omega)
    (by simp only [rangeLe, Bool.or_eq_true, Bool.and_eq_true, decide_eq_true_eq, beq_iff_eq]; omega)
    ranges
  refine hsorted.imp ?_
  intro a b h
  simp only [rangeLe, Bool.or_eq_true, Bool.and_eq_true, decide_eq_true_eq, beq_iff_eq] at h
  omega

/-- What the planners need of the ranges they walk over. -/
structure Atomic (u : Unicode) (text : Text) (ranges : List ByteRange) : Prop where
  laid : Span.Laid ranges
  boundary : ∀ r ∈ ranges, IsBoundary u text r.start ∧ IsBoundary u text r.stop

theorem atomic_normalizeAtomicRanges (u : Unicode) (text : Text) (ranges : List ByteRange) :
    Atomic u text (normalizeAtomicRanges u text ranges) := by
  have hspec : ∀ r ∈ (ranges.filterMap (normalizeAtomicRange u text)).mergeSort rangeLe,
      IsBoundary u text r.start ∧ IsBoundary u text r.stop ∧ r.start < r.stop := by
    intro r hr
    obtain ⟨range, -, hrange⟩ := mem_filterMap.mp (mem_mergeSort.mp hr)
    exact normalizeAtomicRange_spec hrange
  constructor
  · exact Span.laid_merge (fun r hr => (hspec r hr).2.2) (rangeLe_sorted _)
  · intro r hr
    obtain ⟨⟨a, ha, hstart⟩, ⟨b, hb, hstop⟩⟩ := Span.ends_of_mem_merge hr
    exact ⟨hstart ▸ (hspec a ha).1, hstop ▸ (hspec b hb).2.1⟩

variable {r : ByteRange}

theorem exists_normalized_of_mem {ranges : List ByteRange} (hr : r ∈ ranges) (hne : r.start < r.stop)
    (hle : r.stop ≤ byteLen text) :
    ∃ m ∈ normalizeAtomicRanges u text ranges, m.start ≤ r.start ∧ r.stop ≤ m.stop := by
  obtain ⟨w, hw, hws, hwe⟩ := exists_normalizeAtomicRange (u := u) hne hle
  have hmem : w ∈ (ranges.filterMap (normalizeAtomicRange u text)).mergeSort rangeLe :=
    mem_mergeSort.mpr (mem_filterMap.mpr ⟨r, hr, hw⟩)
  obtain ⟨m, hm, hms, hme⟩ := Span.exists_merge_of_mem (rangeLe_sorted _) hmem
  exact ⟨m, hm, hms.trans hws, hwe.trans hme⟩

/-! ## Stops -/

/-- Where a planned edit may begin, end or leave the cursor. -/
structure Stop (u : Unicode) (text : Text) (ranges : List ByteRange) (n : Nat) : Prop where
  boundary : IsBoundary u text n
  outside : ∀ r ∈ ranges, ¬ Span.Inside n r

variable {ranges : List ByteRange} {n : Nat}

theorem Stop.le_byteLen (h : Stop u text ranges n) : n ≤ byteLen text := h.boundary.le_byteLen

theorem stop_zero (u : Unicode) (text : Text) (ranges : List ByteRange) : Stop u text ranges 0 :=
  ⟨isBoundary_zero text, fun _ _ h => Nat.not_lt_zero _ h.1⟩

theorem Atomic.stop_byteLen (h : Atomic u text ranges) : Stop u text ranges (byteLen text) :=
  ⟨isBoundary_byteLen text, fun r hr hi => by
    have := (h.boundary r hr).2.le_byteLen
    have := hi.2
    omega⟩

theorem Atomic.stop_start (h : Atomic u text ranges) (hr : r ∈ ranges) : Stop u text ranges r.start :=
  ⟨(h.boundary r hr).1, fun _ hq => (h.laid.not_inside hr hq).1⟩

theorem Atomic.stop_stop (h : Atomic u text ranges) (hr : r ∈ ranges) : Stop u text ranges r.stop :=
  ⟨(h.boundary r hr).2, fun _ hq => (h.laid.not_inside hr hq).2⟩

/-- An edit between two stops replaces each atomic range whole or not at all. -/
theorem Stop.respects {e : ByteRange} (hstart : Stop u text ranges e.start)
    (hstop : Stop u text ranges e.stop) : ∀ r ∈ ranges, Span.Respects e r := fun r hr =>
  Span.respects_of_not_inside (hstart.outside r hr) (hstop.outside r hr)

/-! ## The cursor -/

def normalizeCursorForAtomicRanges (cursor : Nat) (ranges : List ByteRange) : Nat :=
  match ranges.find? fun r => decide (Span.Inside cursor r) with
  | none => cursor
  | some r => if cursor - r.start ≤ r.stop - cursor then r.start else r.stop

theorem Atomic.stop_normalizeCursor (h : Atomic u text ranges) (hn : IsBoundary u text n) :
    Stop u text ranges (normalizeCursorForAtomicRanges n ranges) := by
  unfold normalizeCursorForAtomicRanges
  cases hf : ranges.find? fun r => decide (Span.Inside n r) with
  | none => exact ⟨hn, fun r hr => by simpa using find?_eq_none.mp hf r hr⟩
  | some r =>
    have hr := mem_of_find?_eq_some hf
    simp only
    split
    · exact h.stop_start hr
    · exact h.stop_stop hr

/-! ## The replaced range -/

/-- The range a replacement really covers; none when the loop that grows it
over the atomic ranges would not end within one round for each byte. -/
def normalizeReplacementRange (u : Unicode) (text : Text) (range : ByteRange)
    (ranges : List ByteRange) : Option ByteRange :=
  let rawStart := min (min range.start range.stop) (byteLen text)
  let rawEnd := min (max range.start range.stop) (byteLen text)
  if rawStart = rawEnd then
    let cursor := normalizeExternalCursor u text rawStart
    let cursor := normalizeCursorForAtomicRanges cursor ranges
    some ⟨cursor, cursor⟩
  else
    Span.expand ranges (byteLen text + 1)
      ⟨floorGraphemeBoundary u text rawStart, ceilGraphemeBoundary u text rawEnd⟩

theorem Atomic.normalizeReplacementRange_spec (h : Atomic u text ranges) (range : ByteRange) :
    ∃ e, normalizeReplacementRange u text range ranges = some e ∧ e.start ≤ e.stop ∧
      Stop u text ranges e.start ∧ Stop u text ranges e.stop := by
  unfold normalizeReplacementRange
  simp only
  split
  · have hstop := h.stop_normalizeCursor (isBoundary_normalizeExternalCursor u text
      (min (min range.start range.stop) (byteLen text)))
    exact ⟨_, rfl, le_rfl, hstop, hstop⟩
  · rename_i hne
    have hfloor := floorGraphemeBoundary_spec u text (min (min range.start range.stop) (byteLen text))
    have hceil := ceilGraphemeBoundary_spec u text (min (max range.start range.stop) (byteLen text))
    obtain ⟨e, he⟩ := Span.exists_expand (byteLen text) (byteLen text + 1)
      (fun r hr => (h.boundary r hr).2.le_byteLen)
      (⟨floorGraphemeBoundary u text (min (min range.start range.stop) (byteLen text)),
        ceilGraphemeBoundary u text (min (max range.start range.stop) (byteLen text))⟩)
      (by simp only; omega) hceil.1.le_byteLen (by omega)
    obtain ⟨hends, hgrow, hresp⟩ :=
      Span.expand_spec (P := IsBoundary u text) h.boundary ⟨hfloor.1, hceil.1⟩ he
    simp only at hgrow
    have hle : e.start ≤ e.stop := by omega
    refine ⟨e, he, hle, ⟨hends.1, fun r hr => ?_⟩, ⟨hends.2, fun r hr => ?_⟩⟩
    · exact (Span.not_inside_of_respects hle (hresp r hr)).1
    · exact (Span.not_inside_of_respects hle (hresp r hr)).2

/-! ## Neighbouring stops -/

def previousAtomicBoundary (u : Unicode) (text : Text) (byte : Nat) (ranges : List ByteRange) :
    Nat :=
  match ranges.find? fun r => decide (r.start < byte ∧ byte ≤ r.stop) with
  | some r => r.start
  | none =>
    let boundary := previousGraphemeBoundary u text byte
    match ranges.find? fun r => decide (Span.Inside boundary r) with
    | some r => r.start
    | none => boundary

def nextAtomicBoundary (u : Unicode) (text : Text) (byte : Nat) (ranges : List ByteRange) : Nat :=
  match ranges.find? fun r => decide (r.start ≤ byte ∧ byte < r.stop) with
  | some r => r.stop
  | none =>
    let boundary := nextGraphemeBoundary u text byte
    match ranges.find? fun r => decide (Span.Inside boundary r) with
    | some r => r.stop
    | none => boundary

def byteIsInsideAtomicRange (byte : Nat) (ranges : List ByteRange) : Bool :=
  ranges.any fun r => decide (r.start ≤ byte ∧ byte < r.stop)

theorem Atomic.previousAtomicBoundary_spec (h : Atomic u text ranges) (hn : n ≤ byteLen text) :
    Stop u text ranges (previousAtomicBoundary u text n ranges) ∧
      (0 < n → previousAtomicBoundary u text n ranges < n) ∧
      previousAtomicBoundary u text n ranges ≤ n := by
  unfold previousAtomicBoundary
  cases hf : ranges.find? fun r => decide (r.start < n ∧ n ≤ r.stop) with
  | some r =>
    have hr := mem_of_find?_eq_some hf
    have hlt := find?_some hf
    simp only [decide_eq_true_eq] at hlt
    exact ⟨h.stop_start hr, fun _ => hlt.1, hlt.1.le⟩
  | none =>
    have hprev := previousGraphemeBoundary_spec u text hn
    have hle : previousGraphemeBoundary u text n ≤ n := by
      rcases Nat.eq_zero_or_pos n with rfl | hpos
      · simp [previousGraphemeBoundary]
      · exact (hprev.2.1 hpos).le
    simp only
    cases hi : ranges.find? fun r => decide (Span.Inside (previousGraphemeBoundary u text n) r) with
    | none =>
      exact ⟨⟨hprev.1, fun r hr => by simpa using find?_eq_none.mp hi r hr⟩, hprev.2.1, hle⟩
    | some r =>
      have hr := mem_of_find?_eq_some hi
      have hin : Span.Inside (previousGraphemeBoundary u text n) r := by simpa using find?_some hi
      have hlt : r.start < n := hin.1.trans_le hle
      exact ⟨h.stop_start hr, fun _ => hlt, hlt.le⟩

theorem Atomic.nextAtomicBoundary_spec (h : Atomic u text ranges) (hn : n ≤ byteLen text) :
    Stop u text ranges (nextAtomicBoundary u text n ranges) ∧
      (n < byteLen text → n < nextAtomicBoundary u text n ranges) ∧
      n ≤ nextAtomicBoundary u text n ranges := by
  unfold nextAtomicBoundary
  cases hf : ranges.find? fun r => decide (r.start ≤ n ∧ n < r.stop) with
  | some r =>
    have hr := mem_of_find?_eq_some hf
    have hlt := find?_some hf
    simp only [decide_eq_true_eq] at hlt
    exact ⟨h.stop_stop hr, fun _ => hlt.2, hlt.2.le⟩
  | none =>
    have hnext := nextGraphemeBoundary_spec u text n
    have hle : n ≤ nextGraphemeBoundary u text n := by
      rcases hn.eq_or_lt with rfl | hlt
      · simp [nextGraphemeBoundary]
      · exact (hnext.2.1 hlt).le
    simp only
    cases hi : ranges.find? fun r => decide (Span.Inside (nextGraphemeBoundary u text n) r) with
    | none =>
      exact ⟨⟨hnext.1, fun r hr => by simpa using find?_eq_none.mp hi r hr⟩, hnext.2.1, hle⟩
    | some r =>
      have hr := mem_of_find?_eq_some hi
      have hin : Span.Inside (nextGraphemeBoundary u text n) r := by simpa using find?_some hi
      have hlt : n < r.stop := hle.trans_lt hin.2
      exact ⟨h.stop_stop hr, fun _ => hlt, hlt.le⟩

end GrokBuild.PromptEditor
