import GrokBuild.PromptEditor.Atomic

/-!
# Word and line walks

Where the word commands and the line commands go. The word walks step from
stop to stop while the class of what they cross stays the same; the line
searches look for a line feed outside every atomic range, byte by byte. Each of
them ends, never slices the text off a character boundary, and returns a stop
on the right side of where it began. For the line searches that is where
`BreaksLines` is needed: the byte before a LF and the byte after it are
positions the cursor may be left at.
-/

namespace GrokBuild.PromptEditor

open TextLines Str ByteText List Option

inductive WordStyle where
  | small
  | whitespaceDelimited
deriving DecidableEq, Repr

/-! ## Word classes -/

inductive WordClass where
  | whitespace
  | word
  | punctuation
  | atomic (index : Nat)
deriving DecidableEq, Repr

variable (u : Unicode)

def wordClass (grapheme : Text) (style : WordStyle) : Option WordClass :=
  match grapheme.head? with
  | none => none
  | some character =>
    if isWhitespace character then some .whitespace
    else if style = .whitespaceDelimited || u.isAlphanumeric character || character == '_' then
      some .word
    else some .punctuation

/-- The class of `text[start..end]`; the outer none is a slice that panics. -/
def atomicWordClass (text : Text) (start stop : Nat) (style : WordStyle)
    (ranges : List ByteRange) : Option (Option WordClass) :=
  match ranges.findIdx? fun r => r.start == start && r.stop == stop with
  | some index =>
    match style with
    | .small => some (some (.atomic index))
    | .whitespaceDelimited => some (some .word)
  | none => (slice text start stop).map fun grapheme => wordClass u grapheme style

/-! ## Word boundaries -/

/-- `while position > 0`: to the stop before, as long as the class of what lies
between is one to go on over. None when a slice panics or the fuel runs out. -/
def walkBack (text : Text) (style : WordStyle) (ranges : List ByteRange)
    (goOn : Option WordClass → Bool) : Nat → Nat → Option Nat
  | 0, _ => none
  | fuel + 1, position =>
    if position > 0 then do
      let previous := previousAtomicBoundary u text position ranges
      let cls ← atomicWordClass u text previous position style ranges
      if goOn cls then walkBack text style ranges goOn fuel previous else some position
    else some position

/-- `while position < self.text.len()`, in the other direction. -/
def walkForward (text : Text) (style : WordStyle) (ranges : List ByteRange)
    (goOn : Option WordClass → Bool) : Nat → Nat → Option Nat
  | 0, _ => none
  | fuel + 1, position =>
    if position < byteLen text then do
      let next := nextAtomicBoundary u text position ranges
      let cls ← atomicWordClass u text position next style ranges
      if goOn cls then walkForward text style ranges goOn fuel next else some position
    else some position

/-- Each round of a walk moves the position, so one round for each byte is
enough. -/
def previousWordBoundary (text : Text) (style : WordStyle) (cursor : Nat)
    (ranges : List ByteRange) : Option Nat := do
  let position ← walkBack u text style ranges (· == some .whitespace) (cursor + 1) cursor
  if position = 0 then some 0
  else do
    let previous := previousAtomicBoundary u text position ranges
    let targetClass ← atomicWordClass u text previous position style ranges
    walkBack u text style ranges (· == targetClass) (position + 1) position

def nextWordBoundary (text : Text) (style : WordStyle) (cursor : Nat)
    (ranges : List ByteRange) : Option Nat := do
  let position ← walkForward u text style ranges (· == some .whitespace)
    (byteLen text - cursor + 1) cursor
  if position = byteLen text then some position
  else do
    let next := nextAtomicBoundary u text position ranges
    let targetClass ← atomicWordClass u text position next style ranges
    walkForward u text style ranges (· == targetClass) (byteLen text - position + 1) position

variable {u} {text : Text} {ranges : List ByteRange} {n : Nat}

theorem exists_atomicWordClass (ranges : List ByteRange) {start stop : Nat} (style : WordStyle)
    (hstart : IsBoundary u text start) (hstop : IsBoundary u text stop) (hle : start ≤ stop) :
    ∃ cls, atomicWordClass u text start stop style ranges = some cls := by
  unfold atomicWordClass
  cases ranges.findIdx? fun r => r.start == start && r.stop == stop with
  | some index => cases style <;> exact ⟨_, rfl⟩
  | none =>
    obtain ⟨g, hg⟩ := exists_slice hle hstart.isCharBoundary hstop.isCharBoundary
    exact ⟨_, by simp [hg]; rfl⟩

theorem Atomic.walkBack_spec (h : Atomic u text ranges) (style : WordStyle)
    (goOn : Option WordClass → Bool) {fuel : Nat} (hn : Stop u text ranges n) (hfuel : n < fuel) :
    ∃ m, walkBack u text style ranges goOn fuel n = some m ∧ Stop u text ranges m ∧ m ≤ n := by
  induction fuel generalizing n with
  | zero => omega
  | succ fuel ih =>
    rw [walkBack]
    split
    · rename_i hpos
      obtain ⟨hprev, hlt, hle⟩ := h.previousAtomicBoundary_spec hn.le_byteLen
      obtain ⟨cls, hcls⟩ := exists_atomicWordClass ranges style hprev.boundary
        hn.boundary hle
      cases hgo : goOn cls with
      | true =>
        have hlt := hlt hpos
        obtain ⟨m, hm, hstop, hmn⟩ := ih hprev (by omega)
        exact ⟨m, by simp [hcls, hgo, hm], hstop, hmn.trans hle⟩
      | false => exact ⟨n, by simp [hcls, hgo], hn, le_rfl⟩
    · exact ⟨n, rfl, hn, le_rfl⟩

theorem Atomic.walkForward_spec (h : Atomic u text ranges) (style : WordStyle)
    (goOn : Option WordClass → Bool) {fuel : Nat} (hn : Stop u text ranges n)
    (hfuel : byteLen text - n < fuel) :
    ∃ m, walkForward u text style ranges goOn fuel n = some m ∧ Stop u text ranges m ∧ n ≤ m := by
  induction fuel generalizing n with
  | zero => omega
  | succ fuel ih =>
    rw [walkForward]
    split
    · rename_i hpos
      obtain ⟨hnext, hlt, hle⟩ := h.nextAtomicBoundary_spec hn.le_byteLen
      obtain ⟨cls, hcls⟩ := exists_atomicWordClass ranges style hn.boundary
        hnext.boundary hle
      cases hgo : goOn cls with
      | true =>
        have hlt := hlt hpos
        obtain ⟨m, hm, hstop, hmn⟩ := ih hnext (by omega)
        exact ⟨m, by simp [hcls, hgo, hm], hstop, hle.trans hmn⟩
      | false => exact ⟨n, by simp [hcls, hgo], hn, le_rfl⟩
    · exact ⟨n, rfl, hn, le_rfl⟩

theorem Atomic.previousWordBoundary_spec (h : Atomic u text ranges) (style : WordStyle)
    (hn : Stop u text ranges n) :
    ∃ m, previousWordBoundary u text style n ranges = some m ∧ Stop u text ranges m ∧ m ≤ n := by
  obtain ⟨p, hp, hpstop, hpn⟩ :=
    h.walkBack_spec style (· == some .whitespace) hn (Nat.lt_succ_self n)
  unfold previousWordBoundary
  rw [hp, bind_eq_bind, bind_some]
  split
  · exact ⟨0, rfl, stop_zero u text ranges, Nat.zero_le n⟩
  · obtain ⟨hprev, -, hle⟩ := h.previousAtomicBoundary_spec hpstop.le_byteLen
    obtain ⟨cls, hcls⟩ := exists_atomicWordClass ranges style hprev.boundary
      hpstop.boundary hle
    obtain ⟨m, hm, hmstop, hmp⟩ := h.walkBack_spec style (· == cls) hpstop (Nat.lt_succ_self p)
    exact ⟨m, by simp [hcls, hm], hmstop, hmp.trans hpn⟩

theorem Atomic.nextWordBoundary_spec (h : Atomic u text ranges) (style : WordStyle)
    (hn : Stop u text ranges n) :
    ∃ m, nextWordBoundary u text style n ranges = some m ∧ Stop u text ranges m ∧ n ≤ m := by
  obtain ⟨p, hp, hpstop, hnp⟩ :=
    h.walkForward_spec style (· == some .whitespace) hn (Nat.lt_succ_self _)
  unfold nextWordBoundary
  rw [hp, bind_eq_bind, bind_some]
  split
  · exact ⟨p, rfl, hpstop, hnp⟩
  · obtain ⟨hnext, -, hle⟩ := h.nextAtomicBoundary_spec hpstop.le_byteLen
    obtain ⟨cls, hcls⟩ := exists_atomicWordClass ranges style hpstop.boundary
      hnext.boundary hle
    obtain ⟨m, hm, hmstop, hpm⟩ := h.walkForward_spec style (· == cls) hpstop (Nat.lt_succ_self _)
    exact ⟨m, by simp [hcls, hm], hmstop, hnp.trans hpm⟩

/-! ## Logical lines -/

/-- A line feed at byte `position`, outside every atomic range. -/
def isLineFeed (text : Text) (ranges : List ByteRange) (position : Nat) : Bool :=
  byteAt text position == some 10 && !byteIsInsideAtomicRange position ranges

def lineStartAt (text : Text) (cursor : Nat) (ranges : List ByteRange) : Nat :=
  let cursor := min cursor (byteLen text)
  match (List.range cursor).reverse.find? (isLineFeed text ranges) with
  | some position => position + 1
  | none => 0

def lineEndFrom (text : Text) (cursor : Nat) (ranges : List ByteRange) : Nat :=
  let cursor := min cursor (byteLen text)
  match (List.range' cursor (byteLen text - cursor)).find? (isLineFeed text ranges) with
  | some lineFeed =>
    if lineFeed > 0 && byteAt text (lineFeed - 1) == some 13 then lineFeed - 1 else lineFeed
  | none => byteLen text

def lineEndingAt (text : Text) (lineEnd : Nat) : Option ByteRange :=
  match slice text lineEnd (byteLen text) with
  | none => none
  | some remaining =>
    if ['\r', '\n'].isPrefixOf remaining then some ⟨lineEnd, lineEnd + 2⟩
    else if ['\n'].isPrefixOf remaining then some ⟨lineEnd, lineEnd + 1⟩
    else none

def logicalLineStartTarget (u : Unicode) (text : Text) (cursor : Nat) (ranges : List ByteRange) :
    Nat :=
  let lineStart := lineStartAt text cursor ranges
  if cursor = lineStart ∧ lineStart > 0 then
    lineStartAt text (previousAtomicBoundary u text lineStart ranges) ranges
  else lineStart

def logicalLineEndTarget (text : Text) (cursor : Nat) (ranges : List ByteRange) : Nat :=
  let lineEnd := lineEndFrom text cursor ranges
  if cursor = lineEnd then
    match lineEndingAt text lineEnd with
    | some range => lineEndFrom text range.stop ranges
    | none => lineEnd
  else lineEnd

/-- The two ends of a line ending that holds the LF at byte `p`. -/
structure LineEnding (u : Unicode) (text : Text) (ranges : List ByteRange) (p lineEnd : Nat) :
    Prop where
  before : Stop u text ranges lineEnd
  after : Stop u text ranges (p + 1)
  length : lineEnd = p ∨ lineEnd + 1 = p ∧ ¬ IsBoundary u text p
  ending : lineEndingAt text lineEnd = some ⟨lineEnd, p + 1⟩

theorem isLineFeed_spec {p : Nat} (h : isLineFeed text ranges p = true) :
    (∃ pre post, text = pre ++ '\n' :: post ∧ byteLen pre = p) ∧
      ∀ r ∈ ranges, r.start ≤ p → r.stop ≤ p := by
  simp only [isLineFeed, Bool.and_eq_true, beq_iff_eq, Bool.not_eq_true',
    byteIsInsideAtomicRange, List.any_eq_false, decide_eq_true_eq, not_and, not_lt] at h
  exact ⟨(byteAt_eq_ascii (c := '\n') (by decide)).mp h.1, h.2⟩

/-- The position a line search settles on for a LF it found: before the CR of a
CR LF, and else at the LF. -/
theorem Atomic.lineEnding (h : Atomic u text ranges) (hu : BreaksLines u) {p : Nat}
    (hp : isLineFeed text ranges p = true) :
    LineEnding u text ranges p
      (if p > 0 && byteAt text (p - 1) == some 13 then p - 1 else p) := by
  obtain ⟨⟨pre, post, rfl, rfl⟩, hout⟩ := isLineFeed_spec hp
  by_cases hcr : pre.getLast? = some '\r'
  · obtain ⟨init, rfl⟩ := getLast?_eq_some_iff.mp hcr
    have hlen : byteLen (init ++ ['\r']) = byteLen init + 1 := by simp
    simp only [append_assoc, singleton_append, hlen] at h hout ⊢
    have hbyte : byteAt (init ++ '\r' :: '\n' :: post) (byteLen init) = some 13 :=
      (byteAt_eq_ascii (c := '\r') (by decide)).mpr ⟨init, '\n' :: post, rfl, rfl⟩
    simp only [Nat.add_sub_cancel, hbyte, beq_self_eq_true, Bool.and_true, gt_iff_lt,
      Nat.zero_lt_succ, decide_true, if_true]
    have hsplit := hu.crlf init post
    have haround := hu.around init post
    refine ⟨⟨haround.1, fun r hr hin => ?_⟩, ⟨haround.2, fun r hr hin => ?_⟩, Or.inr ⟨rfl, hsplit⟩,
      ?_⟩
    · -- a range over the CR goes on past the LF, as it cannot end between the two
      have hne : r.stop ≠ byteLen init + 1 := fun heq => hsplit (heq ▸ (h.boundary r hr).2)
      have := hout r hr (by have := hin.1; omega)
      have := hin.2
      omega
    · have hne : r.start ≠ byteLen init + 1 := fun heq => hsplit (heq ▸ (h.boundary r hr).1)
      have := hout r hr (by have := hin.1; omega)
      have := hin.2
      omega
    · have hslice := slice_append init ('\r' :: '\n' :: post) []
      simp only [append_nil] at hslice
      rw [lineEndingAt, byteLen_append, hslice]
      simp [List.isPrefixOf]
  · have hbyte : ¬ (byteLen pre > 0 && byteAt (pre ++ '\n' :: post) (byteLen pre - 1) == some 13) := by
      simp only [Bool.and_eq_true, beq_iff_eq, decide_eq_true_eq, not_and]
      intro hpos hb
      obtain ⟨a, b, heq, hlen⟩ := (byteAt_eq_ascii (c := '\r') (by decide)).mp hb
      -- the CR just before the LF would be the last character of `pre`
      obtain ⟨m, rfl, hm⟩ := prefix_of_byteLen_le heq.symm (by omega)
      cases m with
      | nil =>
        simp only [append_nil] at hlen hpos
        omega
      | cons d m =>
        obtain ⟨rfl, rfl⟩ : '\r' = d ∧ b = m ++ '\n' :: post := by simpa using hm
        have hm0 : byteLen m = 0 := by
          simp only [byteLen_append, byteLen_cons, utf8Size_cr] at hlen hpos
          omega
        obtain rfl := byteLen_eq_zero.mp hm0
        simp at hcr
    rw [if_neg hbyte]
    have hlf := hu.lf pre post hcr
    refine ⟨⟨hlf.1, fun r hr hin => ?_⟩, ⟨hlf.2, fun r hr hin => ?_⟩, Or.inl rfl, ?_⟩
    · have := hout r hr (by have := hin.1; omega)
      have := hin.2
      omega
    · have := hout r hr (by have := hin.1; omega)
      have := hin.2
      omega
    · have hslice := slice_append pre ('\n' :: post) []
      simp only [append_nil] at hslice
      rw [lineEndingAt, byteLen_append, hslice]
      simp [List.isPrefixOf]

theorem Atomic.lineStartAt_spec (h : Atomic u text ranges) (hu : BreaksLines u)
    (hn : n ≤ byteLen text) :
    Stop u text ranges (lineStartAt text n ranges) ∧ lineStartAt text n ranges ≤ n := by
  unfold lineStartAt
  simp only [min_eq_left hn]
  cases hf : (List.range n).reverse.find? (isLineFeed text ranges) with
  | none => exact ⟨stop_zero u text ranges, Nat.zero_le n⟩
  | some p =>
    have hp : p < n := by simpa using mem_of_find?_eq_some hf
    exact ⟨(h.lineEnding hu (find?_some hf)).after, hp⟩

/-- The end of the line from `n` on: the end of the text, or a line ending at
or after `n`. -/
theorem Atomic.lineEndFrom_cases (h : Atomic u text ranges) (hu : BreaksLines u)
    (hn : IsBoundary u text n) :
    lineEndFrom text n ranges = byteLen text ∨
      ∃ p, n ≤ lineEndFrom text n ranges ∧
        LineEnding u text ranges p (lineEndFrom text n ranges) := by
  unfold lineEndFrom
  simp only [min_eq_left hn.le_byteLen]
  cases hf : (List.range' n (byteLen text - n)).find? (isLineFeed text ranges) with
  | none => exact Or.inl rfl
  | some p =>
    have hp : n ≤ p := by
      have := mem_range'_1.mp (mem_of_find?_eq_some hf)
      omega
    have hend := h.lineEnding hu (find?_some hf)
    refine Or.inr ⟨p, ?_, hend⟩
    -- a cursor cannot stand between the CR and the LF
    rcases hend.length with heq | ⟨heq, hsplit⟩
    · simp only
      omega
    · have : n ≠ p := fun hnp => hsplit (hnp ▸ hn)
      simp only
      omega

theorem Atomic.lineEndFrom_spec (h : Atomic u text ranges) (hu : BreaksLines u)
    (hn : IsBoundary u text n) :
    Stop u text ranges (lineEndFrom text n ranges) ∧ n ≤ lineEndFrom text n ranges := by
  rcases h.lineEndFrom_cases hu hn with heq | ⟨p, hle, hend⟩
  · rw [heq]
    exact ⟨h.stop_byteLen, hn.le_byteLen⟩
  · exact ⟨hend.before, hle⟩

theorem Atomic.lineEndingAt_spec (h : Atomic u text ranges) (hu : BreaksLines u)
    (hn : IsBoundary u text n) {range : ByteRange}
    (hr : lineEndingAt text (lineEndFrom text n ranges) = some range) :
    Stop u text ranges range.stop ∧ lineEndFrom text n ranges ≤ range.stop := by
  rcases h.lineEndFrom_cases hu hn with heq | ⟨p, -, hend⟩
  · rw [heq, lineEndingAt, slice_self (isCharBoundary_byteLen text)] at hr
    simp [List.isPrefixOf] at hr
  · rw [hend.ending] at hr
    obtain rfl := some.inj hr
    refine ⟨hend.after, ?_⟩
    rcases hend.length with heq | ⟨heq, -⟩ <;> simp only <;> omega

theorem Atomic.logicalLineStartTarget_spec (h : Atomic u text ranges) (hu : BreaksLines u)
    (hn : n ≤ byteLen text) : Stop u text ranges (logicalLineStartTarget u text n ranges) := by
  unfold logicalLineStartTarget
  simp only
  have hline := h.lineStartAt_spec hu hn
  split
  · have hprev := h.previousAtomicBoundary_spec hline.1.le_byteLen
    exact (h.lineStartAt_spec hu hprev.1.le_byteLen).1
  · exact hline.1

theorem Atomic.logicalLineEndTarget_spec (h : Atomic u text ranges) (hu : BreaksLines u)
    (hn : IsBoundary u text n) : Stop u text ranges (logicalLineEndTarget text n ranges) := by
  unfold logicalLineEndTarget
  simp only
  split
  · cases hr : lineEndingAt text (lineEndFrom text n ranges) with
    | some range => exact (h.lineEndFrom_spec hu (h.lineEndingAt_spec hu hn hr).1.boundary).1
    | none => exact (h.lineEndFrom_spec hu hn).1
  · exact (h.lineEndFrom_spec hu hn).1

end GrokBuild.PromptEditor
