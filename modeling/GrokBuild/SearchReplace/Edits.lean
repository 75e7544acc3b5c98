import GrokBuild.Lib.ByteText
import GrokBuild.Lib.WholeLines

/-!
# Edit details

What the search-and-replace tool reports about the edits it made: the new text
with the positions of the replacements (`replaceUsingPositions`), and for each of
them its lines and the whole lines around it (`buildEditDetails`). A text with
matches falls into the texts between them, `segments` and `tail`; the details
are about what stands in front of a match in the old text and of its replacement
in the new one (`DetailFor`). A function returns none where the source panics.
-/

namespace GrokBuild.SearchReplace

open TextLines Str ByteText WholeLines List Option

/-- Addition of `usize`s, none where it overflows. -/
def addUsize (a b : Nat) : Option Nat := if a + b < 2 ^ 64 then some (a + b) else none

/-- `&lines[start..stop]`. -/
def linesBetween (lines : List Text) (start stop : Nat) : Option (List Text) :=
  if start ≤ stop ∧ stop ≤ lines.length then some ((lines.take stop).drop start) else none

/-- 0-based inclusive start and end line indices. -/
structure LineRange where
  startLine : Nat
  endLine : Nat
deriving DecidableEq, Repr

/-- The line range of the inserted text in the text. -/
def computeLineRange (text : Text) (startPos : Nat) (insertedText : Text) : Option LineRange := do
  let front ← slice text 0 startPos
  let startLine := front.count '\n'
  let linesInInserted := max (splitInclusive '\n' insertedText).length 1
  some ⟨startLine, startLine + linesInInserted - 1⟩

/-- A snippet of the file with line numbers around the edit, and the lines before
and after it. -/
def renderSnippet (newText newString : Text) (startPos contextSize : Nat) :
    Option (Text × Text × Text) := do
  let range ← computeLineRange newText startPos newString
  let lines := splitInclusive '\n' newText
  let snippetStart := range.startLine - contextSize
  let reach ← addUsize range.endLine contextSize
  let snippetEnd := min reach (lines.length - 1)
  let beforeContext ← (if snippetStart < range.startLine
    then linesBetween lines snippetStart range.startLine else some [])
  let afterContext ← (if range.endLine < snippetEnd
    then linesBetween lines (range.endLine + 1) (snippetEnd + 1) else some [])
  let shown ← (if snippetStart ≤ snippetEnd then some (snippetEnd - snippetStart + 1) else none)
  let numbered := lines.zipIdx.map fun (line, i) => (toString (i + 1)).toList ++ '→' :: line
  some (((numbered.drop snippetStart).take shown).flatten, beforeContext.flatten,
    afterContext.flatten)

/-- The loop of `replace_using_positions`. -/
def replaceFrom (text oldString newString : Text) :
    List Nat → Nat → Text → List Nat → Option (Text × List Nat)
  | [], lastEnd, newText, newPositions => do
    let rest ← slice text lastEnd (byteLen text)
    some (newText ++ rest, newPositions)
  | pos :: positions, lastEnd, newText, newPositions => do
    let between ← slice text lastEnd pos
    let newText := newText ++ between
    replaceFrom text oldString newString positions (pos + byteLen oldString) (newText ++ newString)
      (newPositions ++ [byteLen newText])

/-- Replace text at specific positions and return new text with new positions. -/
def replaceUsingPositions (text : Text) (matchPositions : List Nat) (oldString newString : Text) :
    Option (Text × List Nat) :=
  replaceFrom text oldString newString matchPositions 0 [] []

structure SearchReplaceEditDetail where
  oldString : Text
  oldLine : Nat
  newString : Text
  newLine : Nat
  contextBefore : Text
  contextAfter : Text
  linePrefix : Text
deriving DecidableEq, Repr

/-- `rfind('\n')`: the byte offset of the last newline. -/
def rfindNewline : Text → Option Nat
  | [] => none
  | c :: s =>
    match rfindNewline s with
    | some i => some (i + c.utf8Size)
    | none => if c = '\n' then some 0 else none

def buildEditDetail (newText oldString newString : Text) (contextLines startPos : Nat) :
    Option SearchReplaceEditDetail := do
  let (_, contextBefore, contextAfter) ← renderSnippet newText newString startPos contextLines
  let lineRangeNew ← computeLineRange newText startPos newString
  let front ← slice newText 0 startPos
  let lineStart := ((rfindNewline front).map (· + 1)).getD 0
  let linePrefix ← slice newText lineStart startPos
  some {
    oldString
    oldLine := lineRangeNew.startLine + 1
    newString
    newLine := lineRangeNew.startLine + 1
    contextBefore
    contextAfter
    linePrefix }

/-- Edit details for each replacement. -/
def buildEditDetails (newText oldString newString : Text) (newPositions : List Nat)
    (contextLines : Nat) : Option (List SearchReplaceEditDetail) :=
  newPositions.mapM (buildEditDetail newText oldString newString contextLines)

/-! ## Texts with matches -/

/-- The texts between the matches, put together around the string `s`. -/
def render (s : Text) : List Text → Text → Text
  | [], tail => tail
  | seg :: segments, tail => seg ++ s ++ render s segments tail

/-- Where the strings start, behind `offset` bytes. -/
def offsets (s : Text) : Nat → List Text → List Nat
  | _, [] => []
  | offset, seg :: segments =>
    (offset + byteLen seg) :: offsets s (offset + byteLen seg + byteLen s) segments

/-- The text between the matches, behind the last one, and where they are. -/
structure Cut (text oldString : Text) (positions : List Nat) (segments : List Text) (tail : Text) :
    Prop where
  text : text = render oldString segments tail
  positions : positions = offsets oldString 0 segments

/-- Increasing positions of non-overlapping occurrences. -/
structure Matches (text oldString : Text) (positions : List Nat) : Prop where
  occurs : ∀ p ∈ positions, slice text p (p + byteLen oldString) = some oldString
  apart : positions.Pairwise fun p q => p < q ∧ p + byteLen oldString ≤ q

/-- The last `k` of some lines. -/
def lastLines (k : Nat) (lines : List Text) : List Text := lines.drop (lines.length - k)

/-- `rest` is what the last line of the inserted text has behind it, with what is
`below`. -/
def EndsLine (inserted rest below : Text) : Prop :=
  if inserted.getLast? = some '\n' then rest = []
  else ∃ a, '\n' ∉ a ∧ (rest = a ++ ['\n'] ∨ rest = a ∧ below = [])

/-- What the detail of a replacement is to say, with what stands in front of the
match and of the replacement, and behind the replacement. -/
structure DetailFor (oldString newString : Text) (contextLines : Nat) (oldFront front behind : Text)
    (d : SearchReplaceEditDetail) : Prop where
  old : d.oldString = oldString
  new : d.newString = newString
  oldLine : d.oldLine = oldFront.count '\n' + 1
  newLine : d.newLine = front.count '\n' + 1
  before : ∃ above, front = above ++ d.linePrefix ∧ '\n' ∉ d.linePrefix ∧ Ended '\n' above ∧
    d.contextBefore = (lastLines contextLines (splitInclusive '\n' above)).flatten
  after : ∃ rest below, behind = rest ++ below ∧ EndsLine newString rest below ∧
    d.contextAfter = ((splitInclusive '\n' below).take contextLines).flatten

/-- One detail for each match, in order. -/
def Right (oldString newString : Text) (contextLines : Nat) (tail : Text) :
    Text → Text → List Text → List SearchReplaceEditDetail → Prop
  | _, _, [], details => details = []
  | oldFront, front, seg :: segments, details => ∃ d rest, details = d :: rest ∧
    DetailFor oldString newString contextLines (oldFront ++ seg) (front ++ seg)
      (render newString segments tail) d ∧
    Right oldString newString contextLines tail (oldFront ++ seg ++ oldString)
      (front ++ seg ++ newString) segments rest

variable {text oldString newString front behind tail : Text} {segments : List Text}
  {positions : List Nat} {contextLines : Nat}

/-! ## Replacing -/

theorem exists_segments {pre post : Text} (htext : text = pre ++ post)
    (hfrom : ∀ p ∈ positions, byteLen pre ≤ p) (h : Matches text oldString positions) :
    ∃ segments tail, post = render oldString segments tail ∧
      positions = offsets oldString (byteLen pre) segments := by
  induction positions generalizing pre post with
  | nil => exact ⟨[], post, rfl, rfl⟩
  | cons p positions ih =>
    obtain ⟨hoccurs, hrest⟩ := forall_mem_cons.mp h.occurs
    obtain ⟨hfirst, hapart⟩ := pairwise_cons.mp h.apart
    obtain ⟨before, behind, htext', hp, -⟩ := append_of_slice hoccurs
    have hsplit : pre ++ post = before ++ (oldString ++ behind) := by
      rw [← htext, htext', append_assoc]
    obtain ⟨seg, rfl, rfl⟩ := prefix_of_byteLen_le hsplit (by
      rw [hp]
      exact hfrom p mem_cons_self)
    have hpos : p = byteLen pre + byteLen seg := by rw [← hp, byteLen_append]
    obtain ⟨segments, tail, rfl, hpositions⟩ :=
      ih (by rw [htext'])
        (fun q hq => by
          have hq := (hfirst q hq).2
          rw [byteLen_append, byteLen_append]
          omega)
        ⟨hrest, hapart⟩
    refine ⟨seg :: segments, tail, by rw [render, append_assoc], ?_⟩
    rw [offsets, ← hpos, hpositions, byteLen_append, byteLen_append, hpos]

theorem replaceFrom_render (newText : Text) (newPositions : List Nat) {pre : Text}
    (htext : text = pre ++ render oldString segments tail) :
    replaceFrom text oldString newString (offsets oldString (byteLen pre) segments) (byteLen pre)
        newText newPositions =
      some (newText ++ render newString segments tail,
        newPositions ++ offsets newString (byteLen newText) segments) := by
  induction segments generalizing pre newText newPositions with
  | nil =>
    have hslice := slice_append pre tail []
    rw [append_nil, ← byteLen_append] at hslice
    have htail : text = pre ++ tail := htext
    rw [offsets, replaceFrom, htail, hslice, bind_eq_bind, bind_some, offsets,
      append_nil]
    rfl
  | cons seg segments ih =>
    have hslice := slice_append pre seg (oldString ++ render oldString segments tail)
    have htext' : text = pre ++ seg ++ (oldString ++ render oldString segments tail) := by
      rw [htext, render, append_assoc, append_assoc]
    have hlen : byteLen pre + byteLen seg + byteLen oldString = byteLen (pre ++ seg ++ oldString) := by
      rw [byteLen_append, byteLen_append]
    rw [← htext'] at hslice
    rw [offsets, replaceFrom, hslice, bind_eq_bind, bind_some, hlen,
      ih _ _ (by rw [htext', append_assoc (pre ++ seg)])]
    simp only [render, offsets, byteLen_append, append_assoc, cons_append, nil_append,
      Nat.add_assoc]

/-! ## The lines around a replacement -/

variable {line : Text}

theorem rfindNewline_eq_none (h : '\n' ∉ line) : rfindNewline line = none := by
  induction line with
  | nil => rfl
  | cons c line ih =>
    rw [mem_cons, not_or] at h
    rw [rfindNewline, ih h.2]
    exact if_neg (Ne.symm h.1)

variable {above : Text}

theorem rfindNewline_append (habove : Ended '\n' above) (hline : '\n' ∉ line) :
    ((rfindNewline (above ++ line)).map (· + 1)).getD 0 = byteLen above := by
  rcases habove with rfl | habove
  · rw [nil_append, rfindNewline_eq_none hline]
    rfl
  · obtain ⟨front, rfl⟩ := getLast?_eq_some_iff.mp habove
    have hfind : rfindNewline (front ++ ['\n'] ++ line) = some (byteLen front) := by
      induction front with
      | nil =>
        rw [nil_append, cons_append, nil_append, rfindNewline,
          rfindNewline_eq_none hline]
        rfl
      | cons c front ih =>
        rw [cons_append, cons_append, rfindNewline, ih (getLast?_concat ..)]
        rw [byteLen_cons, Nat.add_comm]
    rw [hfind, byteLen_append]
    rfl

theorem slice_front (front rest : Text) : slice (front ++ rest) 0 (byteLen front) = some front := by
  have hslice := slice_append [] front rest
  rwa [nil_append, byteLen_nil, Nat.zero_add] at hslice

theorem computeLineRange_eq (front rest inserted : Text) :
    computeLineRange (front ++ rest) (byteLen front) inserted =
      some ⟨front.count '\n', front.count '\n' + inserted.dropLast.count '\n'⟩ := by
  have hlen : max (splitInclusive '\n' inserted).length 1 = inserted.dropLast.count '\n' + 1 := by
    by_cases hnil : inserted = []
    · subst hnil
      rfl
    · rw [length_splitInclusive hnil, Nat.max_eq_left (by omega)]
  rw [computeLineRange, slice_front, bind_eq_bind, bind_some, hlen]
  rfl

theorem exists_endsLine (inserted behind : Text) :
    ∃ rest below, behind = rest ++ below ∧ EndsLine inserted rest below := by
  by_cases hends : inserted.getLast? = some '\n'
  · exact ⟨[], behind, rfl, (if_pos hends).mpr rfl⟩
  · obtain ⟨rest, below, hsplit, hline⟩ := exists_firstLine '\n' behind
    refine ⟨rest, below, hsplit, ?_⟩
    rw [EndsLine, if_neg hends]
    exact hline

theorem count_dropLast_of_ne {s : Text} (h : s.getLast? ≠ some '\n') :
    s.dropLast.count '\n' = s.count '\n' := by
  rcases eq_nil_or_concat' s with rfl | ⟨a, c, rfl⟩
  · rfl
  · have hc : c ≠ '\n' := by
      rintro rfl
      exact h (getLast?_concat ..)
    rw [dropLast_concat, List.count_append, count_singleton, if_neg (by simpa using hc),
      Nat.add_zero]

/-- The lines of the inserted text, with what its first and last line have beside
it, stand apart from those above and below. -/
theorem lines_around {inserted rest below : Text} (habove : Ended '\n' above) (hline : '\n' ∉ line)
    (hends : EndsLine inserted rest below) :
    ∃ mid, splitInclusive '\n' (above ++ line ++ inserted ++ (rest ++ below)) =
        splitInclusive '\n' above ++ (mid ++ splitInclusive '\n' below) ∧
      (mid.length = inserted.dropLast.count '\n' + 1 ∨
        mid.length = 0 ∧ below = [] ∧ inserted.dropLast.count '\n' = 0) := by
  have hcount : line.count '\n' = 0 := List.count_eq_zero.mpr hline
  have hassoc : above ++ line ++ inserted ++ (rest ++ below) =
      above ++ (line ++ inserted ++ rest ++ below) := by
    simp only [append_assoc]
  rw [hassoc, splitInclusive_append habove]
  rw [EndsLine] at hends
  split at hends
  · -- the inserted text ends its last line itself
    rename_i hlast
    subst hends
    obtain ⟨a, rfl⟩ := getLast?_eq_some_iff.mp hlast
    have hended : Ended '\n' (line ++ (a ++ ['\n']) ++ []) := by
      right
      rw [append_nil, ← append_assoc, getLast?_concat]
    refine ⟨_, congrArg _ (splitInclusive_append hended below), .inl ?_⟩
    rw [length_splitInclusive_of_ended hended]
    simp [hcount]
  · rename_i hlast
    have hinserted := count_dropLast_of_ne hlast
    obtain ⟨a, ha, rfl | ⟨rfl, rfl⟩⟩ := hends
    · have hended : Ended '\n' (line ++ inserted ++ (a ++ ['\n'])) := by
        right
        rw [← append_assoc, getLast?_concat]
      refine ⟨_, congrArg _ (splitInclusive_append hended below), .inl ?_⟩
      rw [length_splitInclusive_of_ended hended, hinserted]
      simp [hcount, List.count_eq_zero.mpr ha]
    · refine ⟨splitInclusive '\n' (line ++ inserted ++ rest), ?_, ?_⟩
      · rw [append_nil, splitInclusive_nil, append_nil]
      · have hrest : rest.count '\n' = 0 := List.count_eq_zero.mpr ha
        by_cases hnil : line ++ inserted ++ rest = []
        · have hempty : inserted = [] := by
            simp only [append_eq_nil_iff] at hnil
            exact hnil.1.2
          exact .inr ⟨by rw [hnil]; rfl, rfl, by rw [hempty]; rfl⟩
        · left
          have hlast' : (line ++ inserted ++ rest).getLast? ≠ some '\n' := by
            intro hlf
            rw [getLast?_append, getLast?_append] at hlf
            rcases or_eq_some_iff.mp hlf with hlf | ⟨-, hlf⟩
            · exact ha (mem_of_getLast? hlf)
            · rcases or_eq_some_iff.mp hlf with hlf | ⟨-, hlf⟩
              · exact hlast hlf
              · exact hline (mem_of_getLast? hlf)
          rw [length_splitInclusive hnil, count_dropLast_of_ne hlast', hinserted]
          simp [hcount, hrest]

theorem linesBetween_append {xs ys : List Text} {stop k : Nat}
    (hstop : stop = min (xs.length + k) (xs.length + ys.length)) :
    linesBetween (xs ++ ys) xs.length stop = some (ys.take k) := by
  rw [linesBetween, if_pos (by rw [length_append]; omega), drop_take, drop_left]
  have hcut : ys.take (stop - xs.length) = ys.take k := by
    rw [take_eq_take_iff]
    omega
  rw [hcut]

theorem linesBetween_last (xs ys : List Text) (k : Nat) :
    linesBetween (xs ++ ys) (xs.length - k) xs.length = some (lastLines k xs) := by
  rw [linesBetween, if_pos (by rw [length_append]; omega), take_left]
  rfl

theorem renderSnippet_eq {inserted rest below : Text} (hcontext : 1 ≤ contextLines)
    (habove : Ended '\n' above) (hline : '\n' ∉ line) (hends : EndsLine inserted rest below)
    (hfit : (above ++ line).count '\n' + inserted.dropLast.count '\n' + contextLines < 2 ^ 64) :
    ∃ snippet, renderSnippet (above ++ line ++ inserted ++ (rest ++ below)) inserted
        (byteLen (above ++ line)) contextLines =
      some (snippet, (lastLines contextLines (splitInclusive '\n' above)).flatten,
        ((splitInclusive '\n' below).take contextLines).flatten) := by
  obtain ⟨mid, hlines, hmid⟩ := lines_around habove hline hends
  have hcount : (above ++ line).count '\n' = (splitInclusive '\n' above).length := by
    rw [List.count_append, List.count_eq_zero.mpr hline, length_splitInclusive_of_ended habove]
    rfl
  generalize splitInclusive '\n' above = first at *
  have hbelow : mid.length = 0 → splitInclusive '\n' below = [] := by
    intro hnil
    rcases hmid with hmid | ⟨-, rfl, -⟩
    · omega
    · rfl
  generalize splitInclusive '\n' below = last at *
  have hassoc : above ++ line ++ inserted ++ (rest ++ below) =
      (above ++ line) ++ (inserted ++ (rest ++ below)) := by
    rw [append_assoc (above ++ line)]
  have hrange := computeLineRange_eq (above ++ line) (inserted ++ (rest ++ below)) inserted
  rw [← hassoc, hcount] at hrange
  rw [hcount] at hfit
  have htotal : (first ++ (mid ++ last)).length = first.length + (mid.length + last.length) := by
    rw [length_append, length_append]
  have hlast : mid.length = 0 → last.length = 0 := fun hnil => by rw [hbelow hnil]; rfl
  rw [renderSnippet, hrange]
  simp only [bind_eq_bind, bind_some, hlines, addUsize, if_pos hfit, htotal]
  -- the lines before
  have hbefore : (if first.length - contextLines < first.length
      then linesBetween (first ++ (mid ++ last)) (first.length - contextLines) first.length
      else some []) = some (lastLines contextLines first) := by
    by_cases hnil : first.length = 0
    · rw [if_neg (by omega), length_eq_zero_iff.mp hnil, lastLines, drop_nil]
    · rw [if_pos (by omega), linesBetween_last]
  have hafter : (if first.length + inserted.dropLast.count '\n' <
        min (first.length + inserted.dropLast.count '\n' + contextLines)
          (first.length + (mid.length + last.length) - 1)
      then linesBetween (first ++ (mid ++ last))
        (first.length + inserted.dropLast.count '\n' + 1)
        (min (first.length + inserted.dropLast.count '\n' + contextLines)
          (first.length + (mid.length + last.length) - 1) + 1)
      else some []) = some (last.take contextLines) := by
    by_cases hnil : last.length = 0
    · rw [if_neg (by omega), length_eq_zero_iff.mp hnil, take_nil]
    · have hfirst : first.length + inserted.dropLast.count '\n' + 1 = (first ++ mid).length := by
        rw [length_append]
        omega
      rw [if_pos (by omega), hfirst, ← append_assoc]
      apply linesBetween_append
      rw [length_append]
      omega
  rw [hbefore, hafter, bind_some, bind_some, if_pos (by omega), bind_some]
  exact ⟨_, rfl⟩

/-! ## Details -/

/-- The number of the replacement's last line and the context fit a `usize`. -/
def LineFits (newString : Text) (contextLines : Nat) (front : Text) : Prop :=
  front.count '\n' + newString.dropLast.count '\n' + contextLines < 2 ^ 64

/-- The detail of a replacement is right but for `old_line`, which is that of the
new text. -/
theorem buildEditDetail_spec (hcontext : 1 ≤ contextLines)
    (hfit : LineFits newString contextLines front) :
    ∃ d, buildEditDetail (front ++ newString ++ behind) oldString newString contextLines
        (byteLen front) = some d ∧
      DetailFor oldString newString contextLines front front behind d := by
  obtain ⟨above, line, rfl, hline, habove⟩ := exists_lastLine '\n' front
  obtain ⟨rest, below, rfl, hends⟩ := exists_endsLine newString behind
  obtain ⟨snippet, hsnippet⟩ := renderSnippet_eq hcontext habove hline hends hfit
  have hassoc : above ++ line ++ newString ++ (rest ++ below) =
      (above ++ line) ++ (newString ++ (rest ++ below)) := by
    rw [append_assoc (above ++ line)]
  have hrange := computeLineRange_eq (above ++ line) (newString ++ (rest ++ below)) newString
  have hfront := slice_front (above ++ line) (newString ++ (rest ++ below))
  have hpre := slice_append above line (newString ++ (rest ++ below))
  rw [← hassoc] at hrange hfront hpre
  rw [← byteLen_append] at hpre
  refine ⟨{
      oldString
      oldLine := (above ++ line).count '\n' + 1
      newString
      newLine := (above ++ line).count '\n' + 1
      contextBefore := (lastLines contextLines (splitInclusive '\n' above)).flatten
      contextAfter := ((splitInclusive '\n' below).take contextLines).flatten
      linePrefix := line }, ?_,
    ⟨rfl, rfl, rfl, rfl, ⟨above, rfl, hline, habove, rfl⟩, rest, below, rfl, hends, rfl⟩⟩
  rw [buildEditDetail, hsnippet, hrange, hfront]
  simp only [bind_eq_bind, bind_some, rfindNewline_append habove hline, hpre]

theorem buildEditDetail_none (hfit : ¬ LineFits newString contextLines front) :
    buildEditDetail (front ++ newString ++ behind) oldString newString contextLines
      (byteLen front) = none := by
  have hrange := computeLineRange_eq front (newString ++ behind) newString
  rw [← append_assoc] at hrange
  rw [LineFits] at hfit
  rw [buildEditDetail, renderSnippet, hrange]
  simp only [bind_eq_bind, bind_some, addUsize, if_neg hfit, bind_none]

variable {oldFront : Text}

theorem DetailFor.old_line {d : SearchReplaceEditDetail}
    (h : DetailFor oldString newString contextLines front front behind d) :
    DetailFor oldString newString contextLines oldFront front behind d ↔
      oldFront.count '\n' = front.count '\n' := by
  constructor
  · intro h'
    have hline := h'.oldLine
    rw [h.oldLine] at hline
    omega
  · intro heq
    exact { h with oldLine := by rw [h.oldLine, heq] }

/-- Every line number of the replacements fits. -/
def LinesFit (newString : Text) (contextLines : Nat) : Text → List Text → Prop
  | _, [] => True
  | front, seg :: segments => LineFits newString contextLines (front ++ seg) ∧
    LinesFit newString contextLines (front ++ seg ++ newString) segments

/-- In front of every match there are as many lines in the old text as in the new. -/
def Level (oldString newString : Text) : Text → Text → List Text → Prop
  | _, _, [] => True
  | oldFront, front, seg :: segments => (oldFront ++ seg).count '\n' = (front ++ seg).count '\n' ∧
    Level oldString newString (oldFront ++ seg ++ oldString) (front ++ seg ++ newString) segments

theorem details_iff (hcontext : 1 ≤ contextLines) :
    (∃ details, buildEditDetails (front ++ render newString segments tail) oldString newString
        (offsets newString (byteLen front) segments) contextLines = some details ∧
      Right oldString newString contextLines tail oldFront front segments details) ↔
    Level oldString newString oldFront front segments ∧
      LinesFit newString contextLines front segments := by
  induction segments generalizing front oldFront with
  | nil => exact ⟨fun _ => ⟨trivial, trivial⟩, fun _ => ⟨[], rfl, rfl⟩⟩
  | cons seg segments ih =>
    have htext : front ++ render newString (seg :: segments) tail =
        (front ++ seg) ++ newString ++ render newString segments tail := by
      simp only [render, append_assoc]
    have hoffset : offsets newString (byteLen front) (seg :: segments) =
        byteLen (front ++ seg) :: offsets newString (byteLen (front ++ seg ++ newString)) segments := by
      rw [offsets, byteLen_append, byteLen_append, byteLen_append]
    rw [htext, hoffset, buildEditDetails, mapM_cons, Level, LinesFit]
    have hrest := @ih (front ++ seg ++ newString) (oldFront ++ seg ++ oldString)
    rw [buildEditDetails] at hrest
    by_cases hfit : LineFits newString contextLines (front ++ seg)
    · obtain ⟨d, hd, hspec⟩ := buildEditDetail_spec
        hcontext hfit
      rw [hd, bind_eq_bind, bind_some]
      constructor
      · rintro ⟨_, hbuild, d', rest, rfl, hfor, hright⟩
        obtain ⟨rest', hmap, hcons⟩ := bind_eq_some_iff.mp hbuild
        obtain ⟨rfl, rfl⟩ := List.cons.inj (some.inj hcons)
        obtain ⟨hlevel, hlines⟩ := hrest.mp ⟨rest', hmap, hright⟩
        exact ⟨⟨hspec.old_line.mp hfor, hlevel⟩, hfit, hlines⟩
      · rintro ⟨⟨hcount, hlevel⟩, -, hlines⟩
        obtain ⟨rest, hmap, hright⟩ := hrest.mpr ⟨hlevel, hlines⟩
        exact ⟨d :: rest, by rw [hmap]; rfl, d, rest, rfl, hspec.old_line.mpr hcount, hright⟩
    · rw [buildEditDetail_none hfit]
      constructor
      · rintro ⟨_, hbuild, -⟩
        cases hbuild
      · rintro ⟨-, hfit', -⟩
        exact absurd hfit' hfit

theorem level_of_eq (hfront : oldFront.count '\n' = front.count '\n')
    (h : oldString.count '\n' = newString.count '\n') :
    Level oldString newString oldFront front segments := by
  induction segments generalizing oldFront front with
  | nil => trivial
  | cons seg segments ih =>
    have hseg : (oldFront ++ seg).count '\n' = (front ++ seg).count '\n' := by
      rw [List.count_append, List.count_append, hfront]
    refine ⟨hseg, ih ?_⟩
    rw [List.count_append, hseg, h, ← List.count_append]

/-- The lines stay level when there is one match, or the strings have as many
lines as each other. -/
theorem level_iff : Level oldString newString [] [] segments ↔
    segments.length ≤ 1 ∨ oldString.count '\n' = newString.count '\n' := by
  constructor
  · intro hlevel
    match segments with
    | [] => exact .inl (Nat.zero_le 1)
    | [_] => exact .inl (Nat.le_refl 1)
    | first :: second :: segments =>
      right
      have hsecond := hlevel.2.1
      simp only [List.count_append, nil_append] at hsecond
      omega
  · rintro (hone | heq)
    · match segments with
      | [] => trivial
      | [_] => exact ⟨rfl, trivial⟩
      | _ :: _ :: segments =>
        rw [length_cons, length_cons] at hone
        omega
    · exact level_of_eq rfl heq

theorem length_offsets (s : Text) (offset : Nat) (segments : List Text) :
    (offsets s offset segments).length = segments.length := by
  induction segments generalizing offset with
  | nil => rfl
  | cons seg segments ih => rw [offsets, length_cons, ih, length_cons]

/-- The edit details of the replaced text are right for all matches. -/
def DetailsRight (text oldString newString : Text) (positions : List Nat) (contextLines : Nat)
    (segments : List Text) (tail : Text) : Prop :=
  ∃ newText newPositions details,
    replaceUsingPositions text positions oldString newString = some (newText, newPositions) ∧
    newText = render newString segments tail ∧
    buildEditDetails newText oldString newString newPositions contextLines = some details ∧
    Right oldString newString contextLines tail [] [] segments details

theorem edit_details_right_iff (h : Matches text oldString positions) (hcontext : 1 ≤ contextLines) :
    (∃ segments tail, Cut text oldString positions segments tail) ∧
    ∀ segments tail, Cut text oldString positions segments tail →
      (DetailsRight text oldString newString positions contextLines segments tail ↔
        (positions.length ≤ 1 ∨ oldString.count '\n' = newString.count '\n') ∧
          LinesFit newString contextLines [] segments) := by
  constructor
  · obtain ⟨segments, tail, htext, hpositions⟩ := exists_segments
      (show text = [] ++ text from rfl)
      (fun p _ => Nat.zero_le p) h
    exact ⟨segments, tail, htext, hpositions⟩
  · rintro segments tail ⟨rfl, hpositions⟩
    have hreplaced : replaceUsingPositions (render oldString segments tail) positions oldString
        newString = some (render newString segments tail, offsets newString 0 segments) := by
      rw [replaceUsingPositions, hpositions]
      exact replaceFrom_render [] [] (show _ = [] ++ render oldString segments tail from rfl)
    have hdetails := @details_iff oldString newString [] tail segments _ [] hcontext
    rw [level_iff] at hdetails
    rw [hpositions, length_offsets, ← hdetails, DetailsRight, ← hpositions, hreplaced]
    constructor
    · rintro ⟨_, _, details, hsome, -, hbuild, hright⟩
      obtain ⟨rfl, rfl⟩ := Prod.mk.inj (some.inj hsome)
      exact ⟨details, hbuild, hright⟩
    · rintro ⟨details, hbuild, hright⟩
      exact ⟨_, _, details, rfl, rfl, hbuild, hright⟩

/-- Two matches, each replaced by one line. -/
theorem edit_details_right_iff_two :
    DetailsRight ['a', '\n', 'a'] ['a'] ['b'] [0, 2] 3 [[], ['\n']] [] := by
  refine Iff.mpr ((edit_details_right_iff ⟨by decide, by decide⟩ (by decide)).2 [[], ['\n']] []
    ⟨rfl, rfl⟩) ⟨.inr rfl, ?_, ?_, trivial⟩
  · show _ < _
    decide
  · show _ < _
    decide

/-- Two matches, each replaced by two lines: the second stands on line 2 of the
old text and is reported on line 3. -/
theorem second_old_line_drifts :
    Matches ['a', '\n', 'a'] ['a'] [0, 2] ∧ Cut ['a', '\n', 'a'] ['a'] [0, 2] [[], ['\n']] [] ∧
    ¬ DetailsRight ['a', '\n', 'a'] ['a'] ['b', '\n', 'c'] [0, 2] 3 [[], ['\n']] [] := by
  refine ⟨⟨by decide, by decide⟩, ⟨rfl, rfl⟩, ?_⟩
  rintro ⟨newText, newPositions, _, hreplaced, -, hbuild, d, _, rfl, -, d', rest, rfl, hright, -⟩
  have hpair : replaceUsingPositions ['a', '\n', 'a'] [0, 2] ['a'] ['b', '\n', 'c'] =
      some (['b', '\n', 'c', '\n', 'b', '\n', 'c'], [0, 4]) := by
    decide
  obtain ⟨rfl, rfl⟩ := Prod.mk.inj (some.inj (hpair.symm.trans hreplaced))
  have hlines : (buildEditDetails ['b', '\n', 'c', '\n', 'b', '\n', 'c'] ['a'] ['b', '\n', 'c'] [0, 4]
      3).map (·.map (·.oldLine)) = some [1, 3] := by
    decide
  rw [hbuild] at hlines
  have hthree : d'.oldLine = 3 := (List.cons.inj (List.cons.inj (some.inj hlines)).2).1
  have htwo := hright.oldLine
  rw [hthree] at htwo
  exact absurd htwo (by decide)

end GrokBuild.SearchReplace
