import GrokBuild.Hashline.Apply

/-!
# What a hashline batch leaves alone

`apply_edits` works on the lines of a file without their terminators and
puts `'\n'` between the lines of the result. A line that no operation
replaces therefore keeps its text and its place among the other such lines,
and a newline follows it exactly when something is left that follows it.
The result knows nothing of the terminators before, so the claim that each
line keeps its own has to stop at the end of the file: there a line can
lose its newline or get one.
-/

namespace GrokBuild.Hashline

open TextLines Str Splice List

/-! ## Lines with their terminators -/

inductive Terminator where
  | none
  | lf
  | crlf
  deriving DecidableEq, Repr

/-- The text and the terminator of a piece that a newline follows. -/
def terminate (p : Text) : Text × Terminator :=
  if p.getLast? = some '\r' then (p.dropLast, .crlf) else (p, .lf)

/-- The lines of a text, given as its `'\n'`-separated pieces. -/
def terminatedOf (ps : List Text) : List (Text × Terminator) :=
  ps.mapIdx fun i p => if i + 1 < ps.length then terminate p else (p, .none)

/-- The lines of a text with their terminators. After a final newline the
list ends with the empty unterminated line. -/
def terminatedLines (content : Text) : List (Text × Terminator) :=
  terminatedOf (content.splitOn '\n')

theorem getElem?_terminatedOf (ps : List Text) (i : Nat) :
    (terminatedOf ps)[i]? =
      (ps[i]?).map fun p => if i + 1 < ps.length then terminate p else (p, .none) := by
  rw [terminatedOf, getElem?_mapIdx]

theorem fst_terminate (p : Text) : (terminate p).1 = stripCr p := by
  rw [terminate, stripCr]
  split <;> rfl

theorem getElem?_stripInit (ps : List Text) (i : Nat) :
    (stripInit ps)[i]? = (ps[i]?).map fun p => if i + 1 < ps.length then stripCr p else p := by
  induction ps generalizing i with
  | nil => rfl
  | cons p ps ih =>
    cases ps with
    | nil => cases i <;> simp [stripInit]
    | cons q ps =>
      rw [stripInit]
      cases i with
      | zero => simp
      | succ i =>
        rw [getElem?_cons_succ, ih, getElem?_cons_succ]
        simp only [length_cons, Nat.add_lt_add_iff_right]

theorem splitLines_eq_map (content : Text) :
    splitLines content = (terminatedLines content).map Prod.fst := by
  rw [splitLines_eq]
  apply ext_getElem?
  intro i
  rw [getElem?_stripInit, getElem?_map, terminatedLines, getElem?_terminatedOf,
    Option.map_map]
  congr 1
  funext p
  by_cases h : i + 1 < (content.splitOn '\n').length
  · simp only [Function.comp, if_pos h, fst_terminate]
  · simp only [Function.comp, if_neg h]

variable {i : Nat} {text : Text}

theorem getLast?_of_lf {ps : List Text} (h : (terminatedOf ps)[i]? = some (text, .lf)) :
    text.getLast? ≠ some '\r' := by
  rw [getElem?_terminatedOf, Option.map_eq_some_iff] at h
  obtain ⟨p, -, hp⟩ := h
  split at hp
  · rw [terminate] at hp
    split at hp
    · cases hp
    · next hcr =>
      cases hp
      exact hcr
  · cases hp

/-- A piece is read back with the terminator that its place and its last
character give it. -/
theorem getElem?_terminatedOf_of_ne {ps : List Text} {term : Terminator} (hi : ps[i]? = some text)
    (hcrlf : term ≠ .crlf) (hterm : i + 1 < ps.length ↔ term = .lf)
    (hcr : term = .lf → text.getLast? ≠ some '\r') : (terminatedOf ps)[i]? = some (text, term) := by
  rw [getElem?_terminatedOf, hi, Option.map_some]
  cases term with
  | crlf => exact absurd rfl hcrlf
  | lf => rw [if_pos (hterm.mpr rfl), terminate, if_neg (hcr rfl)]
  | none => rw [if_neg (fun h => by cases hterm.mp h)]

/-! ## Untouched lines -/

/-- Each line that no edit covers is a line of the new text, with the same
text and the same terminator and in the same order. The empty unterminated
line behind a final newline does not count. -/
def LinesKept (es : List (Edit Text)) (content newContent : Text) : Prop :=
  ∃ place : Nat → Nat,
    (∀ i j, ¬ Covered es i → ¬ Covered es j → i < j → j < (terminatedLines content).length →
      place i < place j) ∧
    ∀ i line, (terminatedLines content)[i]? = some line → line ≠ ([], .none) → ¬ Covered es i →
      (terminatedLines newContent)[place i]? = some line

/-- Something is left behind line `i` of `n` lines: a later line that no
edit covers, or lines that an edit puts at a later place. -/
def Followed (es : List (Edit Text)) (n i : Nat) : Prop :=
  (∃ j, i < j ∧ j < n ∧ ¬ Covered es j) ∨ ∃ e ∈ es, i < e.start ∧ e.new ≠ []

/-- The place and the text of every line that the edits do not cover: `k` is
where it stands in the new text, which keeps its characters and continues
with a newline exactly when something follows. Whether a carriage return in
front of the newline survives is left open. -/
structure KeptAt (es : List (Edit Text)) (n i : Nat) (text : Text) (term : Terminator)
    (newContent : Text) (k : Nat) : Prop where
  text_kept : (newContent.splitOn '\n')[k]? = some text ∨
    (term = .crlf ∧ (newContent.splitOn '\n')[k]? = some (text ++ ['\r']))
  newline : k + 1 < (newContent.splitOn '\n').length ↔ Followed es n i
  terminator_kept : term ≠ .crlf → (Followed es n i ↔ term = .lf) →
    (terminatedLines newContent)[k]? = some (text, term)

theorem keptAt_newIndex {content newContent : Text} {es : List (Edit Text)}
    (hfits : ∀ e ∈ es, Fits (splitLines content).length e)
    (hnew : newContent = joinLines (walk es (splitLines content))) {term : Terminator}
    (hline : (terminatedLines content)[i]? = some (text, term)) (hi : ¬ Covered es i) :
    KeptAt es (splitLines content).length i text term newContent
      (newIndex es (splitLines content) i) := by
  have hl : (splitLines content)[i]? = some text := by
    rw [splitLines_eq_map, getElem?_map, hline]
    rfl
  have hlt := (List.getElem?_eq_some_iff.mp hl).1
  have hplace := getElem?_walk hl hi
  have hwalk : newContent.splitOn '\n' = walk es (splitLines content) := by
    rw [hnew]
    apply splitOn_intercalate
    · exact newline_notMem_walk (newline_notMem_splitLines content) fun e he => (hfits e he).isLines
    · intro hnil
      rw [hnil] at hplace
      cases hplace
  have hnewline := newIndex_succ_lt hlt hi (fun e he => (hfits e he).ordered)
    (fun e he => (hfits e he).inside)
  rw [← hwalk] at hplace hnewline
  refine ⟨.inl hplace, hnewline, fun hcrlf hterm => ?_⟩
  apply getElem?_terminatedOf_of_ne hplace hcrlf (hnewline.trans hterm)
  rintro rfl
  exact getLast?_of_lf hline

/-- For every file and every accepted batch of replacements and insertions,
the lines that no operation replaces keep their text and their order, and
their terminator too unless it is CRLF or the line comes to be, or no longer
is, the last one. -/
theorem applyEdits_keeps_lines (content : Text) (ops : List HashlineOp) (filePath : Text)
    (scheme : AnchorScheme) {result : HashlineEditsApplied} (hw : ∀ c, .write c ∉ ops)
    (hacc : (applyEdits content ops filePath scheme).output = .editsApplied result) :
    ∃ es newContent, Targets (splitLines content) scheme ops es ∧
      (applyEdits content ops filePath scheme).newContent = some newContent ∧
      ∃ place : Nat → Nat,
        (∀ i j, ¬ Covered es i → ¬ Covered es j → i < j → j < (terminatedLines content).length →
          place i < place j) ∧
        ∀ i text term, (terminatedLines content)[i]? = some (text, term) → ¬ Covered es i →
          KeptAt es (terminatedLines content).length i text term newContent (place i) := by
  obtain ⟨es, htargets, hnew, -⟩ := applyEdits_walk hw hacc
  have hlen : (terminatedLines content).length = (splitLines content).length := by
    rw [splitLines_eq_map, length_map]
  refine ⟨es, _, htargets, hnew, newIndex es (splitLines content), ?_, ?_⟩
  · intro i j hi _ hij hj
    exact newIndex_lt (by omega) hi hij
  · intro i text term hline hi
    rw [hlen]
    exact keptAt_newIndex htargets.fits rfl hline hi

theorem applyEdits_keeps_lines_appendAndReplace :
    ∃ es newContent, Targets (splitLines "a\nb\n".toList) smallChunks appendAndReplace es ∧
      (applyEdits "a\nb\n".toList appendAndReplace [] smallChunks).newContent = some newContent ∧
      ∃ k, KeptAt es 3 1 "b".toList .lf newContent k := by
  obtain ⟨es, newContent, htargets, hnew, place, -, hkept⟩ :=
    applyEdits_keeps_lines "a\nb\n".toList appendAndReplace [] smallChunks
      (by simp [appendAndReplace]) rfl
  refine ⟨es, newContent, htargets, hnew, place 1, hkept 1 _ _ rfl ?_⟩
  obtain rfl : es = _ := htargets.eq_filterMap
  decide

/-- The last line has no newline; a line appended behind it gives it one. -/
theorem append_terminates_last_line :
    ∃ es newContent, (∃ result, (applyEdits "a".toList [.insertAfter "EOF".toList "b".toList] []
        smallChunks).output = .editsApplied result) ∧
      Targets (splitLines "a".toList) smallChunks [.insertAfter "EOF".toList "b".toList] es ∧
      (applyEdits "a".toList [.insertAfter "EOF".toList "b".toList] [] smallChunks).newContent =
        some newContent ∧
      ¬ LinesKept es "a".toList newContent := by
  refine ⟨[⟨1, 1, ["b".toList]⟩], "a\nb".toList, ⟨_, rfl⟩, .cons rfl .nil, rfl, ?_⟩
  rintro ⟨place, -, hkept⟩
  have hmem := mem_of_getElem? (hkept 0 ("a".toList, .none) rfl (by decide) (by decide))
  revert hmem
  decide

end GrokBuild.Hashline
