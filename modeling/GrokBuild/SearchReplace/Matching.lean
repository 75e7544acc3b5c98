import GrokBuild.Lib.Replace
import GrokBuild.Lib.Scan
import GrokBuild.SearchReplace.Confusables
import GrokBuild.SearchReplace.Edits

/-!
# Matching

How the search-and-replace tool finds the place of an edit: by the occurrences of
the old string, and where there are none, by the regions of the text that
normalise to what the old string does. Both are searched from the left without
overlaps (`Scan.scan`), so one that starts inside another is passed over; a
single edit hits the only possible place where that does not happen to leave a
single one (`single_edit_iff`).
-/

namespace GrokBuild.SearchReplace

open TextLines Str ByteText Scan List Option

/-- `match_indices`, by bytes. -/
def matchIndices (pattern text : Text) : List Nat :=
  (scan pattern text).map fun i => byteLen (text.take i)

/-! ## The normalised search -/

structure NormalizedMatch where
  originalStart : Nat
  originalLen : Nat
deriving DecidableEq, Repr

inductive NormalizedMatchResult where
  | noMatch
  | matches (ms : List NormalizedMatch)
  | ambiguous
deriving DecidableEq, Repr

/-- A candidate in the normalised text, read back: the inner none is a rejected
one, the outer none a panic. -/
def candidate (text normPattern : Text) (offsetMap : List Nat) (normStart : Nat) :
    Option (Option NormalizedMatch) := do
  let normEnd := normStart + byteLen normPattern
  let origStart ← offsetMap[normStart]?
  let origEnd ← offsetMap[normEnd]?
  if origEnd ≤ origStart then some none
  else do
    let origSlice ← slice text origStart origEnd
    if normalizeConfusables origSlice ≠ normPattern then some none
    else some (some ⟨origStart, origEnd - origStart⟩)

/-- Two neighbours overlap. -/
def overlapping : List NormalizedMatch → Bool
  | m :: m' :: ms =>
    decide (m.originalStart + m.originalLen > m'.originalStart) || overlapping (m' :: ms)
  | _ => false

def findNormalizedMatchPositions (text pattern : Text) : Option NormalizedMatchResult :=
  let (normText, offsetMap) := buildOffsetMap text
  let normPattern := normalizeConfusables pattern
  if normPattern = [] then some .noMatch
  else do
    let candidates ← (matchIndices normPattern normText).mapM (candidate text normPattern offsetMap)
    let validated := candidates.filterMap id
    if validated = [] then
      some (if candidates.any (·.isNone) then .ambiguous else .noMatch)
    else if overlapping validated then some .ambiguous
    else some (.matches validated)

/-- The loop of `replace_normalized_matches`. -/
def replaceMatchesFrom (text newString : Text) :
    List NormalizedMatch → Nat → Text → List Nat → Option (Text × List Nat)
  | [], lastEnd, result, newPositions => do
    let rest ← slice text lastEnd (byteLen text)
    some (result ++ rest, newPositions)
  | m :: ms, lastEnd, result, newPositions => do
    let between ← slice text lastEnd m.originalStart
    let result := result ++ between
    replaceMatchesFrom text newString ms (m.originalStart + m.originalLen) (result ++ newString)
      (newPositions ++ [byteLen result])

def replaceNormalizedMatches (text : Text) (ms : List NormalizedMatch) (newString : Text) :
    Option (Text × List Nat) :=
  replaceMatchesFrom text newString ms 0 [] []

/-! ## The tool -/

inductive EditOutcome where
  | noMatchesFound
  | multipleMatchesFound
  | applied (newText : Text) (newPositions : List Nat)
deriving DecidableEq, Repr

/-- The text the matches are counted in: with `\r\n` read as `\n`. -/
def matchText (oldText : Text) : Text :=
  if ['\r', '\n'] <:+: oldText then Replace.replace ['\r', '\n'] ['\n'] oldText else oldText

/-- `handle_replacement`, from the text read to the text to write. -/
def handleReplacement (unicodeNormalizedFallback replaceAll : Bool)
    (oldText oldString newString : Text) : Option EditOutcome := do
  let text := matchText oldText
  let positions := matchIndices oldString text
  if positions = [] then
    if unicodeNormalizedFallback then
      match ← findNormalizedMatchPositions text oldString with
      | .matches ms =>
        if ms.length > 1 ∧ ¬ replaceAll then some .multipleMatchesFound
        else if ms = [] then some .noMatchesFound
        else do
          let (newText, newPositions) ← replaceNormalizedMatches text ms newString
          some (.applied newText newPositions)
      | .ambiguous => some .multipleMatchesFound
      | .noMatch => some .noMatchesFound
    else some .noMatchesFound
  else if positions.length > 1 ∧ ¬ replaceAll then some .multipleMatchesFound
  else do
    let (newText, newPositions) ← replaceUsingPositions text positions oldString newString
    some (.applied newText newPositions)

/-! ## Regions -/

/-- A region of the text that normalises to the pattern, with what is in front. -/
def Region (text normPattern a r : Text) : Prop :=
  ∃ b, text = a ++ r ++ b ∧ normalizeConfusables r = normPattern

variable {text pattern normPattern a r x y : Text} {i : Nat} {m : NormalizedMatch}

theorem Region.occurs (h : Region text normPattern a r) :
    Occurs normPattern (normalizeConfusables text) (normalizeConfusables a).length := by
  obtain ⟨b, rfl, rfl⟩ := h
  rw [occurs_iff]
  exact ⟨_, normalizeConfusables b, by simp only [normalizeConfusables_append], rfl⟩

/-- A region is determined by the place of its image. -/
theorem Region.eq {a' r' : Text} (h : Region text normPattern a r) (h' : Region text normPattern a' r')
    (hlen : (normalizeConfusables a).length = (normalizeConfusables a').length) : a' = a ∧ r' = r := by
  obtain ⟨b, htext, hr⟩ := h
  obtain ⟨b', htext', hr'⟩ := h'
  rw [htext, append_assoc, append_assoc] at htext'
  obtain ⟨rfl, hrest⟩ := eq_of_length_image htext' hlen
  obtain ⟨rfl, -⟩ := eq_of_length_image hrest (by rw [hr, hr'])
  exact ⟨rfl, rfl⟩

/-- Reading an occurrence in the normalised text back by the offset map leads to
the region `r` behind `a`. -/
def ReadsAs (text normPattern : Text) (i : Nat) (a r : Text) : Prop :=
  Region text normPattern a r ∧
    (buildOffsetMap text).2[byteLen ((normalizeConfusables text).take i)]? = some (byteLen a) ∧
    (buildOffsetMap text).2[byteLen ((normalizeConfusables text).take (i + normPattern.length))]? =
      some (byteLen (a ++ r))

theorem Region.ne_nil (h : Region text normPattern a r) (hpattern : normPattern ≠ []) : r ≠ [] := by
  obtain ⟨b, -, hr⟩ := h
  rintro rfl
  exact hpattern hr.symm

theorem take_normalizeConfusables (a b : Text) :
    (normalizeConfusables (a ++ b)).take (normalizeConfusables a).length =
      normalizeConfusables a := by
  rw [normalizeConfusables_append, take_left]

theorem Region.readsAs (h : Region text normPattern a r) :
    ReadsAs text normPattern (normalizeConfusables a).length a r := by
  have hregion := h
  obtain ⟨b, rfl, rfl⟩ := h
  have hstart := offsetMapFrom_image 0 a (r ++ b)
  have hend := offsetMapFrom_image 0 (a ++ r) b
  rw [Nat.zero_add] at hstart hend
  rw [← append_assoc] at hstart
  have htake := take_normalizeConfusables a (r ++ b)
  have htake' := take_normalizeConfusables (a ++ r) b
  rw [← append_assoc] at htake
  refine ⟨hregion, ?_, ?_⟩
  · rw [htake]
    exact hstart
  · rw [← length_append, ← normalizeConfusables_append, htake']
    exact hend

/-- What an occurrence reads back as is at its place, or not the only region. -/
theorem ReadsAs.eq_or_shifted (h : ReadsAs text normPattern i a r) (hpattern : normPattern ≠ [])
    (hoccurs : Occurs normPattern (normalizeConfusables text) i) :
    (normalizeConfusables a).length = i ∨ ∃ a' r', Region text normPattern a' r' ∧ a' ≠ a := by
  obtain ⟨hregion, hstart, hend⟩ := h
  obtain ⟨x, y, hxy, rfl⟩ := occurs_iff.mp hoccurs
  have htake : (normalizeConfusables text).take x.length = x := by
    rw [hxy, append_assoc, take_left]
  have htake' : (normalizeConfusables text).take (x.length + normPattern.length) =
      x ++ normPattern := by
    rw [hxy, ← length_append, take_left]
  rw [htake] at hstart
  rw [htake'] at hend
  obtain ⟨a₁, b₁, z, htext₁, hx, hstart₁, hz⟩ := exists_origin (x := x) (y := normPattern ++ y)
    (by rw [hxy, append_assoc])
  obtain ⟨a₂, b₂, w, htext₂, hx₂, hend₂, hw⟩ := exists_origin (x := x ++ normPattern) (y := y) hxy
  obtain ⟨b, htext, hr⟩ := hregion
  have ha₁ : byteLen a₁ = byteLen a := some.inj (hstart₁.symm.trans hstart)
  have ha₂ : byteLen a₂ = byteLen (a ++ r) := some.inj (hend₂.symm.trans hend)
  obtain ⟨rfl, rfl⟩ := eq_of_byteLen_eq (htext₁.symm.trans (htext.trans (append_assoc _ _ _))) ha₁
  obtain ⟨rfl, rfl⟩ := eq_of_byteLen_eq (htext₂.symm.trans htext) ha₂
  have hmoved : z ++ normalizeConfusables r = normalizeConfusables r ++ w := by
    rw [hx, normalizeConfusables_append, ← hr, append_assoc, append_assoc] at hx₂
    exact append_cancel_left hx₂
  rcases hz with rfl | ⟨c, b', z', hb', himage, hzne, hz'⟩
  · left
    rw [hx, append_nil]
  · right
    have hwlen := congrArg List.length hmoved
    rw [length_append, length_append] at hwlen
    have hzpos := length_pos_of_ne_nil hzne
    rcases hw with rfl | ⟨c', b'', w', rfl, himage', hwne, hw'⟩
    · rw [length_nil] at hwlen
      omega
    · obtain ⟨d, r', rfl⟩ := exists_cons_of_ne_nil (show r ≠ [] from by
        rintro rfl
        exact hpattern hr.symm)
      obtain ⟨rfl, -⟩ := List.cons.inj hb'
      obtain ⟨rfl, hsame⟩ := exists_shifted himage hzne hz' himage' hwne hw' hmoved
      refine ⟨a ++ [c'], r' ++ [c'], ⟨b'', ?_, hsame.trans hr⟩, ?_⟩
      · rw [htext]
        simp only [append_assoc, cons_append, nil_append]
      · intro heq
        have hlen := congrArg List.length heq
        rw [length_append, length_singleton] at hlen
        omega

theorem candidate_spec (hpattern : normPattern ≠ [])
    (hoccurs : Occurs normPattern (normalizeConfusables text) i) :
    ∃ found, candidate text normPattern (buildOffsetMap text).2
        (byteLen ((normalizeConfusables text).take i)) = some found ∧
      ∀ m, found = some m ↔ ∃ a r, ReadsAs text normPattern i a r ∧ m = ⟨byteLen a, byteLen r⟩ := by
  obtain ⟨x, y, hxy, rfl⟩ := occurs_iff.mp hoccurs
  have htake : (normalizeConfusables text).take x.length = x := by
    rw [hxy, append_assoc, take_left]
  have htake' : (normalizeConfusables text).take (x.length + normPattern.length) =
      x ++ normPattern := by
    rw [hxy, ← length_append, take_left]
  obtain ⟨a, b, z, htext, -, hstart, -⟩ := exists_origin (x := x) (y := normPattern ++ y)
    (by rw [hxy, append_assoc])
  obtain ⟨a₂, b₂, w, htext₂, -, hend, -⟩ := exists_origin (x := x ++ normPattern) (y := y) hxy
  -- what it could read back as is between the two places
  have hreads : ∀ a' r', ReadsAs text normPattern x.length a' r' ↔ a' = a ∧ a₂ = a ++ r' ∧
      normalizeConfusables r' = normPattern := by
    intro a' r'
    rw [ReadsAs, htake, htake', hstart, hend, some_inj, some_inj]
    constructor
    · rintro ⟨⟨b', htext', hr'⟩, hfrom, hto⟩
      obtain ⟨rfl, -⟩ := eq_of_byteLen_eq (htext.symm.trans (htext'.trans (append_assoc _ _ _)))
        hfrom
      obtain ⟨rfl, -⟩ := eq_of_byteLen_eq (htext₂.symm.trans htext') hto
      exact ⟨rfl, rfl, hr'⟩
    · rintro ⟨rfl, rfl, hr'⟩
      exact ⟨⟨b₂, htext₂, hr'⟩, rfl, rfl⟩
  rw [byteLen_append] at hend
  rw [htake, candidate, hstart, hend]
  simp only [bind_eq_bind, bind_some, hreads]
  by_cases hle : byteLen a₂ ≤ byteLen a
  · rw [if_pos hle]
    refine ⟨none, rfl, fun m => ⟨fun hm => (by cases hm), ?_⟩⟩
    rintro ⟨_, r, ⟨rfl, rfl, hr⟩, -⟩
    rw [byteLen_append] at hle
    have hnil := byteLen_eq_zero.mp (show byteLen r = 0 by omega)
    subst hnil
    exact absurd hr.symm hpattern
  · rw [if_neg hle]
    obtain ⟨r, rfl, hb⟩ := prefix_of_byteLen_le (htext.symm.trans htext₂) (by omega)
    have hslice := slice_append a r b₂
    rw [← htext₂, ← byteLen_append] at hslice
    rw [hslice, bind_some]
    by_cases hback : normalizeConfusables r = normPattern
    · rw [if_neg (not_not_intro hback), byteLen_append, Nat.add_sub_cancel_left]
      refine ⟨_, rfl, fun m => ⟨fun hm => ⟨a, r, ⟨rfl, rfl, hback⟩, (some.inj hm).symm⟩, ?_⟩⟩
      rintro ⟨_, r', ⟨rfl, heq, -⟩, rfl⟩
      rw [append_cancel_left heq]
    · rw [if_pos hback]
      refine ⟨none, rfl, fun m => ⟨fun hm => (by cases hm), ?_⟩⟩
      rintro ⟨_, r', ⟨rfl, heq, hr'⟩, -⟩
      rw [append_cancel_left heq] at hback
      exact absurd hr' hback

end GrokBuild.SearchReplace
