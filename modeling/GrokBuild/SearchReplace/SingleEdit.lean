import GrokBuild.SearchReplace.Matching

/-!
# A single edit

When an edit that is not to replace all occurrences hits the only place it can
mean. The tool counts what a search from the left takes that goes on behind each
match. An occurrence that starts inside one that is taken is not counted, so the
edit is applied though there is another place for it; it is refused only where
two that are taken remain (`single_edit_iff`). The normalised search itself never
panics, and what it returns are regions of the text (`FindSound`).
-/

namespace GrokBuild.SearchReplace

open TextLines Str ByteText Scan List Option

/-- The match at an occurrence, none where the candidate is rejected. -/
def found (text normPattern : Text) (i : Nat) : Option NormalizedMatch :=
  (candidate text normPattern (buildOffsetMap text).2
    (byteLen ((normalizeConfusables text).take i))).join

/-- The matches of the normalised search, before the overlaps are looked at. -/
def validated (text normPattern : Text) : List NormalizedMatch :=
  (scan normPattern (normalizeConfusables text)).filterMap (found text normPattern)

/-- The second match is behind the first. -/
def Behind (m m' : NormalizedMatch) : Prop := m.originalStart + m.originalLen ≤ m'.originalStart

/-- What the normalised search may say. -/
structure FindSound (text pattern : Text) (result : NormalizedMatchResult) : Prop where
  /-- Regions of the text, in order and disjoint. -/
  regions : ∀ ms, result = .matches ms → ms ≠ [] ∧ ms.Pairwise Behind ∧
    ∀ m ∈ ms, ∃ a r, Region text (normalizeConfusables pattern) a r ∧ r ≠ [] ∧
      m = ⟨byteLen a, byteLen r⟩
  /-- No match where there is none. -/
  noMatch : result = .noMatch → normalizeConfusables pattern = [] ∨
    ∀ a r, ¬ Region text (normalizeConfusables pattern) a r

/-- The text has one place for the edit: one occurrence, or where there are none one
region that normalises to what the old string does. -/
def OnePlace (text oldString : Text) : Prop :=
  (∃! i, Occurs oldString text i) ∨ (∀ i, ¬ Occurs oldString text i) ∧
    ∃! p : Text × Text, Region text (normalizeConfusables oldString) p.1 p.2

/-- An edit that is applied hits the only place. -/
def HitsOnePlace (unicodeNormalizedFallback : Bool) (text oldString newString : Text) : Prop :=
  ∀ newText newPositions, handleReplacement unicodeNormalizedFallback false text oldString newString =
    some (.applied newText newPositions) → OnePlace text oldString

/-- Two occurrences are apart, or none starts inside another. -/
def ExactSearchRight (text oldString : Text) : Prop :=
  (∃ p q, Occurs oldString text p ∧ Occurs oldString text q ∧ p < q ∧ p + oldString.length ≤ q) ∨
    ∀ p q, Occurs oldString text p → Occurs oldString text q → p < q → p + oldString.length ≤ q

/-- Of the occurrences that the search from the left takes in the normalised text,
not just one reads back as a region, or every region is at one of them. -/
def NormalizedSearchRight (text normPattern : Text) : Prop :=
  (∃! i, i ∈ scan normPattern (normalizeConfusables text) ∧ ∃ a r, ReadsAs text normPattern i a r) →
    ∀ a r, Region text normPattern a r →
      (normalizeConfusables a).length ∈ scan normPattern (normalizeConfusables text)

variable {text pattern normPattern oldString newString a r : Text} {i : Nat} {m : NormalizedMatch}
  {unicodeNormalizedFallback : Bool}

/-! ## The normalised search -/

theorem candidate_eq_found (hpattern : normPattern ≠ [])
    (hoccurs : Occurs normPattern (normalizeConfusables text) i) :
    candidate text normPattern (buildOffsetMap text).2 (byteLen ((normalizeConfusables text).take i)) =
      some (found text normPattern i) := by
  obtain ⟨c, hc, -⟩ := candidate_spec hpattern hoccurs
  rw [found, hc]
  rfl

theorem found_eq_some (hpattern : normPattern ≠ [])
    (hoccurs : Occurs normPattern (normalizeConfusables text) i) :
    found text normPattern i = some m ↔
      ∃ a r, ReadsAs text normPattern i a r ∧ m = ⟨byteLen a, byteLen r⟩ := by
  obtain ⟨c, hc, hspec⟩ := candidate_spec hpattern hoccurs
  rw [found, hc, ← hspec]
  rfl

theorem mapM_eq_map {α β : Type} {f : α → Option β} {g : α → β} {l : List α}
    (h : ∀ x ∈ l, f x = some (g x)) : l.mapM f = some (l.map g) := by
  induction l with
  | nil => rfl
  | cons x l ih =>
    rw [mapM_cons, h x mem_cons_self, ih fun y hy => h y (mem_cons_of_mem x hy)]
    rfl

theorem findNormalizedMatchPositions_eq (hpattern : normalizeConfusables pattern ≠ []) :
    findNormalizedMatchPositions text pattern =
      some (if validated text (normalizeConfusables pattern) = [] then
          if scan (normalizeConfusables pattern) (normalizeConfusables text) = [] then .noMatch
          else .ambiguous
        else if overlapping (validated text (normalizeConfusables pattern)) then .ambiguous
        else .matches (validated text (normalizeConfusables pattern))) := by
  have hall : (matchIndices (normalizeConfusables pattern) (normalizeConfusables text)).mapM
      (candidate text (normalizeConfusables pattern) (buildOffsetMap text).2) =
      some ((scan (normalizeConfusables pattern) (normalizeConfusables text)).map
        (found text (normalizeConfusables pattern))) := by
    rw [matchIndices, mapM_map]
    apply mapM_eq_map
    intro i hi
    exact candidate_eq_found hpattern (occurs_of_mem_scan hi)
  have hvalid : ((scan (normalizeConfusables pattern) (normalizeConfusables text)).map
      (found text (normalizeConfusables pattern))).filterMap id =
      validated text (normalizeConfusables pattern) := by
    rw [filterMap_map]
    rfl
  rw [findNormalizedMatchPositions]
  simp only [buildOffsetMap] at hall ⊢
  rw [if_neg hpattern, hall]
  simp only [bind_eq_bind, bind_some, hvalid]
  split
  · rename_i hnone
    congr 1
    by_cases hscan : scan (normalizeConfusables pattern) (normalizeConfusables text) = []
    · rw [hscan]
      rfl
    · obtain ⟨j, hj⟩ := exists_mem_of_ne_nil _ hscan
      have hrejected := filterMap_eq_nil_iff.mp hnone j hj
      have hany : ((scan (normalizeConfusables pattern) (normalizeConfusables text)).map
          (found text (normalizeConfusables pattern))).any (·.isNone) = true := by
        rw [List.any_eq_true]
        exact ⟨none, List.mem_map.mpr ⟨j, hj, hrejected⟩, rfl⟩
      rw [hany, if_pos rfl, if_neg hscan]
  · split <;> rfl

theorem exists_region_of_mem (hpattern : normPattern ≠ []) (hm : m ∈ validated text normPattern) :
    ∃ a r, Region text normPattern a r ∧ r ≠ [] ∧ m = ⟨byteLen a, byteLen r⟩ := by
  obtain ⟨i, hi, hfound⟩ := mem_filterMap.mp hm
  obtain ⟨a, r, hreads, rfl⟩ := (found_eq_some hpattern (occurs_of_mem_scan hi)).mp hfound
  exact ⟨a, r, hreads.1, hreads.1.ne_nil hpattern, rfl⟩

theorem pairwise_behind {ms : List NormalizedMatch} (h : overlapping ms = false) :
    ms.Pairwise Behind := by
  induction ms with
  | nil => exact List.Pairwise.nil
  | cons m ms ih =>
    cases ms with
    | nil => exact pairwise_singleton _ _
    | cons m' ms =>
      rw [overlapping, Bool.or_eq_false_iff, decide_eq_false_iff_not] at h
      have hrest := ih h.2
      have hfirst : Behind m m' := Nat.le_of_not_lt h.1
      refine pairwise_cons.mpr ⟨fun x hx => ?_, hrest⟩
      rcases mem_cons.mp hx with rfl | hx
      · exact hfirst
      · have hbehind := (pairwise_cons.mp hrest).1 x hx
        unfold Behind at hfirst hbehind ⊢
        omega

theorem findNormalizedMatchPositions_sound (text pattern : Text) :
    ∃ result, findNormalizedMatchPositions text pattern = some result ∧
      FindSound text pattern result := by
  by_cases hpattern : normalizeConfusables pattern = []
  · refine ⟨.noMatch, ?_, fun ms h => (by cases h), fun _ => .inl hpattern⟩
    rw [findNormalizedMatchPositions]
    exact if_pos hpattern
  · refine ⟨_, findNormalizedMatchPositions_eq hpattern, ?_⟩
    by_cases hnone : validated text (normalizeConfusables pattern) = []
    · rw [if_pos hnone]
      by_cases hscan : scan (normalizeConfusables pattern) (normalizeConfusables text) = []
      · rw [if_pos hscan]
        refine ⟨fun ms h => (by cases h), fun _ => .inr fun a r hregion => ?_⟩
        exact scan_eq_nil_iff.mp hscan _ hregion.occurs
      · rw [if_neg hscan]
        exact ⟨fun ms h => (by cases h), fun h => (by cases h)⟩
    · rw [if_neg hnone]
      cases hover : overlapping (validated text (normalizeConfusables pattern)) with
      | true => exact ⟨fun ms h => (by cases h), fun h => (by cases h)⟩
      | false =>
        refine ⟨fun ms h => ?_, fun h => (by cases h)⟩
        obtain rfl := NormalizedMatchResult.matches.inj h
        exact ⟨hnone, pairwise_behind hover, fun m hm => exists_region_of_mem hpattern hm⟩

/-! ## The exact search -/

theorem matchText_of_lf (h : ¬ ['\r', '\n'] <:+: text) : matchText text = text :=
  if_neg h

theorem replaceUsingPositions_single (hoccurs : Occurs oldString text i) :
    ∃ newText newPositions, replaceUsingPositions text [byteLen (text.take i)] oldString newString =
      some (newText, newPositions) := by
  obtain ⟨x, y, rfl, rfl⟩ := occurs_iff.mp hoccurs
  have hreplaced : replaceFrom _ oldString newString _ _ _ _ = _ :=
    replaceFrom_render [] [] (show x ++ oldString ++ y = [] ++ render oldString [x] y from rfl)
  have htake : (x ++ oldString ++ y).take x.length = x := by
    rw [append_assoc, take_left]
  rw [htake]
  simp only [render, offsets, byteLen_nil, Nat.zero_add, nil_append] at hreplaced
  exact ⟨_, _, hreplaced⟩

theorem matchIndices_eq_nil : matchIndices pattern text = [] ↔ ∀ i, ¬ Occurs pattern text i := by
  rw [matchIndices, map_eq_nil_iff, scan_eq_nil_iff]

/-- The exact search applies an edit where it takes a single occurrence. -/
theorem applied_of_exact_iff (hlf : ¬ ['\r', '\n'] <:+: text) (hoccurs : ∃ i, Occurs oldString text i) :
    (∃ newText newPositions, handleReplacement unicodeNormalizedFallback false text oldString newString =
        some (.applied newText newPositions)) ↔ ¬ 1 < (scan oldString text).length := by
  have hsome : matchIndices oldString text ≠ [] := by
    obtain ⟨i, hi⟩ := hoccurs
    intro hnone
    exact matchIndices_eq_nil.mp hnone i hi
  have hlen : (matchIndices oldString text).length = (scan oldString text).length := length_map _
  rw [handleReplacement, matchText_of_lf hlf]
  simp only [if_neg hsome, Bool.false_eq_true, not_false_eq_true, and_true, hlen]
  by_cases hmany : 1 < (scan oldString text).length
  · rw [if_pos hmany]
    simp [hmany]
  · rw [if_neg hmany]
    simp only [hmany, not_false_eq_true, iff_true]
    match hscan : scan oldString text with
    | [] =>
      rw [matchIndices, hscan] at hsome
      exact absurd rfl hsome
    | [i] =>
      have hi : Occurs oldString text i := occurs_of_mem_scan (hscan ▸ mem_singleton_self i)
      obtain ⟨newText, newPositions, hreplaced⟩ := replaceUsingPositions_single hi
      rw [matchIndices, hscan, map_singleton, hreplaced]
      exact ⟨newText, newPositions, rfl⟩
    | _ :: _ :: _ =>
      rw [hscan] at hmany
      exact absurd (Nat.succ_lt_succ (Nat.succ_pos _)) hmany

theorem hitsOnePlace_exact_iff (hlf : ¬ ['\r', '\n'] <:+: text) (hoccurs : ∃ i, Occurs oldString text i) :
    HitsOnePlace unicodeNormalizedFallback text oldString newString ↔
      ExactSearchRight text oldString := by
  have happlied : (∃ newText newPositions, handleReplacement unicodeNormalizedFallback false text
      oldString newString = some (.applied newText newPositions)) ↔ _ :=
    applied_of_exact_iff hlf hoccurs
  rw [one_lt_length_scan_iff] at happlied
  obtain ⟨i, hi⟩ := hoccurs
  constructor
  · intro hits
    by_cases happart : ∃ p q, Occurs oldString text p ∧ Occurs oldString text q ∧ p < q ∧
        p + oldString.length ≤ q
    · exact .inl happart
    · obtain ⟨newText, newPositions, hsome⟩ := happlied.mpr happart
      rcases hits newText newPositions hsome with ⟨k, -, honly⟩ | ⟨hnone, -⟩
      · right
        intro p q hp hq hlt
        have hpk := honly p hp
        have hqk := honly q hq
        omega
      · exact absurd hi (hnone i)
  · rintro hright newText newPositions hsome
    have hnotApart := happlied.mp ⟨newText, newPositions, hsome⟩
    have hnone : ∀ p q, Occurs oldString text p → Occurs oldString text q → ¬ p < q := by
      intro p q hp hq hlt
      rcases hright with happart | hright
      · exact hnotApart happart
      · exact hnotApart ⟨p, q, hp, hq, hlt, hright p q hp hq hlt⟩
    left
    refine ⟨i, hi, fun j hj => ?_⟩
    have hij := hnone i j hi hj
    have hji := hnone j i hj hi
    omega

/-! ## The fallback -/

theorem nodup_scan (hpattern : normPattern ≠ []) (s : Text) : (scan normPattern s).Nodup := by
  refine (scan_sorted hpattern).imp fun {j j'} hle => ?_
  have hpos := length_pos_of_ne_nil hpattern
  omega

/-- One candidate is valid exactly where one occurrence that is taken reads back. -/
theorem length_validated_eq_one_iff (hpattern : normPattern ≠ []) :
    (validated text normPattern).length = 1 ↔
      ∃! i, i ∈ scan normPattern (normalizeConfusables text) ∧
        ∃ a r, ReadsAs text normPattern i a r := by
  have hisSome : ∀ i ∈ scan normPattern (normalizeConfusables text),
      ((found text normPattern i).isSome ↔ ∃ a r, ReadsAs text normPattern i a r) := by
    intro i hi
    have hspec := fun m => found_eq_some (m := m) hpattern (occurs_of_mem_scan hi)
    rw [isSome_iff_exists]
    constructor
    · rintro ⟨m, hm⟩
      obtain ⟨a, r, hreads, -⟩ := (hspec m).mp hm
      exact ⟨a, r, hreads⟩
    · rintro ⟨a, r, hreads⟩
      exact ⟨_, (hspec _).mpr ⟨a, r, hreads, rfl⟩⟩
  have hnodup := (nodup_scan hpattern (normalizeConfusables text)).filter
    fun i => (found text normPattern i).isSome
  have hmem : ∀ i, i ∈ (scan normPattern (normalizeConfusables text)).filter
        (fun i => (found text normPattern i).isSome) ↔
      i ∈ scan normPattern (normalizeConfusables text) ∧ ∃ a r, ReadsAs text normPattern i a r := by
    intro i
    rw [mem_filter]
    exact and_congr_right (hisSome i)
  rw [validated, length_filterMap_eq_countP, countP_eq_length_filter, length_eq_one_iff]
  constructor
  · rintro ⟨i, hone⟩
    simp only [hone, mem_singleton] at hmem
    exact ⟨i, (hmem i).mp rfl, fun j hj => (hmem j).mpr hj⟩
  · rintro ⟨i, hi, honly⟩
    refine ⟨i, perm_singleton.mp ((perm_ext_iff_of_nodup hnodup (nodup_singleton i)).mpr
      fun j => ?_)⟩
    rw [hmem, mem_singleton]
    exact ⟨fun hj => honly j hj, fun hj => hj ▸ hi⟩

theorem replaceNormalizedMatches_single (newString : Text) (h : Region text normPattern a r) :
    ∃ newText newPositions, replaceNormalizedMatches text [⟨byteLen a, byteLen r⟩] newString =
      some (newText, newPositions) := by
  obtain ⟨b, rfl, -⟩ := h
  have hfront := slice_front a (r ++ b)
  have hrest := slice_append (a ++ r) b []
  rw [← append_assoc] at hfront
  rw [append_nil, ← byteLen_append, byteLen_append a r] at hrest
  rw [replaceNormalizedMatches, replaceMatchesFrom, hfront, bind_eq_bind, bind_some,
    replaceMatchesFrom, hrest]
  exact ⟨_, _, rfl⟩

/-- The fallback applies an edit where a single candidate is valid. -/
theorem applied_of_fallback_iff (hlf : ¬ ['\r', '\n'] <:+: text) (hnone : ∀ i, ¬ Occurs oldString text i)
    (hpattern : normalizeConfusables oldString ≠ []) :
    (∃ newText newPositions, handleReplacement unicodeNormalizedFallback false text oldString newString =
        some (.applied newText newPositions)) ↔
      unicodeNormalizedFallback = true ∧
        (validated text (normalizeConfusables oldString)).length = 1 := by
  rw [handleReplacement, matchText_of_lf hlf]
  simp only [if_pos (matchIndices_eq_nil.mpr hnone)]
  cases unicodeNormalizedFallback with
  | false => simp
  | true =>
    simp only [if_true, findNormalizedMatchPositions_eq hpattern, bind_eq_bind, bind_some,
      true_and]
    match hms : validated text (normalizeConfusables oldString) with
    | [] =>
      rw [if_pos rfl]
      by_cases hscan : scan (normalizeConfusables oldString) (normalizeConfusables text) = []
      · rw [if_pos hscan]
        simp
      · rw [if_neg hscan]
        simp
    | [m] =>
      obtain ⟨a, r, hregion, -, rfl⟩ := exists_region_of_mem hpattern (hms ▸ mem_singleton_self m)
      obtain ⟨newText, newPositions, hreplaced⟩ :=
        replaceNormalizedMatches_single newString hregion
      simp [overlapping, hreplaced]
    | m :: m' :: ms =>
      rw [if_neg (cons_ne_nil _ _)]
      cases overlapping (m :: m' :: ms) with
      | true => simp
      | false => simp

theorem hitsOnePlace_fallback_iff (hlf : ¬ ['\r', '\n'] <:+: text) (hnone : ∀ i, ¬ Occurs oldString text i) :
    HitsOnePlace unicodeNormalizedFallback text oldString newString ↔
      (unicodeNormalizedFallback = true →
        NormalizedSearchRight text (normalizeConfusables oldString)) := by
  have hpattern : normalizeConfusables oldString ≠ [] := by
    intro hnil
    rw [normalizeConfusables_eq_nil] at hnil
    subst hnil
    exact hnone 0 ⟨Nat.zero_le _, nil_prefix⟩
  have happlied : (∃ newText newPositions, handleReplacement unicodeNormalizedFallback false text
      oldString newString = some (.applied newText newPositions)) ↔ _ :=
    applied_of_fallback_iff hlf hnone hpattern
  rw [length_validated_eq_one_iff hpattern] at happlied
  constructor
  · intro hits hfallback hone a r hregion
    obtain ⟨newText, newPositions, hsome⟩ := happlied.mpr ⟨hfallback, hone⟩
    obtain ⟨i, ⟨hi, a₀, r₀, hreads⟩, -⟩ := hone
    rcases hits newText newPositions hsome with ⟨k, hk, -⟩ | ⟨-, place, -, honly⟩
    · exact absurd hk (hnone k)
    · -- the place found is the only one, so the occurrence is at it
      have hsame : ∀ a' r', Region text (normalizeConfusables oldString) a' r' → a' = a₀ := by
        intro a' r' hregion'
        exact congrArg Prod.fst ((honly (a', r') hregion').trans (honly (a₀, r₀) hreads.1).symm)
      rw [hsame a r hregion]
      rcases hreads.eq_or_shifted hpattern (occurs_of_mem_scan hi) with hplace | ⟨a', r', hregion', hne⟩
      · rw [hplace]
        exact hi
      · exact absurd (hsame a' r' hregion') hne
  · intro hright newText newPositions hsome
    obtain ⟨hfallback, hone⟩ := happlied.mp ⟨newText, newPositions, hsome⟩
    have hplaces := hright hfallback hone
    obtain ⟨i, ⟨hi, a₀, r₀, hreads⟩, honly⟩ := hone
    have hat : ∀ a r, Region text (normalizeConfusables oldString) a r →
        (normalizeConfusables a).length = i := by
      intro a r hregion
      exact honly _ ⟨hplaces a r hregion, a, r, hregion.readsAs⟩
    right
    refine ⟨hnone, (a₀, r₀), hreads.1, ?_⟩
    rintro ⟨a, r⟩ hregion
    obtain ⟨rfl, rfl⟩ := hreads.1.eq hregion ((hat a₀ r₀ hreads.1).trans (hat a r hregion).symm)
    rfl

/-! ## The edit -/

/-- The normalised search is sound, and an applied edit hits the only place exactly
where no search passes over one: the exact search where the old string occurs, the
normalised one, if it is on, where it does not. -/
theorem single_edit_iff (unicodeNormalizedFallback : Bool)
    (text pattern oldString newString : Text) :
    (∃ result, findNormalizedMatchPositions text pattern = some result ∧
      FindSound text pattern result) ∧
    (¬ ['\r', '\n'] <:+: text →
      (HitsOnePlace unicodeNormalizedFallback text oldString newString ↔
        ((∃ i, Occurs oldString text i) → ExactSearchRight text oldString) ∧
          ((∀ i, ¬ Occurs oldString text i) → unicodeNormalizedFallback = true →
            NormalizedSearchRight text (normalizeConfusables oldString)))) := by
  refine ⟨findNormalizedMatchPositions_sound text pattern, fun hlf => ?_⟩
  by_cases hoccurs : ∃ i, Occurs oldString text i
  · rw [hitsOnePlace_exact_iff hlf hoccurs]
    constructor
    · intro hright
      exact ⟨fun _ => hright, fun hnone => absurd hoccurs (not_exists.mpr hnone)⟩
    · intro hright
      exact hright.1 hoccurs
  · have hnone := not_exists.mp hoccurs
    rw [hitsOnePlace_fallback_iff hlf hnone]
    constructor
    · intro hright
      exact ⟨fun hsome => absurd hsome hoccurs, fun _ => hright⟩
    · intro hright
      exact hright.2 hnone

/-- Of a letter that occurs once, and of a typographic quote that the straight
one is read as. -/
theorem single_edit_iff_letter_quote :
    HitsOnePlace true ['a', 'b', '\r'] ['b'] ['c'] ∧ HitsOnePlace true ['a', '“', 'b'] ['"'] ['c'] := by
  constructor
  · refine ((single_edit_iff true ['a', 'b', '\r'] [] ['b'] ['c']).2 (by decide)).mpr ⟨fun _ => ?_, ?_⟩
    · exact .inr fun p q hp hq hlt => hlt
    · exact fun hnone => absurd (show Occurs ['b'] ['a', 'b', '\r'] 1 by decide) (hnone 1)
  · refine ((single_edit_iff true ['a', '“', 'b'] [] ['"'] ['c']).2 (by decide)).mpr
      ⟨fun hoccurs => ?_, fun _ _ _ a r hregion => ?_⟩
    · have hnone : ∀ i ≤ 3, ¬ Occurs ['"'] ['a', '“', 'b'] i := by decide
      obtain ⟨i, hi⟩ := hoccurs
      exact absurd hi (hnone i hi.1)
    · have htaken : ∀ i ≤ 3, Occurs ['"'] ['a', '"', 'b'] i → i ∈ scan ['"'] ['a', '"', 'b'] := by
        decide
      exact htaken _ hregion.occurs.1 hregion.occurs

/-- Of two overlapping occurrences the first is replaced without a word. -/
theorem overlapping_occurrence_replaced :
    ¬ HitsOnePlace true ['a', 'a', 'a'] ['a', 'a'] ['b'] := by
  intro hits
  have happlied : handleReplacement true false ['a', 'a', 'a'] ['a', 'a'] ['b'] =
      some (.applied ['b', 'a'] [0]) := by decide
  rcases hits _ _ happlied with ⟨i, -, honly⟩ | ⟨hnone, -⟩
  · have hzero := honly 0 (by decide)
    have hone := honly 1 (by decide)
    omega
  · exact hnone 0 (by decide)

/-- So is the first of two overlapping regions of typographic quotes. -/
example : handleReplacement true false ['“', '“', '“'] ['"', '"'] ['x'] =
    some (.applied ['x', '“'] [0]) := by decide

end GrokBuild.SearchReplace
