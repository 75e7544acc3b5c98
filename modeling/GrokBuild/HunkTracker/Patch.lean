import GrokBuild.HunkTracker.Partial

/-!
# Hunk tracker: patch fragments

`generate_hunk_patch` writes a hunk with up to three lines of context on either
side. It takes the context in front from the baseline, the context behind from
the current text, and one line number for both; this module says for which
hunks that is a patch of the baseline.
-/

namespace GrokBuild.HunkTracker

open TextLines Str EditScript List

def contextLines : Nat := 3

/-- What `generate_hunk_patch` writes: the numbers of the header, and the lines
of the body in their order. -/
structure Fragment where
  oldStart : Nat
  oldTotal : Nat
  newStart : Nat
  newTotal : Nat
  before : List Text
  deleted : List Text
  added : List Text
  after : List Text
  deriving DecidableEq

namespace Fragment

def header (f : Fragment) : Text :=
  "@@ -".toList ++ decimal f.oldStart ++ [','] ++ decimal f.oldTotal ++ " +".toList ++
    decimal f.newStart ++ [','] ++ decimal f.newTotal ++ " @@\n".toList

def bodyLine (mark : Char) (line : Text) : Text := mark :: line ++ ['\n']

def text (f : Fragment) : Text :=
  f.header ++ f.before.flatMap (bodyLine ' ') ++ f.deleted.flatMap (bodyLine '-') ++
    f.added.flatMap (bodyLine '+') ++ f.after.flatMap (bodyLine ' ')

/-- The lines that the fragment says the baseline has. -/
def oldSide (f : Fragment) : List Text := f.before ++ f.deleted ++ f.after

/-- The lines that the fragment says the current text has. -/
def newSide (f : Fragment) : List Text := f.before ++ f.added ++ f.after

end Fragment

/-- `context + count + (afterEnd - afterStart)` on `usize`, which wraps. -/
def totalLines (context count afterStart afterEnd : Nat) : Nat :=
  (UInt64.ofNat context + UInt64.ofNat count +
    (UInt64.ofNat afterEnd - UInt64.ofNat afterStart)).toNat

/-- `for i in start..stop` over the lines that are there. -/
def linesBetween (ls : List Text) (start stop : Nat) : List Text :=
  (List.range' start (stop - start)).filterMap (ls[·]?)

/-- `generate_hunk_patch`, before it is written out. -/
def hunkFragment (baseline current : Text) (hunk : Hunk) : Fragment :=
  let oldLines := lines baseline
  let newLines := lines current
  let oldStartIdx := hunk.lineInfo.oldStart - 1
  let newStartIdx := hunk.lineInfo.newStart - 1
  let contextBeforeStart := oldStartIdx - contextLines
  let contextBeforeEnd := oldStartIdx
  let changesEndNew := newStartIdx + hunk.lineInfo.newCount
  let contextAfterStart := changesEndNew
  let contextAfterEnd := min (changesEndNew + contextLines) newLines.length
  let changesEndOld := oldStartIdx + hunk.lineInfo.oldCount
  let contextAfterStartOld := changesEndOld
  let contextAfterEndOld := min (changesEndOld + contextLines) oldLines.length
  { oldStart := contextBeforeStart + 1
    oldTotal := totalLines (contextBeforeEnd - contextBeforeStart) hunk.lineInfo.oldCount
      contextAfterStartOld contextAfterEndOld
    newStart := contextBeforeStart + 1
    newTotal := totalLines (contextBeforeEnd - contextBeforeStart) hunk.lineInfo.newCount
      contextAfterStart contextAfterEnd
    before := linesBetween oldLines contextBeforeStart contextBeforeEnd
    deleted := (hunk.oldText.map lines).getD []
    added := lines hunk.newText
    after := linesBetween newLines contextAfterStart contextAfterEnd }

def generateHunkPatch (baseline current : Text) (hunk : Hunk) : Text :=
  (hunkFragment baseline current hunk).text

/-! ## Well-formed fragments -/

/-- The header counts the lines of the body, its starts are the numbers of the
first of them in either text, and the baseline has the lines it should. -/
structure Fragment.WellFormed (f : Fragment) (baseline : Text) (info : HunkLineInfo) : Prop where
  oldCount : f.oldTotal = f.oldSide.length
  newCount : f.newTotal = f.newSide.length
  oldFirst : f.oldStart + f.before.length = info.oldStart
  newFirst : f.newStart + f.before.length = info.newStart
  applies : f.oldSide <+: (lines baseline).drop (f.oldStart - 1)

/-- The lines that follow the hunk in the current text, three at most. -/
def linesBehind (current : Text) (info : HunkLineInfo) : List Text :=
  ((lines current).drop (info.newStart - 1 + info.newCount)).take contextLines

/-- The hunk starts at one line number in both texts; what it removes, and then
what follows it in the current text, stands there in the baseline; and the
context as it is counted ends where these lines end. -/
structure Hunk.Fits (hunk : Hunk) (baseline current : Text) : Prop where
  start : hunk.lineInfo.newStart = hunk.lineInfo.oldStart
  stands : (hunk.oldText.map lines).getD [] ++ linesBehind current hunk.lineInfo <+:
    (lines baseline).drop (hunk.lineInfo.oldStart - 1)
  oldEnd : min (hunk.lineInfo.oldStart - 1 + hunk.lineInfo.oldCount + contextLines)
      (lines baseline).length = hunk.lineInfo.oldStart - 1 +
    ((hunk.oldText.map lines).getD []).length + (linesBehind current hunk.lineInfo).length
  newEnd : min (hunk.lineInfo.newStart - 1 + hunk.lineInfo.newCount + contextLines)
      (lines current).length = hunk.lineInfo.newStart - 1 +
    (lines hunk.newText).length + (linesBehind current hunk.lineInfo).length

theorem linesBetween_eq (ls : List Text) (start stop : Nat) :
    linesBetween ls start stop = (ls.drop start).take (stop - start) := by
  unfold linesBetween
  generalize stop - start = n
  induction n generalizing start with
  | zero => simp
  | succ n ih =>
    rw [range'_succ, filterMap_cons, ih]
    cases hline : ls[start]? with
    | none =>
      have hlen := List.getElem?_eq_none_iff.mp hline
      simp [drop_eq_nil_of_le hlen, drop_eq_nil_of_le (Nat.le_succ_of_le hlen)]
    | some line =>
      obtain ⟨hlt, rfl⟩ := List.getElem?_eq_some_iff.mp hline
      rw [drop_eq_getElem_cons hlt, take_succ_cons]

/-- Where nothing overflows, the total is what it should be. -/
theorem totalLines_eq_iff {context count afterStart afterEnd n : Nat} (hcontext : context < 2 ^ 60)
    (hcount : count < 2 ^ 60) (hstart : afterStart < 2 ^ 60) (hend : afterEnd < 2 ^ 60)
    (hn : n < 2 ^ 60) :
    totalLines context count afterStart afterEnd = n ↔
      context + count + afterEnd = n + afterStart := by
  unfold totalLines
  rw [UInt64.toNat_add, UInt64.toNat_add, UInt64.toNat_sub, UInt64.toNat_ofNat', UInt64.toNat_ofNat',
    UInt64.toNat_ofNat', UInt64.toNat_ofNat']
  omega

theorem length_lines_le (s : Text) : (lines s).length ≤ s.length := by
  induction s using lineInduction with
  | nil => exact Nat.le_refl _
  | last a ha hne =>
    rw [lines_last ha hne]
    exact length_pos_iff.mpr hne
  | cons a t ha ih =>
    rw [lines_cons ha, length_cons, length_append, length_cons]
    omega

theorem length_tokenizeLines_le (s : Text) : (tokenizeLines s).length ≤ s.length := by
  have hne : ∀ T : List Text, (∀ t ∈ T, t ≠ []) → T.length ≤ T.flatten.length := by
    intro T hT
    induction T with
    | nil => exact Nat.le_refl _
    | cons t T ih =>
      obtain ⟨ht, hT⟩ := forall_mem_cons.mp hT
      have hpos := length_pos_iff.mpr ht
      have htail := ih hT
      rw [flatten_cons, length_append, length_cons]
      omega
  have hlen := hne (tokenizeLines s) fun t ht => (token_shape s t ht).1
  rwa [flatten_tokenizeLines] at hlen

/-- Everything that the arithmetic of a fragment is about is small. -/
structure Hunk.Small (hunk : Hunk) (baseline current : Text) : Prop where
  oldStart : 1 ≤ hunk.lineInfo.oldStart
  newStart : 1 ≤ hunk.lineInfo.newStart
  oldLines : (lines baseline).length < 2 ^ 30
  newLines : (lines current).length < 2 ^ 30
  oldStop : hunk.lineInfo.oldStart + hunk.lineInfo.oldCount < 2 ^ 30
  newStop : hunk.lineInfo.newStart + hunk.lineInfo.newCount < 2 ^ 30
  deleted : ((hunk.oldText.map lines).getD []).length < 2 ^ 30
  added : (lines hunk.newText).length < 2 ^ 30

section Diffs

variable {D : LineDiff} {env : Env} {fresh : Nat} {path : PathBuf} {b c : Text}
  {source : HunkSource} {hunk : Hunk}

theorem exists_region (h : hunk ∈ computeHunks D env fresh path b c source) :
    Diffed env b c ∧ ∃ r ∈ diffRegions D b c,
      hunk.lineInfo = ⟨r.oldStart, r.removed.length, r.newStart, r.added.length⟩ ∧
        (hunk.oldText.map lines).getD [] = lines r.removed.flatten ∧
        hunk.newText = r.added.flatten := by
  by_cases hdiffed : Diffed env b c
  · rw [computeHunks_of_diffed hdiffed] at h
    obtain ⟨⟨r, n⟩, hr, rfl⟩ := List.mem_map.mp h
    refine ⟨hdiffed, r, fst_mem_of_mem_zipIdx hr, rfl, ?_, rfl⟩
    cases hremoved : r.removed with
    | nil => simp [buildHunk, hremoved]
    | cons t ts => simp [buildHunk, hremoved]
  · rw [computeHunks_of_undiffed hdiffed] at h
    cases h

theorem removed_sublist {r : Region Text} (hr : r ∈ diffRegions D b c) :
    r.removed.Sublist (tokenizeLines b) ∧ r.added.Sublist (tokenizeLines c) := by
  obtain ⟨hold, hnew⟩ := diffLines_correct D b c
  obtain ⟨hremoved, hadded⟩ := regions_content _ 1 1 r hr
  rw [hold] at hremoved
  rw [hnew] at hadded
  rw [← hremoved, ← hadded]
  exact ⟨(take_sublist _ _).trans (drop_sublist _ _),
    (take_sublist _ _).trans (drop_sublist _ _)⟩

theorem small_of_mem (h : hunk ∈ computeHunks D env fresh path b c source) : hunk.Small b c := by
  obtain ⟨hdiffed, r, hr, hinfo, hdeleted, hadded⟩ := exists_region h
  have hb : b.length ≤ 2 ^ 20 := (length_le_byteLen b).trans hdiffed.oldSize
  have hc : c.length ≤ 2 ^ 20 := (length_le_byteLen c).trans hdiffed.newSize
  obtain ⟨hstart, hstart'⟩ := regions_start_le _ 1 1 r hr
  obtain ⟨hstop, hstop', -⟩ := regions_next _ 1 1 r hr
  obtain ⟨hold, hnew⟩ := diffLines_correct D b c
  rw [hold] at hstop
  rw [hnew] at hstop'
  have hbt := length_tokenizeLines_le b
  have hct := length_tokenizeLines_le c
  obtain ⟨hremoved, hadds⟩ := removed_sublist hr
  have hr₁ := hremoved.flatten.length_le
  have hr₂ := hadds.flatten.length_le
  rw [flatten_tokenizeLines] at hr₁ hr₂
  have hl₁ := length_lines_le r.removed.flatten
  have hl₂ := length_lines_le r.added.flatten
  have hl₃ := length_lines_le b
  have hl₄ := length_lines_le c
  constructor
  · rw [hinfo]; exact hstart
  · rw [hinfo]; exact hstart'
  · omega
  · omega
  · rw [hinfo]; dsimp only; omega
  · rw [hinfo]; dsimp only; omega
  · rw [hdeleted]; omega
  · rw [hadded]; omega

theorem after_hunkFragment (b c : Text) (hunk : Hunk) :
    (hunkFragment b c hunk).after = linesBehind c hunk.lineInfo := by
  show linesBetween _ _ _ = _
  rw [linesBetween_eq, linesBehind]
  generalize (hunk.lineInfo.newStart - 1 + hunk.lineInfo.newCount) = stop
  rw [take_eq_take_iff, length_drop]
  simp only [contextLines]
  omega

theorem before_hunkFragment (b c : Text) (hunk : Hunk) :
    (hunkFragment b c hunk).before =
      ((lines b).drop (hunk.lineInfo.oldStart - 1 - contextLines)).take
        (hunk.lineInfo.oldStart - 1 - (hunk.lineInfo.oldStart - 1 - contextLines)) :=
  linesBetween_eq _ _ _

theorem drop_eq_before_append {ls before : List Text} {start stop : Nat} (hle : start ≤ stop)
    (hbefore : before = (ls.drop start).take (stop - start)) :
    ls.drop start = before ++ ls.drop stop := by
  rw [hbefore]
  conv_lhs => rw [← take_append_drop (stop - start) (ls.drop start), drop_drop]
  rw [Nat.add_sub_cancel' hle]

theorem wellFormed_iff_fits (hsmall : hunk.Small b c) :
    (hunkFragment b c hunk).WellFormed b hunk.lineInfo ↔ hunk.Fits b c := by
  obtain ⟨hold, hnew, hnb, hnc, hostop, hnstop, hdel, hadd⟩ := hsmall
  have hbefore := before_hunkFragment b c hunk
  have hafter := after_hunkFragment b c hunk
  have hbehind : (linesBehind c hunk.lineInfo).length ≤ 3 := length_take_le _ _
  have hdrop := drop_eq_before_append (Nat.sub_le (hunk.lineInfo.oldStart - 1) contextLines) hbefore
  have hlen : (hunkFragment b c hunk).before.length = min
      (hunk.lineInfo.oldStart - 1 - (hunk.lineInfo.oldStart - 1 - contextLines))
      ((lines b).length - (hunk.lineInfo.oldStart - 1 - contextLines)) := by
    rw [hbefore, length_take, length_drop]
  have hside : (hunkFragment b c hunk).oldSide.length = (hunkFragment b c hunk).before.length +
      ((hunk.oldText.map lines).getD []).length + (linesBehind c hunk.lineInfo).length := by
    rw [Fragment.oldSide, length_append, length_append, hafter]
    rfl
  have hside' : (hunkFragment b c hunk).newSide.length = (hunkFragment b c hunk).before.length +
      (lines hunk.newText).length + (linesBehind c hunk.lineInfo).length := by
    rw [Fragment.newSide, length_append, length_append, hafter]
    rfl
  simp only [contextLines] at hlen
  constructor
  · rintro ⟨holdCount, hnewCount, holdFirst, hnewFirst, happlies⟩
    rw [hside] at holdCount
    rw [hside'] at hnewCount
    have holdCount := (totalLines_eq_iff (by omega) (by omega) (by omega) (by omega) (by omega)).mp
      holdCount
    have hnewCount := (totalLines_eq_iff (by omega) (by omega) (by omega) (by omega) (by omega)).mp
      hnewCount
    have holdFirst : hunk.lineInfo.oldStart - 1 - 3 + 1 +
        (hunkFragment b c hunk).before.length = hunk.lineInfo.oldStart := holdFirst
    have hnewFirst : hunk.lineInfo.oldStart - 1 - 3 + 1 +
        (hunkFragment b c hunk).before.length = hunk.lineInfo.newStart := hnewFirst
    simp only [contextLines] at holdCount hnewCount
    refine ⟨by omega, ?_, by simp only [contextLines]; omega, by simp only [contextLines]; omega⟩
    have happlies : (hunkFragment b c hunk).oldSide <+:
        (lines b).drop (hunk.lineInfo.oldStart - 1 - contextLines) := happlies
    rw [hdrop, Fragment.oldSide, append_assoc, prefix_append_right_inj, hafter] at happlies
    exact happlies
  · rintro ⟨hstart, hstands, holdEnd, hnewEnd⟩
    simp only [contextLines] at holdEnd hnewEnd
    constructor
    · rw [hside]
      refine (totalLines_eq_iff (by omega) (by omega) (by omega) (by omega) (by omega)).mpr ?_
      simp only [contextLines]
      omega
    · rw [hside']
      refine (totalLines_eq_iff (by omega) (by omega) (by omega) (by omega) (by omega)).mpr ?_
      simp only [contextLines]
      omega
    · show hunk.lineInfo.oldStart - 1 - 3 + 1 + _ = _
      omega
    · show hunk.lineInfo.oldStart - 1 - 3 + 1 + _ = _
      omega
    · show (hunkFragment b c hunk).oldSide <+:
        (lines b).drop (hunk.lineInfo.oldStart - 1 - contextLines)
      rw [hdrop, Fragment.oldSide, append_assoc, prefix_append_right_inj, hafter]
      exact hstands

end Diffs

/-! ## Texts without a carriage return on its own -/

/-- Every token but the last ends in a newline: `str::lines` and the diff cut
the text alike. -/
def CutAlike (s : Text) : Prop := ∀ t ∈ (tokenizeLines s).dropLast, endsNl t = true

/-- The line of a token. -/
def lineOf (t : Text) : Text := (lines t).headD []

theorem lines_token {t : Text} (hne : t ≠ []) (hnl : '\n' ∉ t.dropLast) : lines t = [lineOf t] := by
  cases hends : endsNl t with
  | true =>
    have hlines : lines t = [stripCr t.dropLast] := by
      conv_lhs => rw [eq_append_newline hends]
      exact lines_cons hnl []
    rw [lineOf, hlines]
    rfl
  | false =>
    have hnot : '\n' ∉ t := by
      intro hmem
      rw [← dropLast_append_getLast hne, mem_append, mem_singleton] at hmem
      have hlast := hmem.resolve_left hnl
      simp [endsNl, getLast?_eq_getLast_of_ne_nil hne, ← hlast] at hends
    rw [lineOf, lines_last hnot hne]
    rfl

theorem lines_flatten {T : List Text} (hshape : ∀ t ∈ T, t ≠ [] ∧ '\n' ∉ t.dropLast)
    (hinner : ∀ t ∈ T.dropLast, endsNl t = true) : lines T.flatten = T.map lineOf := by
  induction T with
  | nil => rfl
  | cons t T ih =>
    obtain ⟨⟨hne, hnl⟩, hshape⟩ := forall_mem_cons.mp hshape
    cases T with
    | nil => simpa using lines_token hne hnl
    | cons u T =>
      rw [dropLast_cons_cons] at hinner
      obtain ⟨hends, hinner⟩ := forall_mem_cons.mp hinner
      have hline := lines_token hne hnl
      rw [flatten_cons, map_cons, ← ih hshape hinner]
      conv_lhs => rw [eq_append_newline hends]
      rw [eq_append_newline hends, lines_cons hnl] at hline
      rw [append_assoc, singleton_append, lines_cons hnl]
      rw [← eq_append_newline hends] at hline
      exact congrArg (· :: _) (List.cons.inj hline).1

theorem sublist_dropLast {α : Type} {xs ys : List α} (h : xs.Sublist ys) :
    xs.dropLast.Sublist ys.dropLast := by
  have htail := h.reverse.tail.reverse
  rwa [tail_reverse, tail_reverse, reverse_reverse, reverse_reverse] at htail

theorem CutAlike.lines {s : Text} (h : CutAlike s) {T : List Text}
    (hT : T.Sublist (tokenizeLines s)) : lines T.flatten = T.map lineOf := by
  refine lines_flatten (fun t ht => token_shape s t (hT.subset ht)) fun t ht => h t ?_
  exact (sublist_dropLast hT).subset ht

/-- For such texts a hunk fits when it starts at one line number in both and the
lines that follow it, three at most, are the same in both. -/
theorem fits_iff_of_cutAlike {D : LineDiff} {env : Env} {fresh : Nat} {path : PathBuf}
    {b c : Text} {source : HunkSource} {hunk : Hunk} (hb : CutAlike b) (hc : CutAlike c)
    (h : hunk ∈ computeHunks D env fresh path b c source) :
    hunk.Fits b c ↔ hunk.lineInfo.newStart = hunk.lineInfo.oldStart ∧
      ((lines b).drop (hunk.lineInfo.oldStart - 1 + hunk.lineInfo.oldCount)).take contextLines =
        linesBehind c hunk.lineInfo := by
  obtain ⟨-, r, hr, hinfo, hdeleted, hadded⟩ := exists_region h
  obtain ⟨hremoved, hadds⟩ := removed_sublist hr
  obtain ⟨hstop, hstop', -⟩ := regions_next _ 1 1 r hr
  obtain ⟨hold, hnew⟩ := diffLines_correct D b c
  have hcontent := (regions_content _ 1 1 r hr).1
  have hlines := hb.lines (List.Sublist.refl _)
  have hlines' := hc.lines (List.Sublist.refl _)
  rw [flatten_tokenizeLines] at hlines hlines'
  rw [hold] at hcontent hstop
  rw [hnew] at hstop'
  obtain ⟨hstart, hstart'⟩ := regions_start_le _ 1 1 r hr
  have hdels : lines r.removed.flatten = r.removed.map lineOf := hb.lines hremoved
  have hadds : (lines hunk.newText).length = r.added.length := by
    rw [hadded, hc.lines hadds, length_map]
  have hnb : (lines b).length = (tokenizeLines b).length := by rw [hlines, length_map]
  have hnc : (lines c).length = (tokenizeLines c).length := by rw [hlines', length_map]
  have hdrop : (lines b).drop (r.oldStart - 1) =
      r.removed.map lineOf ++ (lines b).drop (r.oldStart - 1 + r.removed.length) := by
    rw [hlines, ← map_drop, ← map_drop, ← map_append, ← drop_drop]
    conv_lhs => rw [← take_append_drop r.removed.length (List.drop _ _), hcontent]
  have hbehind : (linesBehind c hunk.lineInfo).length =
      min 3 ((lines c).length - (r.newStart - 1 + r.added.length)) := by
    rw [linesBehind, length_take, length_drop, hinfo]
    rfl
  have hlength : (((lines b).drop (r.oldStart - 1 + r.removed.length)).take contextLines).length =
      min 3 ((lines b).length - (r.oldStart - 1 + r.removed.length)) := by
    rw [length_take, length_drop]
    rfl
  constructor
  · rintro ⟨hsame, hstands, holdEnd, -⟩
    refine ⟨hsame, ?_⟩
    rw [hdeleted, hdels, length_map] at holdEnd
    rw [hdeleted, hdels] at hstands
    simp only [hinfo, contextLines] at hstands holdEnd hbehind ⊢
    rw [hdrop, prefix_append_right_inj, prefix_iff_eq_take] at hstands
    rw [hstands, take_eq_take_iff, length_drop]
    omega
  · rintro ⟨hsame, hbehind_eq⟩
    have heq := congrArg List.length hbehind_eq
    constructor
    · exact hsame
    · rw [hdeleted, hdels, ← hbehind_eq]
      simp only [hinfo]
      rw [hdrop, prefix_append_right_inj]
      exact take_prefix _ _
    · rw [hdeleted, hdels, length_map]
      simp only [hinfo, contextLines] at heq hbehind hlength ⊢
      omega
    · rw [hadds]
      simp only [hinfo, contextLines] at heq hbehind hlength ⊢
      omega

/-- Which hunks of a diff get a patch fragment that is well formed. -/
theorem hunkFragment_wellFormed_iff (D : LineDiff) (env : Env) (fresh : Nat) (path : PathBuf)
    (baseline current : Text) (source : HunkSource) (hunk : Hunk)
    (h : hunk ∈ computeHunks D env fresh path baseline current source) :
    ((hunkFragment baseline current hunk).WellFormed baseline hunk.lineInfo ↔
        hunk.Fits baseline current) ∧
      (CutAlike baseline → CutAlike current →
        (hunk.Fits baseline current ↔
          hunk.lineInfo.newStart = hunk.lineInfo.oldStart ∧
            ((lines baseline).drop (hunk.lineInfo.oldStart - 1 + hunk.lineInfo.oldCount)).take
              contextLines = linesBehind current hunk.lineInfo)) :=
  ⟨wellFormed_iff_fits (small_of_mem h), fun hb hc => fits_iff_of_cutAlike hb hc h⟩

/-- One line changed between two others. -/
def middleLine : Hunk :=
  ⟨⟨0⟩, ["f"], ⟨2, 1, 2, 1⟩, .agentEdit 0, some "b\n".toList, "X\n".toList, none, 0, false⟩

theorem hunkFragment_wellFormed_iff_middleLine :
    middleLine ∈ computeHunks .lcs .quiet 0 ["f"] "a\nb\nc\n".toList "a\nX\nc\n".toList
        (.agentEdit 0) ∧
      (hunkFragment "a\nb\nc\n".toList "a\nX\nc\n".toList middleLine).WellFormed
        "a\nb\nc\n".toList middleLine.lineInfo := by
  have hmem : middleLine ∈ computeHunks .lcs .quiet 0 ["f"] "a\nb\nc\n".toList
      "a\nX\nc\n".toList (.agentEdit 0) := by decide
  obtain ⟨hwell, hfits⟩ := hunkFragment_wellFormed_iff .lcs .quiet 0 ["f"] "a\nb\nc\n".toList
    "a\nX\nc\n".toList (.agentEdit 0) middleLine hmem
  refine ⟨hmem, hwell.mpr ((hfits ?_ ?_).mpr ⟨rfl, ?_⟩)⟩
  · unfold CutAlike
    decide
  · unfold CutAlike
    decide
  · decide

example : generateHunkPatch "a\nb\nc\n".toList "a\nX\nc\n".toList middleLine =
    "@@ -1,3 +1,3 @@\n a\n-b\n+X\n c\n".toList := by decide

/-- The hunks of a text that got a line in front and one in the middle. -/
def twoInserted : List Hunk :=
  [⟨⟨0⟩, ["f"], ⟨1, 0, 1, 1⟩, .agentEdit 0, none, "X\n".toList, none, 0, false⟩,
    ⟨⟨1⟩, ["f"], ⟨2, 0, 3, 1⟩, .agentEdit 0, none, "Y\n".toList, none, 0, false⟩]

/-- The fragment of the first has a line of the second for context; that of the
second starts at the wrong line of the current text. -/
theorem not_wellFormed_twoInserted :
    computeHunks .lcs .quiet 0 ["f"] "a\nb\n".toList "X\na\nY\nb\n".toList (.agentEdit 0) =
        twoInserted ∧
      ∀ hunk ∈ twoInserted, ¬ (hunkFragment "a\nb\n".toList "X\na\nY\nb\n".toList hunk).WellFormed
        "a\nb\n".toList hunk.lineInfo := by
  refine ⟨by decide, fun hunk hmem hwell => ?_⟩
  simp only [twoInserted, mem_cons, not_mem_nil, or_false] at hmem
  rcases hmem with rfl | rfl
  · exact absurd hwell.applies (by decide)
  · exact absurd hwell.newFirst (by decide)

end GrokBuild.HunkTracker
