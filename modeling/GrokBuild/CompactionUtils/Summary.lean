import GrokBuild.Lib.Replace
import GrokBuild.Lib.Trim

/-!
# Cleaning a summary

`format_compact_summary` of `compaction_utils.rs`: the drafting blocks in front
are cut, the `<summary>` block is unwrapped, tags quoted in it are defused and
runs of newlines collapsed. The result has no control tag and is left as it is
by another cleaning; of a well-formed answer it is the body
(`format_compact_summary_spec`).
-/

namespace GrokBuild.CompactionUtils

open TextLines Str Search Replace List Option

def analysisOpen : Text := "<analysis>".toList

def analysisClose : Text := "</analysis>".toList

def summaryOpen : Text := "<summary>".toList

def summaryClose : Text := "</summary>".toList

/-- What a tag is defused by. -/
def zeroWidthSpace : Char := '\u200b'

def neutralizeCompactionControlTokens (text : Text) : Text :=
  let text := replace "</summary>".toList "<\u200b/summary>".toList text
  let text := replace "<summary>".toList "<\u200bsummary>".toList text
  let text := replace "</analysis>".toList "<\u200b/analysis>".toList text
  let text := replace "<analysis>".toList "<\u200banalysis>".toList text
  let text := replace "</summary_request>".toList "<\u200b/summary_request>".toList text
  replace "<summary_request>".toList "<\u200bsummary_request>".toList text

/-- The characters in front of a numbered section's number. -/
def isDecoration (c : Char) : Bool := c ∈ ['#', '*', '-', '>', ' ', '\t']

def stripPrefix (pat s : Text) : Option Text :=
  if pat <+: s then some (s.drop pat.length) else none

def stripLeadingScratchpad (inner : Text) : Text :=
  let s := trim inner
  let lead := s.dropWhile isDecoration
  let s :=
    if (lead.head?.map Char.isDigit).getD false then s
    else match rfind analysisClose s with
      | some pos => trimStart (s.drop (pos + analysisClose.length))
      | none => s
  match stripPrefix summaryOpen s with
  | some rest => trimStart rest
  | none => s

/-- `is_leading`: the block at `start` is in front of the summary's text. -/
def isLeading (result : Text) (start : Nat) : Bool :=
  match find summaryOpen result with
  | some sp => start < sp || trim ((result.take start).drop (sp + summaryOpen.length)) = []
  | none => trim (result.take start) = []

theorem length_cut_lt {result : Text} {start stop : Nat} (h : find analysisOpen result = some start)
    (hstop : start < stop) : (result.take start ++ result.drop stop).length < result.length := by
  have hpre := (prefix_drop_of_find h).length_le
  have hlen : analysisOpen.length = 10 := rfl
  rw [hlen, length_drop] at hpre
  rw [length_append, length_take, length_drop]
  omega

/-- The loop over leading `<analysis>` blocks. -/
def stripAnalysis (result : Text) : Text :=
  match _h : find analysisOpen result with
  | none => result
  | some start =>
    if isLeading result start then
      match find analysisClose (result.drop start) with
      | some rel =>
        stripAnalysis
          (result.take start ++ result.drop (start + rel + analysisClose.length))
      | none =>
        -- without an end tag the block goes on to the summary
        let dropTo := match find summaryOpen (result.drop start) with
          | some rel => start + rel
          | none => result.length
        result.take start ++ result.drop dropTo
    else result
termination_by result.length
decreasing_by
  refine length_cut_lt ‹_› ?_
  have hlen : analysisClose.length = 11 := rfl
  omega

/-- The `<summary>` block put behind a heading. -/
def unwrapSummary (result : Text) : Text :=
  match find summaryOpen result, rfind summaryClose result with
  | some start, some stop =>
    if start < stop then
      let before := result.take start
      let after := result.drop (stop + summaryClose.length)
      let inner := stripLeadingScratchpad
        (trim ((result.take stop).drop (start + summaryOpen.length)))
      before ++ "Summary:\n".toList ++ inner ++ after
    else result
  | _, _ => result

def formatCompactSummary (summary : Text) : Text :=
  let result := stripAnalysis summary
  let result := unwrapSummary result
  let result := neutralizeCompactionControlTokens result
  let result := replaceAll ['\n', '\n', '\n'] ['\n', '\n'] (by decide) result
  trim result

/-! ## Tags -/

/-- The control tags, without the `<`. -/
def tagBodies : List Text :=
  ["/summary>".toList, "summary>".toList, "/analysis>".toList, "analysis>".toList,
    "/summary_request>".toList, "summary_request>".toList]

/-- The text has none of the control tags. -/
def Untagged (s : Text) : Prop := ∀ b ∈ tagBodies, Free ('<' :: b) s

/-- The tags of a text defused. -/
def defuseTags (s : Text) : Text := defuse '<' zeroWidthSpace tagBodies s

theorem bodies_tagBodies : Bodies '<' zeroWidthSpace tagBodies where
  unmarked := by decide
  broken := by
    intro b hb s hpre
    have hhead : ∀ b ∈ tagBodies, b.head?.any (· != zeroWidthSpace) = true := by decide
    have hb := hhead b hb
    cases b with
    | nil => cases hb
    | cons c b =>
      rw [(cons_prefix_cons.mp hpre).1] at hb
      simp at hb
  mark_ne := by decide

theorem Bodies.mono {m z : Char} {bodies bodies' : List Text} (h : Bodies m z bodies)
    (hsub : bodies' ⊆ bodies) : Bodies m z bodies' where
  unmarked := fun b hb => h.unmarked b (hsub hb)
  broken := fun b hb => h.broken b (hsub hb)
  mark_ne := h.mark_ne

variable {b : Text}

theorem replace_tag {pat new : Text} (hb : b ∈ tagBodies) (hpat : pat = '<' :: b)
    (hnew : new = '<' :: zeroWidthSpace :: b) (bs : List Text) (s : Text) :
    replace pat new (defuse '<' zeroWidthSpace bs s) = defuse '<' zeroWidthSpace (bs ++ [b]) s := by
  rw [hpat, hnew, replace_mark (bodies_tagBodies.unmarked b hb)]
  exact defuse_defuse (Bodies.mono bodies_tagBodies (by simpa using hb)) s

/-- The six passes defuse all tags at once. -/
theorem neutralize_eq (s : Text) : neutralizeCompactionControlTokens s = defuseTags s := by
  have hnone : defuse '<' zeroWidthSpace [] s = s := defuse_of_free (forall_mem_nil _)
  rw [neutralizeCompactionControlTokens]
  nth_rewrite 1 [← hnone]
  rw [replace_tag (b := "/summary>".toList) (by decide) (by decide) (by decide),
    replace_tag (b := "summary>".toList) (by decide) (by decide) (by decide),
    replace_tag (b := "/analysis>".toList) (by decide) (by decide) (by decide),
    replace_tag (b := "analysis>".toList) (by decide) (by decide) (by decide),
    replace_tag (b := "/summary_request>".toList) (by decide) (by decide) (by decide),
    replace_tag (b := "summary_request>".toList) (by decide) (by decide) (by decide)]
  rfl

theorem untagged_defuseTags (s : Text) : Untagged (defuseTags s) :=
  fun _ hb => free_defuse bodies_tagBodies hb s

variable {s : Text}

theorem Untagged.of_infix {t : Text} (h : Untagged s) (hin : t <:+: s) : Untagged t :=
  fun b hb hocc => h b hb (hocc.trans hin)

theorem Untagged.collapse (h : Untagged s) : Untagged (collapse '\n' s) := by
  have hplain : ∀ b ∈ tagBodies, '\n' ∉ '<' :: b := by decide
  exact fun b hb => free_collapse (hplain b hb) (h b hb)

/-- Cleaning in three steps, each with its meaning. -/
theorem formatCompactSummary_eq (s : Text) :
    formatCompactSummary s = trim (collapse '\n' (defuseTags (unwrapSummary (stripAnalysis s)))) := by
  rw [formatCompactSummary, neutralize_eq, replaceAll_run]

theorem untagged_formatCompactSummary (s : Text) : Untagged (formatCompactSummary s) := by
  rw [formatCompactSummary_eq]
  exact (untagged_defuseTags _).collapse.of_infix (trim_isInfix _)

theorem formatCompactSummary_of_clean (htags : Untagged s) (hruns : Free ['\n', '\n', '\n'] s)
    (htrim : trim s = s) : formatCompactSummary s = s := by
  have hanalysis : find analysisOpen s = none :=
    find_eq_none (htags "analysis>".toList (by decide))
  have hsummary : find summaryOpen s = none :=
    find_eq_none (htags "summary>".toList (by decide))
  have hstrip : stripAnalysis s = s := by
    rw [stripAnalysis]
    split
    · rfl
    · rename_i start hstart
      rw [hanalysis] at hstart
      cases hstart
  have hunwrap : unwrapSummary s = s := by
    rw [unwrapSummary, hsummary]
  rw [formatCompactSummary_eq, hstrip, hunwrap, defuseTags, defuse_of_free htags,
    collapse_of_free hruns, htrim]

theorem formatCompactSummary_fixed (s : Text) :
    formatCompactSummary (formatCompactSummary s) = formatCompactSummary s := by
  refine formatCompactSummary_of_clean (untagged_formatCompactSummary s) ?_ ?_
  · rw [formatCompactSummary]
    exact fun hin => free_replaceAll (by decide) _ (hin.trans (trim_isInfix _))
  · rw [formatCompactSummary]
    exact trim_trim _

/-! ## A well-formed answer -/

variable {w : Text}

theorem lt_notMem_blank (hw : Blank w) : '<' ∉ w := by
  intro h
  have hwhite := hw _ h
  revert hwhite
  decide

theorem find_blank {tag : Text} (htag : tag.head? = some '<') (hw : Blank w) (s : Text) :
    find tag (w ++ s) = (find tag s).map (· + w.length) := by
  cases tag with
  | nil => cases htag
  | cons c tag =>
    cases htag
    exact find_append_of_notMem (lt_notMem_blank hw) s

variable {d : Char}

theorem find_other {tag other : Text} {c : Char} {b' : Text} (htag : tag = '<' :: c :: b)
    (hother : other = '<' :: d :: b') (hne : c ≠ d) (hlt : '<' ∉ d :: b') :
    find tag (other ++ s) = (find tag s).map (· + other.length) := by
  have hpre : ¬ c :: b <+: d :: b' ++ s := by
    rw [cons_append, cons_prefix_cons]
    exact fun h => hne h.1
  rw [htag, hother, find_past hlt hpre]
  rfl

theorem analysisOpen_eq : analysisOpen = '<' :: 'a' :: "nalysis>".toList := rfl

theorem analysisClose_eq : analysisClose = '<' :: '/' :: "analysis>".toList := rfl

theorem summaryOpen_eq : summaryOpen = '<' :: 's' :: "ummary>".toList := rfl

variable {rest : Text}

theorem stripAnalysis_block {a : Text} (hw : Blank w) (ha : Untagged a)
    (hrest : summaryOpen <:+: rest) :
    stripAnalysis (w ++ (analysisOpen ++ (a ++ analysisClose ++ rest))) =
      stripAnalysis (w ++ rest) := by
  have hfind : find analysisOpen (w ++ (analysisOpen ++ (a ++ analysisClose ++ rest))) =
      some w.length := by
    rw [find_blank rfl hw, find_self_append, map_some, Nat.zero_add]
  have hleading :
      isLeading (w ++ (analysisOpen ++ (a ++ analysisClose ++ rest))) w.length = true := by
    have hin : summaryOpen <:+: a ++ analysisClose ++ rest :=
      hrest.trans (suffix_append _ rest).isInfix
    obtain ⟨i, hi⟩ := exists_find_of_infix hin
    have hsummary : find summaryOpen (w ++ (analysisOpen ++ (a ++ analysisClose ++ rest))) =
        some (i + 10 + w.length) := by
      rw [find_blank rfl hw, find_other summaryOpen_eq analysisOpen_eq (by decide) (by decide), hi]
      rfl
    rw [isLeading, hsummary]
    simp only [Bool.or_eq_true, decide_eq_true_eq]
    left
    omega
  have hclose : find analysisClose (analysisOpen ++ (a ++ analysisClose ++ rest)) =
      some (a.length + 10) := by
    have hfree : Free analysisClose (a ++ analysisClose.dropLast) := by
      have hbefore : Free analysisClose a := ha "/analysis>".toList (by decide)
      exact free_append rfl (by decide) hbefore (by decide)
    rw [find_other analysisClose_eq analysisOpen_eq (by decide) (by decide),
      find_append hfree rest]
    rfl
  rw [stripAnalysis]
  split
  · rename_i hnone
    rw [hfind] at hnone
    cases hnone
  · rename_i start hstart
    rw [hfind, some.injEq] at hstart
    subst hstart
    rw [if_pos hleading, drop_left, hclose]
    have hstop : w.length + (a.length + 10) + analysisClose.length =
        (w ++ (analysisOpen ++ (a ++ analysisClose))).length := by
      simp only [length_append]
      have hopen : analysisOpen.length = 10 := rfl
      omega
    have hraw : w ++ (analysisOpen ++ (a ++ analysisClose ++ rest)) =
        w ++ (analysisOpen ++ (a ++ analysisClose)) ++ rest := by
      simp only [append_assoc]
    show stripAnalysis (_ ++ List.drop (w.length + (a.length + 10) + analysisClose.length) _) = _
    rw [take_left, hstop, hraw, drop_left]

theorem stripAnalysis_summary {w' t : Text} (hw : Blank w) (hw' : Blank w')
    (hd : isWhitespace d = false) (hlt : d ≠ '<') :
    stripAnalysis (w ++ (summaryOpen ++ (w' ++ d :: t))) = w ++ (summaryOpen ++ (w' ++ d :: t)) := by
  have hsummary : find summaryOpen (w ++ (summaryOpen ++ (w' ++ d :: t))) = some w.length := by
    rw [find_blank rfl hw, find_self_append, map_some, Nat.zero_add]
  have hanalysis : find analysisOpen (w ++ (summaryOpen ++ (w' ++ d :: t))) =
      (find analysisOpen t).map fun i => i + 1 + w'.length + summaryOpen.length + w.length := by
    have hone : find analysisOpen (d :: t) = (find analysisOpen t).map (· + 1) := by
      refine find_append_of_notMem (a := [d]) ?_ t
      rw [mem_singleton]
      exact hlt.symm
    rw [find_blank rfl hw, find_other analysisOpen_eq summaryOpen_eq (by decide) (by decide),
      find_blank rfl hw', hone]
    simp only [Option.map_map, Function.comp_def]
  rw [stripAnalysis]
  split
  · rfl
  · rename_i start hstart
    rw [hanalysis] at hstart
    obtain ⟨i, -, rfl⟩ := map_eq_some_iff.mp hstart
    -- the text in front of the block has the character that is no white space
    have htext : ¬ trim (((w ++ (summaryOpen ++ (w' ++ d :: t))).take
        (i + 1 + w'.length + summaryOpen.length + w.length)).drop
          (w.length + summaryOpen.length)) = [] := by
      have hmem : d ∈ ((w ++ (summaryOpen ++ (w' ++ d :: t))).take
          (i + 1 + w'.length + summaryOpen.length + w.length)).drop
            (w.length + summaryOpen.length) := by
        have hcut : (w ++ (summaryOpen ++ (w' ++ d :: t))).take
            (i + 1 + w'.length + summaryOpen.length + w.length) =
              w ++ summaryOpen ++ (w' ++ d :: t.take i) := by
          have hraw : ∀ u, w ++ (summaryOpen ++ (w' ++ d :: u)) = w ++ summaryOpen ++ w' ++ [d] ++ u := by
            intro u
            simp only [append_assoc, singleton_append]
          have hlen : i + 1 + w'.length + summaryOpen.length + w.length =
              (w ++ summaryOpen ++ w' ++ [d]).length + i := by
            simp only [length_append, length_singleton]
            omega
          rw [hraw, hlen, take_length_add_append]
          simp only [append_assoc, singleton_append]
        rw [hcut, ← length_append, drop_left]
        exact mem_append_right _ mem_cons_self
      exact List.ne_nil_of_mem (mem_trim hd hmem)
    rw [if_neg]
    rw [isLeading, hsummary]
    simp only [Bool.or_eq_true, decide_eq_true_eq, htext, or_false]
    omega

theorem stripLeadingScratchpad_number (h : trim s = d :: rest) (hdigit : d.isDigit = true) :
    stripLeadingScratchpad s = trim s := by
  have hdecoration : isDecoration d = false := by
    by_contra hmem
    rw [Bool.not_eq_false, isDecoration, decide_eq_true_eq] at hmem
    have hnone : ['#', '*', '-', '>', ' ', '\t'].all (! ·.isDigit) = true := by decide
    simpa [hdigit] using all_eq_true.mp hnone d hmem
  have hlead : (d :: rest).dropWhile isDecoration = d :: rest :=
    dropWhile_cons_of_neg (by simp [hdecoration])
  have hwrapper : stripPrefix summaryOpen (d :: rest) = none := by
    rw [stripPrefix, if_neg]
    intro hpre
    rw [summaryOpen_eq, cons_prefix_cons] at hpre
    rw [← hpre.1] at hdigit
    cases hdigit
  simp only [stripLeadingScratchpad, h, hlead, head?_cons, map_some, hdigit,
    getD_some, if_true, hwrapper]

theorem unwrapSummary_block (hw : Blank w) (h : trim b = d :: rest) (hdigit : d.isDigit = true) :
    unwrapSummary (w ++ (summaryOpen ++ (b ++ summaryClose))) =
      w ++ "Summary:\n".toList ++ trim b := by
  have hopen : find summaryOpen (w ++ (summaryOpen ++ (b ++ summaryClose))) = some w.length := by
    rw [find_blank rfl hw, find_self_append, map_some, Nat.zero_add]
  have hraw : w ++ (summaryOpen ++ (b ++ summaryClose)) = w ++ summaryOpen ++ b ++ summaryClose := by
    simp only [append_assoc]
  have hclose : rfind summaryClose (w ++ (summaryOpen ++ (b ++ summaryClose))) =
      some (w ++ summaryOpen ++ b).length := by
    rw [hraw]
    exact rfind_append_self (by decide) _
  have hinner : ((w ++ (summaryOpen ++ (b ++ summaryClose))).take
      (w ++ summaryOpen ++ b).length).drop (w.length + summaryOpen.length) = b := by
    rw [hraw, take_left, ← length_append, drop_left]
  have hafter : (w ++ (summaryOpen ++ (b ++ summaryClose))).drop
      ((w ++ summaryOpen ++ b).length + summaryClose.length) = [] := by
    rw [hraw, ← length_append, drop_length]
  have hlt : w.length < (w ++ summaryOpen ++ b).length := by
    have hlen : summaryOpen.length = 9 := rfl
    simp only [length_append]
    omega
  have htrim : trim (trim b) = d :: rest := by rw [trim_trim, h]
  rw [unwrapSummary, hopen, hclose]
  simp only [if_pos hlt, take_left, hinner, hafter, append_nil]
  rw [stripLeadingScratchpad_number htrim hdigit, trim_trim]

/-! ## Behind the heading -/

theorem isWhitespace_of_isDigit {c : Char} (h : c.isDigit = true) : isWhitespace c = false := by
  simp only [Char.isDigit, Bool.and_eq_true, decide_eq_true_eq] at h
  have hlow : 48 ≤ c.toNat := h.1
  have hhigh : c.toNat ≤ 57 := h.2
  simp only [isWhitespace, Bool.or_eq_false_iff, Bool.and_eq_false_iff, decide_eq_false_iff_not,
    beq_eq_false_iff_ne]
  omega

theorem clean_body (hw : Blank w) (h : trim b = d :: rest) (hdigit : d.isDigit = true) :
    trim (collapse '\n' (defuseTags (w ++ "Summary:\n".toList ++ trim b))) =
      "Summary:\n".toList ++ collapse '\n' (defuseTags (trim b)) := by
  have hlt : d ≠ '<' := by
    rintro rfl
    cases hdigit
  have hnewline : d ≠ '\n' := by
    rintro rfl
    cases hdigit
  have hbody : defuseTags (d :: rest) = d :: defuseTags rest := by
    rw [defuseTags, defuse, if_neg fun hd => hlt hd.1, defuseTags]
  have hplain : '<' ∉ w ++ "Summary:\n".toList := by
    rw [mem_append, not_or]
    exact ⟨lt_notMem_blank hw, by decide⟩
  have hheading : ∀ t : Text, collapse '\n' (w ++ "Summary:\n".toList ++ d :: t) =
      collapse '\n' w ++ ("Summary:\n".toList ++ collapse '\n' (d :: t)) := by
    intro t
    rw [collapse_cons_of_ne hnewline]
    show collapse '\n' (w ++ 'S' :: "ummary:\n".toList ++ d :: t) = _
    rw [append_assoc, cons_append, collapse_append_cons (by decide),
      collapse_append_cons hnewline]
    rfl
  -- the text ends in the last character of the body
  have hend : Trimmed ("Summary:\n".toList ++ collapse '\n' (d :: defuseTags rest)) := by
    constructor
    · intro c hc
      cases hc
      decide
    · intro c hc
      obtain ⟨e, he⟩ : ∃ e, (d :: rest).getLast? = some e :=
        ⟨_, getLast?_eq_some_getLast (cons_ne_nil d rest)⟩
      have hlast : (d :: defuseTags rest).getLast? = some e := by
        rw [← hbody, defuseTags, getLast?_defuse bodies_tagBodies, he]
      have hwhite : isWhitespace e = false := (trimmed_trim b).last e (h ▸ he)
      have hne : e ≠ '\n' := by
        rintro rfl
        cases hwhite
      obtain ⟨p, hp⟩ := getLast?_eq_some_iff.mp hlast
      have hempty : collapse '\n' ([] : Text) = [] := rfl
      rw [hp, collapse_append_cons hne, ← append_assoc, hempty, getLast?_concat,
        some.injEq] at hc
      exact hc ▸ hwhite
  rw [h, defuseTags, defuse_append hplain, ← defuseTags, hbody, hheading,
    trim_blank_append (fun c hc => hw c ((collapse_sublist w).subset hc)), hend.trim_eq]

/-- `format_compact_summary` leaves no control tag, is done after one call,
and of an answer in the asked form returns the body. -/
theorem format_compact_summary_spec :
    (∀ s, Untagged (formatCompactSummary s) ∧
      formatCompactSummary (formatCompactSummary s) = formatCompactSummary s) ∧
    ∀ (w w' b : Text) (analysis : Option Text), Blank w → Blank w' →
      (∀ a ∈ analysis, Untagged a) → (∃ d rest, trim b = d :: rest ∧ d.isDigit = true) →
      formatCompactSummary
          (w ++ (analysis.map fun a => analysisOpen ++ a ++ analysisClose).getD [] ++ w' ++
            summaryOpen ++ b ++ summaryClose) =
        "Summary:\n".toList ++ collapse '\n' (defuseTags (trim b)) := by
  refine ⟨fun s => ⟨untagged_formatCompactSummary s, formatCompactSummary_fixed s⟩, ?_⟩
  rintro w w' b analysis hw hw' ha ⟨d, rest, htrim, hdigit⟩
  obtain ⟨v, t, hb, hv⟩ := exists_of_trim_eq_cons htrim
  have hwhite := isWhitespace_of_isDigit hdigit
  have hlt : d ≠ '<' := by
    rintro rfl
    cases hdigit
  have hblank : Blank (w ++ w') := by
    intro c hc
    rcases mem_append.mp hc with hc | hc
    · exact hw c hc
    · exact hw' c hc
  -- the leading block is cut, and the summary's text stays as it is
  have hstrip : stripAnalysis
      (w ++ (analysis.map fun a => analysisOpen ++ a ++ analysisClose).getD [] ++ w' ++
        summaryOpen ++ b ++ summaryClose) = w ++ w' ++ (summaryOpen ++ (b ++ summaryClose)) := by
    have hsummary : stripAnalysis (w ++ w' ++ (summaryOpen ++ (b ++ summaryClose))) =
        w ++ w' ++ (summaryOpen ++ (b ++ summaryClose)) := by
      rw [hb, append_assoc v, cons_append]
      exact stripAnalysis_summary hblank hv hwhite hlt
    cases analysis with
    | none =>
      rw [← hsummary]
      simp only [map_none, getD_none, append_nil, append_assoc]
    | some a =>
      have hblock := stripAnalysis_block hw (ha a rfl)
        (show summaryOpen <:+: w' ++ (summaryOpen ++ (b ++ summaryClose)) from
          ⟨w', b ++ summaryClose, by simp only [append_assoc]⟩)
      rw [← append_assoc w w'] at hblock
      rw [← hsummary, ← hblock]
      simp only [map_some, getD_some, append_assoc]
  rw [formatCompactSummary_eq, hstrip, unwrapSummary_block hblank htrim hdigit,
    clean_body hblank htrim hdigit]

/-- A draft in front, and a body that quotes the tag. -/
theorem format_compact_summary_quoted :
    formatCompactSummary ("\n<analysis>draft</analysis>\n<summary> 1. Task\n\n\n".toList ++
      "see <summary>\n</summary>".toList) =
        "Summary:\n1. Task\n\nsee <\u200bsummary>".toList := by
  have hblank : Blank ['\n'] := by
    intro c hc
    rw [mem_singleton.mp hc]
    decide
  have hdraft : ∀ a ∈ some "draft".toList, Untagged a := by
    intro a ha
    cases ha
    unfold Untagged
    decide
  have hbody : trim " 1. Task\n\n\nsee <summary>\n".toList = '1' :: ". Task\n\n\nsee <summary>".toList :=
    by decide
  have hclean := format_compact_summary_spec.2 ['\n'] ['\n'] " 1. Task\n\n\nsee <summary>\n".toList
    (some "draft".toList) hblank hblank hdraft ⟨'1', _, hbody, by decide⟩
  rw [hbody] at hclean
  exact hclean.trans (by decide)

end GrokBuild.CompactionUtils
