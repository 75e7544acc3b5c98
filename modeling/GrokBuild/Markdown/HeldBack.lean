import Mathlib.Data.List.TakeWhile
import GrokBuild.Markdown.Delimiters

/-!
# What is held back

How many bytes of the input the normalizer holds back. Each look-ahead is
bounded, by the cap on the source of a span or by the longest run and the longest
token, but for two: behind a line end in a display span, and behind the run that
may close a fence, the scan waits for the first byte that is no blank (`Waits`).
Only the blanks there are not bounded (`held_back_bounded_iff`).
-/

namespace GrokBuild.Markdown

open List

open LineLog (Bytes)

def heldBound : Nat := maxMathSourceLen + 128

/-- No run of more than 64 backticks or tildes. -/
def NoLongRun (s : Bytes) : Prop :=
  ∀ ch n, ch = backtick ∨ ch = tilde → List.replicate n ch <:+: s → n ≤ 64

/-- The processing of a buffer comes to these bytes in this mode. -/
inductive Arrives : Mode → Bytes → Mode → Bytes → Prop where
  | refl (mode : Mode) (buf : Bytes) : Arrives mode buf mode buf
  | go {mode mode' final : Mode} {buf rest last out : Bytes} (hne : buf ≠ [])
      (hgo : step false mode buf = .go out rest mode') (later : Arrives mode' rest final last) :
      Arrives mode buf final last

/-- The openers of a display span. -/
def displayOpeners : List Bytes := [ascii "\\[", [dollar, dollar], envBegin, envBeginStarred]

/-- The bytes are `front` and blanks, and the next byte that is no blank decides: the
front is a display span up to a line end, or a line that may close the fence. -/
def Waits (mode : Mode) (front blanks : Bytes) : Prop :=
  (∀ b ∈ blanks, isBlank b = true) ∧
    match mode.state with
    | .normal => ∃ opener ∈ displayOpeners, ∃ content, front = opener ++ content ++ [lf] ∧
        findDisplayClose false (content ++ [lf] ++ blanks) = .needMore
    | .inlineCode _ => False
    | .fenced ch len => mode.atLineStart = true ∧ ∃ spaces run, spaces < 4 ∧ len ≤ run ∧ 0 < run ∧
        front = List.replicate spaces space ++ List.replicate run ch

/-- In a push, the blanks that the processing waits behind fit behind what it holds
back in front of them. -/
def BlanksFit (nz : LatexDelimiterNormalizer) (chunk : Bytes) : Prop :=
  ∀ mode front blanks, Arrives nz.mode (nz.pending ++ chunk) mode (front ++ blanks) →
    Waits mode front blanks → front.length + blanks.length ≤ heldBound

/-- The fence characters. -/
def Mode.Fences (mode : Mode) : Prop :=
  match mode.state with
  | .fenced ch _ => ch = backtick ∨ ch = tilde
  | _ => True

variable {mode mode' : Mode} {buf rest out : Bytes} {ch : UInt8} {n k len : Nat} {finalFlush : Bool}

/-! ## Runs -/

theorem countRun_pos (ch : UInt8) (buf : Bytes) : 0 < countRun ch (ch :: buf) := by
  simp [countRun]

theorem exists_run (ch : UInt8) (buf : Bytes) :
    ∃ rest, buf = List.replicate (countRun ch buf) ch ++ rest ∧ rest.head? ≠ some ch := by
  refine ⟨buf.dropWhile (· == ch), ?_, ?_⟩
  · have hrun : buf.takeWhile (· == ch) = List.replicate (countRun ch buf) ch := by
      rw [eq_replicate_iff]
      refine ⟨rfl, fun b hb => ?_⟩
      have hp := mem_takeWhile_imp (p := (· == ch)) hb
      exact beq_iff_eq.mp hp
    rw [← hrun, takeWhile_append_dropWhile]
  · intro hhead
    have hnot := head?_dropWhile_not (· == ch) buf
    rw [hhead] at hnot
    simp at hnot

theorem countRun_append (n : Nat) (h : rest.head? ≠ some ch) :
    countRun ch (List.replicate n ch ++ rest) = n := by
  have hrest : rest.takeWhile (· == ch) = [] := by
    cases rest with
    | nil => rfl
    | cons b rest =>
      apply takeWhile_cons_of_neg
      intro hb
      exact h (by rw [beq_iff_eq.mp hb]; rfl)
  rw [countRun, takeWhile_append_of_pos (by simp [mem_replicate]), hrest, append_nil,
    length_replicate]

theorem NoLongRun.countRun_le (h : NoLongRun buf) (hch : ch = backtick ∨ ch = tilde) :
    countRun ch buf ≤ 64 := by
  obtain ⟨rest, hbuf, -⟩ := exists_run ch buf
  apply h ch _ hch
  exact ⟨[], rest, hbuf.symm⟩

theorem NoLongRun.drop (h : NoLongRun buf) (n : Nat) : NoLongRun (buf.drop n) :=
  fun ch _ hch hrun => h ch _ hch (hrun.trans (drop_suffix n buf).isInfix)

theorem dropWhile_eq_drop (p : UInt8 → Bool) (s : Bytes) :
    s.dropWhile p = s.drop (s.takeWhile p).length := by
  have hsplit : s.takeWhile p ++ s.dropWhile p = s := takeWhile_append_dropWhile
  calc s.dropWhile p = (s.takeWhile p ++ s.dropWhile p).drop (s.takeWhile p).length :=
        drop_left.symm
    _ = s.drop (s.takeWhile p).length := by rw [hsplit]

/-! ## Tokens -/

theorem exists_token {tokens : List Bytes} (h : (matchTokens tokens rest).1 = some len) :
    ∃ tok ∈ tokens, tok <+: rest ∧ len = tok.length := by
  have hmem := max?_mem h
  obtain ⟨tok, htok, rfl⟩ := List.mem_map.mp hmem
  rw [mem_filter] at htok
  exact ⟨tok, htok.1, isPrefixOf_iff_prefix.mp htok.2, rfl⟩

theorem length_lt_of_couldExtend {tokens : List Bytes} (h : (matchTokens tokens rest).2 = true) :
    ∃ tok ∈ tokens, rest.length < tok.length := by
  obtain ⟨tok, htok, hboth⟩ := List.any_eq_true.mp h
  rw [Bool.and_eq_true, decide_eq_true_eq] at hboth
  exact ⟨tok, htok, hboth.1⟩

theorem length_envTokens {tok : Bytes} (h : tok ∈ envTokens) : 2 ≤ tok.length ∧ tok.length ≤ 17 := by
  revert tok
  decide

theorem matchEnv_convert (h : matchEnv finalFlush buf = .convert len) :
    ∃ tok ∈ envTokens, tok <+: buf ∧ len = tok.length := by
  rw [matchEnv] at h
  split at h
  · rename_i l b heq
    obtain rfl := EnvScan.convert.inj h
    exact exists_token (by rw [heq])
  · split at h <;> cases h

theorem matchEnv_needMore (h : matchEnv finalFlush buf = .needMore) : buf.length < 17 := by
  rw [matchEnv] at h
  split at h
  · cases h
  · rename_i couldExtend heq
    split at h
    · rename_i hextend
      rw [Bool.and_eq_true] at hextend
      obtain ⟨tok, htok, hlt⟩ := length_lt_of_couldExtend
        (by rw [heq]; exact hextend.1)
      exact Nat.lt_of_lt_of_le hlt (length_envTokens htok).2
    · cases h

/-! ## What a step takes -/

theorem classifyBackslash_literal (h : classifyBackslash finalFlush buf = .literal len) : 0 < len := by
  rw [classifyBackslash] at h
  repeat' split at h
  all_goals cases h
  all_goals decide

theorem classifyBackslash_convert {canonical : Bytes}
    (h : classifyBackslash finalFlush buf = .convert canonical len) : 0 < len := by
  rw [classifyBackslash] at h
  repeat' split at h
  all_goals try cases h
  all_goals try decide
  rename_i hconvert
  obtain ⟨tok, htok, -, rfl⟩ := matchEnv_convert hconvert
  exact Nat.lt_of_lt_of_le (by decide) (length_envTokens htok).1

theorem classifyBackslash_display (h : classifyBackslash finalFlush buf = .displayOpen len) :
    2 ≤ len ∧ len ≤ 17 := by
  rw [classifyBackslash] at h
  repeat' split at h
  all_goals try cases h
  · decide
  · rename_i hconvert
    obtain ⟨tok, htok, -, rfl⟩ := matchEnv_convert hconvert
    exact length_envTokens htok

theorem scanFenceOpen_found {stop : Nat} (h : scanFenceOpen finalFlush buf = .found ch len stop) :
    (ch = backtick ∨ ch = tilde) ∧ 0 < stop := by
  rw [scanFenceOpen] at h
  simp only at h
  repeat' split at h
  all_goals try cases h
  rename_i b rest _ hch _ hrun
  constructor
  · tauto
  · omega

theorem scanFenceClose_found {ch' : UInt8} {len' stop : Nat}
    (h : scanFenceClose ch len finalFlush buf = .found ch' len' stop) : 0 < stop := by
  rw [scanFenceClose] at h
  simp only at h
  split at h
  · cases h
  split at h
  · split at h <;> cases h
  rename_i b rest _
  split at h
  · cases h
  rename_i hch
  rw [not_not] at hch
  subst hch
  have hpos := countRun_pos b rest
  repeat' split at h
  all_goals cases h
  all_goals omega

theorem codeFrom_newline {run skip stop : Nat} (h : codeFrom finalFlush run skip k buf = .newline stop) :
    k < stop := by
  induction buf generalizing skip k with
  | nil => cases h
  | cons b rest ih =>
    cases skip with
    | succ skip => exact Nat.lt_of_succ_lt (ih h)
    | zero =>
      simp only [codeFrom] at h
      split at h
      · cases h
        exact Nat.lt_succ_self k
      · split at h
        · split at h
          · cases h
          · split at h
            · cases h
            · exact Nat.lt_of_succ_lt (ih h)
        · exact Nat.lt_of_succ_lt (ih h)

theorem codeFrom_closed {run skip stop : Nat} (h : codeFrom finalFlush run skip k buf = .closed stop) :
    k < stop := by
  induction buf generalizing skip k with
  | nil => cases h
  | cons b rest ih =>
    cases skip with
    | succ skip => exact Nat.lt_of_succ_lt (ih h)
    | zero =>
      simp only [codeFrom] at h
      split at h
      · cases h
      · split at h
        · rename_i hb
          subst hb
          have hpos := countRun_pos backtick rest
          split at h
          · cases h
          · split at h
            · cases h
              omega
            · exact Nat.lt_of_succ_lt (ih h)
        · exact Nat.lt_of_succ_lt (ih h)

theorem codeFrom_held {run skip stop : Nat} (h : codeFrom finalFlush run skip k buf = .held stop) :
    ∃ m, stop = k + m ∧ countRun backtick (buf.drop m) = (buf.drop m).length := by
  induction buf generalizing skip k with
  | nil => cases h
  | cons b rest ih =>
    have hlater : ∀ {skip}, codeFrom finalFlush run skip (k + 1) rest = .held stop →
        ∃ m, stop = k + m ∧
          countRun backtick ((b :: rest).drop m) = ((b :: rest).drop m).length := by
      intro skip h
      obtain ⟨m, rfl, hm⟩ := ih h
      exact ⟨m + 1, by omega, hm⟩
    cases skip with
    | succ skip => exact hlater h
    | zero =>
      simp only [codeFrom] at h
      split at h
      · cases h
      · split at h
        · split at h
          · rename_i hlast
            cases h
            exact ⟨0, rfl, hlast.1⟩
          · split at h
            · cases h
            · exact hlater h
        · exact hlater h

theorem lineLength_pos (h : buf ≠ []) : 0 < lineLength buf := by
  cases buf with
  | nil => exact absurd rfl h
  | cons b rest =>
    rw [lineLength]
    by_cases hb : b = lf
    · subst hb
      simp
    · have htake : (b :: rest).takeWhile (· != lf) = b :: rest.takeWhile (· != lf) :=
        takeWhile_cons_of_pos (by simp [hb])
      rw [htake, length_cons]
      split <;> omega

/-- A step holds back a last part of the buffer, or goes on with a shorter one. -/
def Takes (s : Step) (buf : Bytes) : Prop :=
  match s with
  | .hold _ rest => ∃ n, rest = buf.drop n
  | .go _ rest mode => (∃ n, 0 < n ∧ rest = buf.drop n) ∧ mode.Fences

theorem takes_hold (out buf : Bytes) : Takes (.hold out buf) buf := ⟨0, rfl⟩

theorem takes_go (out : Bytes) (hn : 0 < n) (hmode : mode.Fences) : Takes (.go out (buf.drop n) mode) buf :=
  ⟨⟨n, hn, rfl⟩, hmode⟩

theorem displayStep_takes (hlen : 0 < len) : Takes (displayStep finalFlush len buf) buf := by
  rw [displayStep]
  split
  · exact takes_go _ (by omega) trivial
  · exact takes_go _ hlen trivial
  · exact takes_hold _ _

theorem inlineStep_takes : Takes (inlineStep finalFlush buf) buf := by
  rw [inlineStep]
  split
  · simp only
    split
    · exact takes_go _ (by omega) trivial
    · exact takes_go _ (by omega) trivial
  · exact takes_go _ (by omega) trivial
  · exact takes_hold _ _

theorem backslashStep_takes : Takes (backslashStep finalFlush buf) buf := by
  rw [backslashStep]
  split
  · exact takes_hold _ _
  · exact inlineStep_takes
  · rename_i hdisplay
    have hlen := classifyBackslash_display hdisplay
    exact displayStep_takes (by omega)
  · rename_i hconvert
    exact takes_go _ (classifyBackslash_convert hconvert) trivial
  · rename_i hliteral
    exact takes_go _ (classifyBackslash_literal hliteral) trivial

theorem dollarStep_takes : Takes (dollarStep finalFlush buf) buf := by
  rw [dollarStep]
  split
  · exact takes_hold _ _
  · split
    · exact displayStep_takes (by omega)
    · exact takes_go _ (by omega) trivial

theorem byteStep_takes (hne : buf ≠ []) : Takes (byteStep finalFlush buf) buf := by
  cases buf with
  | nil => exact absurd rfl hne
  | cons b rest =>
    simp only [byteStep]
    split
    · show Takes (.go _ ((b :: rest).drop 1) _) _
      exact takes_go _ (by omega) trivial
    split
    · rename_i hb
      split
      · exact takes_hold _ _
      · subst hb
        exact takes_go _ (countRun_pos _ _) trivial
    split
    · exact backslashStep_takes
    split
    · exact dollarStep_takes
    · rename_i hlf hbacktick hbackslash hdollar
      have hfirst : ordinary b = true := by simp [ordinary, hlf, hbacktick, hbackslash, hdollar]
      have hpos : 0 < ((b :: rest).takeWhile ordinary).length := by
        rw [takeWhile_cons_of_pos hfirst, length_cons]
        omega
      rw [dropWhile_eq_drop]
      exact takes_go _ hpos trivial

variable (finalFlush) in
theorem step_takes (hmode : mode.Fences) (hne : buf ≠ []) : Takes (step finalFlush mode buf) buf := by
  obtain ⟨state, atLineStart⟩ := mode
  cases state with
  | normal =>
    simp only [step, normalStep]
    split
    · split
      · exact takes_hold _ _
      · rename_i hfound
        obtain ⟨hch, hstop⟩ := scanFenceOpen_found hfound
        exact takes_go _ hstop hch
      · exact byteStep_takes hne
    · exact byteStep_takes hne
  | inlineCode run =>
    simp only [step, codeStep]
    split
    · rename_i hnewline
      exact takes_go _ (codeFrom_newline hnewline) trivial
    · rename_i hclosed
      exact takes_go _ (codeFrom_closed hclosed) trivial
    · rename_i stop hheld
      exact ⟨stop, rfl⟩
    · have hnil : ([] : Bytes) = buf.drop buf.length := by rw [drop_length]
      rw [hnil]
      exact takes_go _ (length_pos_of_ne_nil hne) trivial
  | fenced ch len =>
    have hcontent : Takes (contentStep ch len buf) buf :=
      takes_go _ (lineLength_pos hne) hmode
    simp only [step, fencedStep]
    split
    · split
      · exact takes_hold _ _
      · rename_i hfound
        exact takes_go _ (scanFenceClose_found hfound) trivial
      · exact hcontent
    · exact hcontent

/-! ## The look-aheads -/

theorem inlineCloseFrom_needMore (h : inlineCloseFrom false k buf = .needMore)
    (hk : k ≤ maxMathSourceLen + 2) : k + buf.length ≤ maxMathSourceLen + 2 := by
  fun_induction inlineCloseFrom false k buf with
  | case1 | case3 | case4 | case6 => cases h
  | case2 k => exact hk
  | case5 k hle =>
    rw [length_singleton]
    omega
  | case7 k hle d rest hd ih =>
    have hlen := ih h (by omega)
    rw [length_cons, length_cons]
    omega
  | case8 k c rest hle hc ih =>
    have hlen := ih h (by omega)
    rw [length_cons]
    omega

/-- `k` bytes into the content, what is left is short, or ends in blanks behind a
line end. -/
def Short (k : Nat) (buf : Bytes) : Prop :=
  k + buf.length ≤ maxMathSourceLen + 17 ∨
    ∃ content blanks, buf = content ++ [lf] ++ blanks ∧ ∀ b ∈ blanks, isBlank b = true

theorem Short.cons {c : UInt8} (h : Short (k + 1) buf) : Short k (c :: buf) := by
  rcases h with h | ⟨content, blanks, rfl, hblanks⟩
  · left
    rw [length_cons]
    omega
  · exact .inr ⟨c :: content, blanks, rfl, hblanks⟩

theorem length_lt_of_closeToken {c d : UInt8} {couldExtend : Bool}
    (h : matchTokens [envEnd, envEndStarred] (c :: d :: rest) = (none, couldExtend))
    (hextend : (couldExtend && !false) = true) : (c :: d :: rest).length < 17 := by
  obtain ⟨tok, htok, hlt⟩ := length_lt_of_couldExtend
    (by
      rw [h]
      simpa using hextend)
  have hall : ∀ tok ∈ [envEnd, envEndStarred], tok.length ≤ 17 := by decide
  exact Nat.lt_of_lt_of_le hlt (hall tok htok)

theorem isBlank_of_dropWhile (h : buf.dropWhile isBlank = []) : ∀ b ∈ buf, isBlank b = true :=
  dropWhile_eq_nil_iff.mp h

theorem displayCloseFrom_needMore (h : displayCloseFrom false k buf = .needMore)
    (hk : k ≤ maxMathSourceLen + 2) : Short k buf := by
  fun_induction displayCloseFrom false k buf with
  | case1 | case3 | case4 | case6 | case7 | case11 | case13 | case15 | case17 => cases h
  | case2 k =>
    left
    rw [length_nil]
    omega
  | case5 k hle | case12 k hle =>
    left
    rw [length_singleton]
    omega
  | case8 k hle rest couldExtend hextend _ htokens =>
    left
    have hlen := length_lt_of_closeToken htokens hextend
    omega
  | case9 k hle rest couldExtend hextend _ htokens ih => exact (ih h (by omega)).cons.cons
  | case10 k hle d rest _ _ ih => exact (ih h (by omega)).cons.cons
  | case14 k hle d rest _ _ ih => exact (ih h (by omega)).cons
  | case16 k rest hle hblanks => exact .inr ⟨[], rest, rfl, isBlank_of_dropWhile hblanks⟩
  | case18 k rest hle d rest' _ _ _ _ ih => exact (ih h (by omega)).cons
  | case19 k c rest hle _ _ _ ih => exact (ih h (by omega)).cons

theorem exists_leadingSpaces (buf : Bytes) :
    buf = List.replicate (leadingSpaces buf) space ++ buf.drop (leadingSpaces buf) := by
  obtain ⟨rest, htake, -⟩ := exists_run space (buf.take 4)
  change buf.take 4 = List.replicate (leadingSpaces buf) space ++ rest at htake
  have hbuf : buf = List.replicate (leadingSpaces buf) space ++ (rest ++ buf.drop 4) := by
    rw [← append_assoc, ← htake, take_append_drop]
  have hdrop : buf.drop (leadingSpaces buf) = rest ++ buf.drop 4 := by
    have hlen : (List.replicate (leadingSpaces buf) space).length = leadingSpaces buf :=
      length_replicate
    calc buf.drop (leadingSpaces buf)
        = (List.replicate (leadingSpaces buf) space ++ (rest ++ buf.drop 4)).drop
            (List.replicate (leadingSpaces buf) space).length := by rw [← hbuf, hlen]
      _ = rest ++ buf.drop 4 := drop_left
  rw [hdrop]
  exact hbuf

theorem scanFenceOpen_needMore (hruns : NoLongRun buf) (h : scanFenceOpen false buf = .needMore) :
    buf.length ≤ heldBound := by
  have hlen := congrArg List.length (exists_leadingSpaces buf)
  rw [length_append, length_replicate] at hlen
  rw [scanFenceOpen] at h
  simp only at h
  split at h
  · cases h
  rename_i hspaces
  split at h
  · rename_i hnil
    rw [hnil, length_nil] at hlen
    have hbound : 3 ≤ heldBound := by decide
    omega
  · rename_i ch rest hcons
    split at h
    · cases h
    rename_i hch
    split at h
    · rename_i hrun
      have hle := (hruns.drop (leadingSpaces buf)).countRun_le
        (show ch = backtick ∨ ch = tilde by tauto)
      rw [hcons, hrun.1] at hle
      rw [hcons] at hlen
      have hbound : 3 + 64 ≤ heldBound := by decide
      omega
    · split at h <;> cases h

theorem scanFenceClose_needMore (hch : ch = backtick ∨ ch = tilde) (hruns : NoLongRun buf)
    (h : scanFenceClose ch len false buf = .needMore) : buf.length ≤ heldBound ∨
      ∃ spaces run blanks, spaces < 4 ∧ len ≤ run ∧ 0 < run ∧
        buf = List.replicate spaces space ++ List.replicate run ch ++ blanks ∧
        ∀ b ∈ blanks, isBlank b = true := by
  have hbuf := exists_leadingSpaces buf
  have hlen := congrArg List.length hbuf
  rw [length_append, length_replicate] at hlen
  rw [scanFenceClose] at h
  simp only at h
  split at h
  · cases h
  rename_i hspaces
  split at h
  · rename_i hnil
    left
    rw [hnil, length_nil] at hlen
    have hbound : 3 ≤ heldBound := by decide
    omega
  · rename_i b rest hcons
    split at h
    · cases h
    rename_i hsame
    rw [not_not] at hsame
    subst hsame
    have hle := (hruns.drop (leadingSpaces buf)).countRun_le hch
    rw [hcons] at hle hlen hbuf
    split at h
    · rename_i hrun
      left
      rw [hrun.1] at hle
      have hbound : 3 + 64 ≤ heldBound := by decide
      omega
    split at h
    · cases h
    rename_i hrun
    split at h
    · rename_i hblanks
      right
      obtain ⟨after, hafter, -⟩ := exists_run b (b :: rest)
      have hdrop : (b :: rest).drop (countRun b (b :: rest)) = after := by
        conv_lhs => rw [hafter]
        rw [drop_left' (by rw [length_replicate, ← hafter])]
      rw [hdrop] at hblanks
      refine ⟨leadingSpaces buf, countRun b (b :: rest), after, by omega, by omega, countRun_pos b rest,
        ?_, isBlank_of_dropWhile hblanks⟩
      rw [append_assoc, ← hafter]
      exact hbuf
    · split at h <;> cases h

/-! ## What a step holds back -/

theorem exists_opener {b : UInt8} (h : classifyBackslash finalFlush (backslash :: b :: rest) = .displayOpen len) :
    ∃ opener ∈ displayOpeners, opener <+: backslash :: b :: rest ∧ opener.length = len := by
  simp only [classifyBackslash, tail_cons] at h
  split at h
  · cases h
  split at h
  · cases h
  split at h
  · cases h
  split at h
  · rename_i hbracket
    subst hbracket
    obtain rfl := Backslash.displayOpen.inj h
    exact ⟨ascii "\\[", mem_cons_self, ⟨rest, rfl⟩, rfl⟩
  split at h
  · cases h
  split at h
  · split at h
    · rename_i hconvert
      obtain ⟨tok, htok, hpre, rfl⟩ := matchEnv_convert hconvert
      split at h
      · rename_i hb
        obtain rfl := Backslash.displayOpen.inj h
        subst hb
        -- the closing tokens go on with an `e`
        have hall : ∀ tok ∈ envTokens, tok[1]? = some 'b'.toUInt8 → tok ∈ displayOpeners := by
          decide
        refine ⟨tok, hall tok htok ?_, hpre, rfl⟩
        obtain ⟨behind, hbuf⟩ := hpre
        rw [← getElem?_append_left (length_envTokens htok).1, hbuf]
        rfl
      · cases h
    · cases h
    · cases h
  · cases h

theorem length_opener {opener : Bytes} (h : opener ∈ displayOpeners) :
    2 ≤ opener.length ∧ opener.length ≤ 17 := by
  revert opener
  decide

theorem displayStep_hold {opener : Bytes} {atLineStart : Bool} (hopener : opener ∈ displayOpeners)
    (hpre : opener <+: buf) (h : displayStep false opener.length buf = .hold out rest) :
    rest = buf ∧ (buf.length ≤ heldBound ∨
      ∃ front blanks, buf = front ++ blanks ∧ Waits ⟨.normal, atLineStart⟩ front blanks) := by
  obtain ⟨content, rfl⟩ := hpre
  have hbound := length_opener hopener
  rw [displayStep, drop_left] at h
  split at h
  · cases h
  · cases h
  · rename_i hneed
    obtain ⟨-, rfl⟩ := Step.hold.inj h
    refine ⟨rfl, ?_⟩
    rcases displayCloseFrom_needMore hneed (Nat.zero_le _) with hshort | ⟨inside, blanks, rfl, hblanks⟩
    · left
      have hvalue : heldBound = maxMathSourceLen + 128 := rfl
      rw [length_append]
      omega
    · right
      refine ⟨opener ++ inside ++ [lf], blanks, by simp only [append_assoc], hblanks, ?_⟩
      exact ⟨opener, hopener, inside, rfl, hneed⟩

theorem backslashStep_hold {b : UInt8} {atLineStart : Bool}
    (h : backslashStep false (backslash :: b :: rest) = .hold out buf) :
    buf = backslash :: b :: rest ∧ ((backslash :: b :: rest).length ≤ heldBound ∨
      ∃ front blanks, backslash :: b :: rest = front ++ blanks ∧
        Waits ⟨.normal, atLineStart⟩ front blanks) := by
  rw [backslashStep] at h
  split at h
  · rename_i hneed
    obtain ⟨-, rfl⟩ := Step.hold.inj h
    refine ⟨rfl, .inl ?_⟩
    simp only [classifyBackslash, tail_cons] at hneed
    repeat' split at hneed
    all_goals try cases hneed
    rename_i henv
    have hlen := matchEnv_needMore henv
    have hvalue : 17 ≤ heldBound := by decide
    omega
  · rw [inlineStep] at h
    split at h
    · simp only at h
      split at h <;> cases h
    · cases h
    · rename_i hneed
      obtain ⟨-, rfl⟩ := Step.hold.inj h
      have hlen := inlineCloseFrom_needMore hneed (Nat.zero_le _)
      have hvalue : heldBound = maxMathSourceLen + 128 := rfl
      refine ⟨rfl, .inl ?_⟩
      simp only [drop_succ_cons, drop_zero] at hlen
      rw [length_cons, length_cons]
      omega
  · rename_i hdisplay
    obtain ⟨opener, hopener, hpre, rfl⟩ := exists_opener hdisplay
    exact displayStep_hold hopener hpre h
  · cases h
  · cases h

theorem byteStep_hold {atLineStart : Bool} (hruns : NoLongRun buf)
    (h : byteStep false buf = .hold out rest) : rest = buf ∧ (buf.length ≤ heldBound ∨
      ∃ front blanks, buf = front ++ blanks ∧ Waits ⟨.normal, atLineStart⟩ front blanks) := by
  cases buf with
  | nil =>
    obtain ⟨-, rfl⟩ := Step.hold.inj h
    exact ⟨rfl, .inl (Nat.zero_le _)⟩
  | cons b buf =>
    simp only [byteStep] at h
    split at h
    · cases h
    split at h
    · split at h
      · rename_i hb hrun
        obtain ⟨-, rfl⟩ := Step.hold.inj h
        have hle := hruns.countRun_le (.inl rfl)
        rw [hrun.1] at hle
        have hvalue : 64 ≤ heldBound := by decide
        exact ⟨rfl, .inl (by omega)⟩
      · cases h
    split at h
    · rename_i hb
      subst hb
      cases buf with
      | nil =>
        obtain ⟨-, rfl⟩ := Step.hold.inj h
        exact ⟨rfl, .inl (by decide)⟩
      | cons d buf => exact backslashStep_hold h
    split at h
    · rename_i hb
      subst hb
      rw [dollarStep] at h
      split at h
      · rename_i hlast
        obtain ⟨-, rfl⟩ := Step.hold.inj h
        refine ⟨rfl, .inl ?_⟩
        rw [hlast.2.1]
        decide
      split at h
      · rename_i hrun
        have hopener : [dollar, dollar] ∈ displayOpeners := by decide
        refine displayStep_hold hopener ?_ h
        obtain ⟨behind, hbuf, -⟩ := exists_run dollar (dollar :: buf)
        obtain ⟨m, hm⟩ := Nat.exists_eq_add_of_le hrun
        refine ⟨List.replicate m dollar ++ behind, ?_⟩
        rw [hbuf, hm, replicate_add, append_assoc]
        rfl
      · cases h
    · cases h

theorem step_hold (hmode : mode.Fences) (hruns : NoLongRun buf)
    (h : step false mode buf = .hold out rest) : rest.length ≤ heldBound ∨
      rest = buf ∧ ∃ front blanks, buf = front ++ blanks ∧ Waits mode front blanks := by
  obtain ⟨state, atLineStart⟩ := mode
  cases state with
  | normal =>
    have hbyte : byteStep false buf = .hold out rest → rest.length ≤ heldBound ∨
        rest = buf ∧ ∃ front blanks, buf = front ++ blanks ∧
          Waits ⟨.normal, atLineStart⟩ front blanks := by
      intro hstep
      obtain ⟨rfl, hlen | hwaits⟩ := byteStep_hold hruns hstep
      · exact .inl hlen
      · exact .inr ⟨rfl, hwaits⟩
    simp only [step, normalStep] at h
    split at h
    · split at h
      · rename_i hneed
        obtain ⟨-, rfl⟩ := Step.hold.inj h
        exact .inl (scanFenceOpen_needMore hruns hneed)
      · cases h
      · exact hbyte h
    · exact hbyte h
  | inlineCode run =>
    simp only [step, codeStep] at h
    split at h
    · cases h
    · cases h
    · rename_i stop hheld
      obtain ⟨-, rfl⟩ := Step.hold.inj h
      obtain ⟨m, rfl, hlast⟩ := codeFrom_held hheld
      rw [Nat.zero_add]
      have hle := (hruns.drop m).countRun_le (.inl rfl)
      rw [hlast] at hle
      have hvalue : 64 ≤ heldBound := by decide
      exact .inl (by omega)
    · cases h
  | fenced ch len =>
    simp only [step, fencedStep] at h
    split at h
    · rename_i hstart
      split at h
      · rename_i hneed
        obtain ⟨-, rfl⟩ := Step.hold.inj h
        rcases scanFenceClose_needMore hmode hruns hneed with
          hlen | ⟨spaces, run, blanks, hspaces, hlen, hrun, rfl, hblanks⟩
        · exact .inl hlen
        · exact .inr ⟨rfl, _, blanks, rfl, hblanks, hstart, spaces, run, hspaces, hlen, hrun, rfl⟩
      · cases h
      · cases h
    · cases h

/-! ## A wait holds everything back -/

theorem leadingSpaces_append {b : UInt8} (hn : n < 4) (hb : b ≠ space) :
    leadingSpaces (List.replicate n space ++ b :: rest) = n := by
  have htake : (List.replicate n space ++ b :: rest).take 4 =
      List.replicate n space ++ b :: rest.take (3 - n) := by
    rw [take_append, length_replicate, take_replicate, Nat.min_eq_right (by omega)]
    congr 1
    obtain ⟨m, hm⟩ := Nat.exists_eq_add_of_le (show n ≤ 3 by omega)
    have hone : 4 - n = m + 1 := by omega
    have hrest : 3 - n = m := by omega
    rw [hone, hrest, take_succ_cons]
  rw [leadingSpaces, htake]
  apply countRun_append
  rw [head?_cons]
  exact fun h => hb (Option.some.inj h)

theorem scanFenceOpen_no {b : UInt8} (hspace : b ≠ space) (hbacktick : b ≠ backtick) (htilde : b ≠ tilde) :
    scanFenceOpen finalFlush (b :: rest) = .no := by
  have hspaces : leadingSpaces (b :: rest) = 0 := leadingSpaces_append (n := 0) (by omega) hspace
  rw [scanFenceOpen, hspaces]
  simp [hbacktick, htilde]

theorem normalStep_byte {b : UInt8} (hspace : b ≠ space) (hbacktick : b ≠ backtick) (htilde : b ≠ tilde)
    (atLineStart : Bool) : normalStep finalFlush atLineStart (b :: rest) = byteStep finalFlush (b :: rest) := by
  rw [normalStep, scanFenceOpen_no hspace hbacktick htilde]
  simp

theorem classifyBackslash_opener {opener : Bytes} (h : opener ∈ displayOpeners)
    (hfirst : opener.head? = some backslash) (content : Bytes) :
    classifyBackslash false (opener ++ content) = .displayOpen opener.length := by
  simp only [displayOpeners, mem_cons, not_mem_nil, or_false] at h
  rcases h with rfl | rfl | rfl | rfl
  · rfl
  · cases hfirst
  · rfl
  · rfl

theorem byteStep_opener {opener : Bytes} (h : opener ∈ displayOpeners) (content : Bytes) :
    byteStep false (opener ++ content) = displayStep false opener.length (opener ++ content) := by
  by_cases hfirst : opener.head? = some backslash
  · obtain ⟨tail, rfl⟩ := head?_eq_some_iff.mp hfirst
    have hclassify := classifyBackslash_opener h hfirst content
    rw [cons_append] at hclassify ⊢
    simp only [byteStep]
    rw [if_neg (by decide), if_neg (by decide), if_pos trivial, backslashStep, hclassify]
  · have hopener : opener = [dollar, dollar] := by
      revert hfirst
      revert h
      revert opener
      decide
    subst hopener
    have hrun : 2 ≤ countRun dollar (dollar :: dollar :: content) := by simp [countRun]
    simp only [byteStep, cons_append, nil_append]
    rw [if_neg (by decide), if_neg (by decide), if_neg (by decide), if_pos trivial, dollarStep]
    rw [if_neg (by omega), if_pos hrun]
    rfl

theorem displayStep_needMore {opener content : Bytes} (h : findDisplayClose false content = .needMore) :
    displayStep false opener.length (opener ++ content) = .hold [] (opener ++ content) := by
  rw [displayStep, drop_left, h]

theorem isBlank_ne_fence (hch : ch = backtick ∨ ch = tilde) : isBlank ch = false ∧ ch ≠ space := by
  rcases hch with rfl | rfl
  · decide
  · decide

theorem scanFenceClose_wait {spaces run : Nat} {blanks : Bytes} (hch : ch = backtick ∨ ch = tilde)
    (hspaces : spaces < 4) (hlen : len ≤ run) (hrun : 0 < run) (hblanks : ∀ b ∈ blanks, isBlank b = true) :
    scanFenceClose ch len false
      (List.replicate spaces space ++ List.replicate run ch ++ blanks) = .needMore := by
  obtain ⟨hblank, hspace⟩ := isBlank_ne_fence hch
  obtain ⟨m, rfl⟩ := Nat.exists_eq_succ_of_ne_zero (Nat.pos_iff_ne_zero.mp hrun)
  have hhead : blanks.head? ≠ some ch := by
    intro hhead
    have hmem := hblanks ch (mem_of_head? hhead)
    rw [hblank] at hmem
    cases hmem
  have hrunlen := countRun_append (m + 1) hhead
  have hnone : blanks.dropWhile isBlank = [] := dropWhile_eq_nil_iff.mpr hblanks
  have hdrop : (List.replicate (m + 1) ch ++ blanks).drop (m + 1) = blanks :=
    drop_left' length_replicate
  rw [replicate_succ, cons_append] at hrunlen hdrop
  have hstart : leadingSpaces (List.replicate spaces space ++ ch :: (List.replicate m ch ++ blanks)) =
      spaces := leadingSpaces_append hspaces hspace
  rw [append_assoc, replicate_succ, cons_append, scanFenceClose]
  simp only [hstart]
  rw [if_neg (by omega), drop_left' length_replicate]
  simp only [hrunlen, hdrop, hnone]
  simp only [ne_eq, not_true, if_false, Bool.false_eq_true]
  split
  · rfl
  · rw [if_neg (by omega)]

theorem Waits.hold {front blanks : Bytes} (hmode : mode.Fences) (h : Waits mode front blanks) :
    front ≠ [] ∧ step false mode (front ++ blanks) = .hold [] (front ++ blanks) := by
  obtain ⟨state, atLineStart⟩ := mode
  obtain ⟨hblanks, hwaits⟩ := h
  cases state with
  | normal =>
    obtain ⟨opener, hopener, content, rfl, hneed⟩ := hwaits
    refine ⟨by simp, ?_⟩
    have hbuf : opener ++ content ++ [lf] ++ blanks = opener ++ (content ++ [lf] ++ blanks) := by
      simp only [append_assoc]
    have hfirst : ∃ b tail, opener = b :: tail ∧ b ≠ space ∧ b ≠ backtick ∧ b ≠ tilde := by
      have hall : ∀ opener ∈ displayOpeners, opener ≠ [] ∧ opener.head? ≠ some space ∧
          opener.head? ≠ some backtick ∧ opener.head? ≠ some tilde := by decide
      obtain ⟨hne, hspace, hbacktick, htilde⟩ := hall opener hopener
      obtain ⟨b, tail, rfl⟩ := exists_cons_of_ne_nil hne
      rw [head?_cons] at hspace hbacktick htilde
      exact ⟨b, tail, rfl, fun h => hspace (by rw [h]), fun h => hbacktick (by rw [h]),
        fun h => htilde (by rw [h])⟩
    have hstep : step false ⟨.normal, atLineStart⟩ (opener ++ (content ++ [lf] ++ blanks)) =
        byteStep false (opener ++ (content ++ [lf] ++ blanks)) := by
      obtain ⟨b, tail, rfl, hspace, hbacktick, htilde⟩ := hfirst
      exact normalStep_byte hspace hbacktick htilde atLineStart
    rw [hbuf, hstep, byteStep_opener hopener, displayStep_needMore hneed]
  | inlineCode run => exact absurd hwaits id
  | fenced ch len =>
    obtain ⟨hstart, spaces, run, hspaces, hlen, hrun, rfl⟩ := hwaits
    constructor
    · intro hnil
      have hzero := congrArg List.length hnil
      rw [length_append, length_replicate, length_replicate, length_nil] at hzero
      omega
    · change atLineStart = true at hstart
      subst hstart
      simp only [step, fencedStep, if_true, scanFenceClose_wait hmode hspaces hlen hrun hblanks]

/-! ## A push -/

/-- Where the processing ends: at the end of the buffer, or at what it holds back. -/
theorem processFrom_arrives (hmode : mode.Fences) (hn : buf.length ≤ n) :
    ∃ last, Arrives mode buf (processFrom false n mode buf).mode last ∧ last <:+ buf ∧
      (processFrom false n mode buf).mode.Fences ∧ (processFrom false n mode buf).rest <:+ last ∧
      ((processFrom false n mode buf).rest = [] ∨
        ∃ out, step false (processFrom false n mode buf).mode last =
          .hold out (processFrom false n mode buf).rest) := by
  induction n generalizing mode buf with
  | zero =>
    obtain rfl := length_eq_zero_iff.mp (Nat.le_zero.mp hn)
    exact ⟨[], .refl _ _, suffix_rfl, hmode, suffix_rfl, .inl rfl⟩
  | succ n ih =>
    cases buf with
    | nil => exact ⟨[], .refl _ _, suffix_rfl, hmode, suffix_rfl, .inl rfl⟩
    | cons b buf =>
      have htakes := step_takes false hmode (cons_ne_nil b buf)
      simp only [processFrom]
      cases hstep : step false mode (b :: buf) with
      | hold out rest =>
        rw [hstep] at htakes
        obtain ⟨m, rfl⟩ := htakes
        exact ⟨b :: buf, .refl _ _, suffix_rfl, hmode, drop_suffix _ _, .inr ⟨out, hstep⟩⟩
      | go out rest mode' =>
        rw [hstep] at htakes
        obtain ⟨⟨m, hm, rfl⟩, hmode'⟩ := htakes
        have hlen : ((b :: buf).drop m).length ≤ n := by
          rw [length_drop]
          omega
        obtain ⟨last, harrives, hsuffix, hrest⟩ := ih hmode' hlen
        exact ⟨last, .go (cons_ne_nil b buf) hstep harrives,
          hsuffix.trans (drop_suffix _ _), hrest⟩

theorem Arrives.rest_eq {final : Mode} {last : Bytes} (h : Arrives mode buf final last)
    (hmode : mode.Fences) (hn : buf.length ≤ n) (hlast : last ≠ [])
    (hhold : step false final last = .hold out rest) : (processFrom false n mode buf).rest = rest := by
  induction h generalizing n with
  | refl mode buf =>
    obtain ⟨b, buf, rfl⟩ := exists_cons_of_ne_nil hlast
    obtain ⟨n, rfl⟩ := Nat.exists_eq_succ_of_ne_zero (show n ≠ 0 by
      rw [length_cons] at hn
      omega)
    simp only [processFrom, hhold]
  | @go mode mode' final buf rest' last out' hne hgo later ih =>
    obtain ⟨b, buf, rfl⟩ := exists_cons_of_ne_nil hne
    obtain ⟨n, rfl⟩ := Nat.exists_eq_succ_of_ne_zero (show n ≠ 0 by
      rw [length_cons] at hn
      omega)
    have htakes := step_takes false hmode hne
    rw [hgo] at htakes
    obtain ⟨⟨m, hm, rfl⟩, hmode'⟩ := htakes
    simp only [processFrom, hgo]
    apply ih hmode' _ hlast hhold
    rw [length_drop]
    omega

theorem Arrives.fences {final : Mode} {last : Bytes} (h : Arrives mode buf final last)
    (hmode : mode.Fences) : final.Fences := by
  induction h with
  | refl => exact hmode
  | go hne hgo _ ih =>
    have htakes := step_takes false hmode hne
    rw [hgo] at htakes
    exact ih htakes.2

theorem Arrives.suffix {final : Mode} {last : Bytes} (h : Arrives mode buf final last)
    (hmode : mode.Fences) : last <:+ buf := by
  induction h with
  | refl => exact suffix_rfl
  | go hne hgo _ ih =>
    have htakes := step_takes false hmode hne
    rw [hgo] at htakes
    obtain ⟨⟨m, -, rfl⟩, hmode'⟩ := htakes
    exact (ih hmode').trans (drop_suffix _ _)

/-- In a short buffer all blanks fit. -/
theorem blanksFit_of_length {nz : LatexDelimiterNormalizer} {chunk : Bytes} (hmode : nz.mode.Fences)
    (h : (nz.pending ++ chunk).length ≤ heldBound) : BlanksFit nz chunk := by
  intro mode front blanks harrives _
  rw [← length_append]
  exact (harrives.suffix hmode).length_le.trans h

theorem NoLongRun.of_infix {s t : Bytes} (h : NoLongRun t) (hst : s <:+: t) : NoLongRun s :=
  fun ch _ hch hrun => h ch _ hch (hrun.trans hst)

/-- A push holds back a bounded part exactly where the blanks it waits behind fit. -/
theorem push_pending_iff {nz : LatexDelimiterNormalizer} {chunk : Bytes} (hmode : nz.mode.Fences)
    (hne : chunk ≠ []) (hruns : NoLongRun (nz.pending ++ chunk)) :
    (nz.push chunk).2.pending.length ≤ heldBound ↔ BlanksFit nz chunk := by
  have hpending : (nz.push chunk).2.pending =
      (processFrom false (nz.pending ++ chunk).length nz.mode (nz.pending ++ chunk)).rest := by
    rw [LatexDelimiterNormalizer.push, if_neg hne]
    rfl
  rw [hpending]
  constructor
  · intro hbound mode front blanks harrives hwaits
    obtain ⟨hfront, hhold⟩ := hwaits.hold (harrives.fences hmode)
    have hlast : front ++ blanks ≠ [] := by
      intro hnil
      exact hfront (append_eq_nil_iff.mp hnil).1
    rw [harrives.rest_eq hmode le_rfl hlast hhold, length_append] at hbound
    exact hbound
  · intro hfit
    obtain ⟨last, harrives, hsuffix, hfinal, -, hrest | ⟨out, hhold⟩⟩ :=
      processFrom_arrives hmode (Nat.le_refl (nz.pending ++ chunk).length)
    · rw [hrest]
      exact Nat.zero_le _
    · rcases step_hold hfinal (hruns.of_infix hsuffix.isInfix) hhold with
        hlen | ⟨heq, front, blanks, rfl, hwaits⟩
      · exact hlen
      · rw [heq, length_append]
        exact hfit _ front blanks harrives hwaits

/-! ## Runs of pushes -/

/-- The normalizer behind some pushes. -/
def pushAll (chunks : List Bytes) : LatexDelimiterNormalizer :=
  chunks.foldl (fun nz chunk => (nz.push chunk).2) .new

theorem pushAll_concat (chunks : List Bytes) (chunk : Bytes) :
    pushAll (chunks ++ [chunk]) = ((pushAll chunks).push chunk).2 := by
  rw [pushAll, foldl_append]
  rfl

theorem pushAll_invariant (chunks : List Bytes) :
    (pushAll chunks).mode.Fences ∧ (pushAll chunks).pending <:+ chunks.flatten := by
  induction chunks using List.reverseRecOn with
  | nil => exact ⟨trivial, suffix_rfl⟩
  | append_singleton chunks chunk ih =>
    rw [pushAll_concat, flatten_append, flatten_singleton, LatexDelimiterNormalizer.push]
    split
    · rename_i hnil
      subst hnil
      rw [append_nil]
      exact ih
    · obtain ⟨last, -, hsuffix, hmode, hrest, -⟩ :=
        processFrom_arrives ih.1 (Nat.le_refl ((pushAll chunks).pending ++ chunk).length)
      refine ⟨hmode, (hrest.trans hsuffix).trans ?_⟩
      obtain ⟨front, hfront⟩ := ih.2
      exact ⟨front, by rw [← append_assoc, hfront]⟩

/-- In every run of pushes of a text without long runs, at most
`MAX_MATH_SOURCE_LEN + 128` bytes are held back at any time exactly where in every
push the blanks fit that the processing waits behind. -/
theorem held_back_bounded_iff (chunks : List Bytes) (hruns : NoLongRun chunks.flatten) :
    (∀ cs, cs <+: chunks → (pushAll cs).pending.length ≤ heldBound) ↔
      ∀ cs chunk, cs ++ [chunk] <+: chunks → chunk ≠ [] → BlanksFit (pushAll cs) chunk := by
  have hstep : ∀ cs chunk, cs ++ [chunk] <+: chunks → chunk ≠ [] →
      ((pushAll (cs ++ [chunk])).pending.length ≤ heldBound ↔ BlanksFit (pushAll cs) chunk) := by
    intro cs chunk hpre hne
    obtain ⟨hmode, hsuffix⟩ := pushAll_invariant cs
    rw [pushAll_concat]
    apply push_pending_iff hmode hne
    obtain ⟨front, hfront⟩ := hsuffix
    obtain ⟨later, hlater⟩ := hpre
    refine hruns.of_infix ⟨front, later.flatten, ?_⟩
    rw [← hlater, flatten_append, flatten_append, flatten_singleton, ← hfront]
    simp only [append_assoc]
  constructor
  · intro hbound cs chunk hpre hne
    exact (hstep cs chunk hpre hne).mp (hbound _ hpre)
  · intro hfit cs hpre
    induction cs using List.reverseRecOn with
    | nil => exact Nat.zero_le _
    | append_singleton cs chunk ih =>
      by_cases hne : chunk = []
      · rw [pushAll_concat, hne]
        exact ih ((prefix_append _ _).trans hpre)
      · exact (hstep cs chunk hpre hne).mpr (hfit cs chunk hpre hne)

theorem push_blanks (n : Nat) :
    (pushAll [[dollar, dollar, lf] ++ List.replicate n space]).pending.length = 3 + n := by
  have hblanks : ∀ b ∈ List.replicate n space, isBlank b = true := by
    intro b hb
    rw [eq_of_mem_replicate hb]
    rfl
  have hnone : (List.replicate n space).dropWhile isBlank = [] := dropWhile_eq_nil_iff.mpr hblanks
  have hneed : findDisplayClose false ([] ++ [lf] ++ List.replicate n space) = .needMore := by
    rw [nil_append, singleton_append, findDisplayClose]
    unfold displayCloseFrom
    rw [if_neg (by decide), if_neg (by decide), if_neg (by decide), if_pos rfl, hnone]
    rfl
  have hwaits : Waits LatexDelimiterNormalizer.new.mode [dollar, dollar, lf] (List.replicate n space) :=
    ⟨hblanks, [dollar, dollar], by decide, [], rfl, hneed⟩
  have hmode : LatexDelimiterNormalizer.new.mode.Fences := trivial
  have hrest := (Arrives.refl _ _).rest_eq hmode le_rfl (by simp) (hwaits.hold hmode).2
  have hpending : (pushAll [[dollar, dollar, lf] ++ List.replicate n space]).pending =
      [dollar, dollar, lf] ++ List.replicate n space := hrest
  rw [hpending, length_append, length_replicate]
  rfl

/-- An opener, a line end and blanks, and then the rest of the span: the first
push waits behind the blanks. -/
def threeBlanks : List Bytes := [[dollar, dollar, lf] ++ List.replicate 3 space, ascii "x$$"]

theorem held_back_bounded_iff_threeBlanks :
    (pushAll (threeBlanks.take 1)).pending.length = 6 ∧
      ∀ cs, cs <+: threeBlanks → (pushAll cs).pending.length ≤ heldBound := by
  have hruns : NoLongRun threeBlanks.flatten := by
    intro ch n _ hrun
    have hlen := hrun.length_le
    rw [length_replicate] at hlen
    exact hlen.trans (by decide)
  refine ⟨push_blanks 3, (held_back_bounded_iff threeBlanks hruns).mpr fun cs chunk hpre _ => ?_⟩
  obtain ⟨hmode, hsuffix⟩ := pushAll_invariant cs
  apply blanksFit_of_length hmode
  have hall : (cs.flatten ++ chunk).length ≤ threeBlanks.flatten.length := by
    obtain ⟨later, hlater⟩ := hpre
    rw [← hlater, flatten_append, flatten_append, flatten_singleton]
    exact (prefix_append _ _).length_le
  have hpending := hsuffix.length_le
  have hbound : threeBlanks.flatten.length ≤ heldBound := by decide
  rw [length_append] at hall ⊢
  omega

/-- An opener, a line end and 4300 blanks: all of it is held back. -/
theorem blanks_held_back :
    NoLongRun [[dollar, dollar, lf] ++ List.replicate 4300 space].flatten ∧
      ¬ ∀ cs, cs <+: [[dollar, dollar, lf] ++ List.replicate 4300 space] →
        (pushAll cs).pending.length ≤ heldBound := by
  constructor
  · intro ch n hch hrun
    by_contra hlong
    have hmem : ch ∈ [[dollar, dollar, lf] ++ List.replicate 4300 space].flatten :=
      hrun.subset (mem_replicate.mpr ⟨by omega, rfl⟩)
    have hbytes : ch = dollar ∨ ch = lf ∨ ch = space := by
      simp only [flatten_singleton, mem_append, mem_cons, not_mem_nil, or_false,
        mem_replicate] at hmem
      tauto
    rcases hch with rfl | rfl
    · revert hbytes
      decide
    · revert hbytes
      decide
  · intro hbound
    have hlen := hbound _ prefix_rfl
    rw [push_blanks] at hlen
    exact absurd hlen (by decide)

end GrokBuild.Markdown
