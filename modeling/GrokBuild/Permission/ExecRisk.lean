import GrokBuild.Permission.Peeling

/-!
# Permissions: the second normalization

`exec_risk.rs` peels the words of a command once more before it looks for the
flags of `git` and `sort` that run a program. Its rounds are those of
`normalize_command_words`, with three differences: it goes on where the options
of an `env` are uncertain, it does not look again at an `env` behind a full row of
wrappers, and it gives up after the last round without a look at what is left.
The two agree but for these (`normalizers_agree_iff`).
-/

namespace GrokBuild.Permission

open TextLines Str

/-! ## `exec_risk.rs` -/

inductive NormalizedArgv where
  | ready (words : List Text)
  | failClosed
deriving DecidableEq

/-- The loop of `normalize_for_exec_risk`. -/
def normalizeForExecRiskFrom : Nat → List Text → NormalizedArgv
  | 0, _ => .failClosed
  | n + 1, current =>
    let checked := unwrapWrappersChecked (.of current)
    if checked.exhausted || checked.hasSplitString || checked.hasChdir then .failClosed
    else match peelTransparentPrefixes checked.words with
      | none => .failClosed
      | some afterTrans =>
        -- the same slice as before the round, or as behind the wrappers
        if afterTrans.length = current.length then .ready afterTrans
        else if afterTrans.length = checked.words.length then .ready afterTrans
        else normalizeForExecRiskFrom n afterTrans

/-- Alternate canonical wrappers and transparent prefixes until fixed point. -/
def normalizeForExecRisk (words : List Text) : NormalizedArgv :=
  normalizeForExecRiskFrom maxNormalizeRounds words

/-- `minLen` is the shortest unique stem. -/
def isAcceptedLongOptionPrefix (flag : Text) (full : String) (minLen : Nat) : Bool :=
  startsWith flag "--" && minLen ≤ byteLen flag && flag.isPrefixOf full.toList &&
    flag.all fun c => c.isAlphanum || c == '-'

/-- `strip_suffix(".exe")`, or the name as it is. -/
def stripExe (name : Text) : Text :=
  if ".exe".toList.isSuffixOf name then name.take (name.length - ".exe".length) else name

def normalizedProgramName (words : List Text) : Option Text :=
  match words with
  | [] => none
  | raw :: _ =>
    let base := basename raw
    if base = [] then none else some (stripExe (base.map Char.toLower))

def isGitProgram (words : List Text) : Bool := normalizedProgramName words == some "git".toList

def isSortProgram (words : List Text) : Bool := normalizedProgramName words == some "sort".toList

/-- The part in front of the first `=`. -/
def flagName (tok : Text) : Text := ((splitOnce ['='] tok).map (·.1)).getD tok

/-- The loop of `sort_has_compress_program_flag`. -/
def sortFlagsFrom : List Text → Bool
  | [] => false
  | w :: words =>
    if w = "--".toList then false
    else if w = "--compress-program".toList ∨ startsWith w "--compress-program=" then true
    else if isAcceptedLongOptionPrefix (flagName w) "--compress-program" 4 then true
    else sortFlagsFrom words

/-- GNU `sort --compress-program`; stops at `--`. -/
def sortHasCompressProgramFlag (words : List Text) : Bool := sortFlagsFrom words.tail

def isGitConfigEnvFlag (tok : Text) : Bool :=
  tok == "--config-env".toList || startsWith tok "--config-env=" ||
    isAcceptedLongOptionPrefix (flagName tok) "--config-env" 4

/-- Presence fails closed: these retarget which config git reads. -/
def isGitRepoRetargetFlag (tok : Text) : Bool :=
  tok == "--git-dir".toList || startsWith tok "--git-dir=" || tok == "--work-tree".toList ||
    startsWith tok "--work-tree=" || isAcceptedLongOptionPrefix (flagName tok) "--git-dir" 4 ||
    isAcceptedLongOptionPrefix (flagName tok) "--work-tree" 4

def isAttachedGitConfigC (tok : Text) : Bool :=
  startsWith tok "-c" && 2 < byteLen tok && !startsWith tok "--"

def attachedGitCPath (tok : Text) : Option Text :=
  (stripPrefix tok "-C").filter fun rest => rest ≠ [] && !startsWith tok "--"

def gitGlobalOptionTakesValue (tok : Text) : Bool :=
  oneOf tok ["-C", "-c", "--git-dir", "--work-tree", "--namespace", "--super-prefix", "--exec-path",
      "--list-cmds", "--attr-source", "--config-env"] ||
    isAcceptedLongOptionPrefix tok "--config-env" 4 ||
    isAcceptedLongOptionPrefix tok "--git-dir" 4 ||
    isAcceptedLongOptionPrefix tok "--work-tree" 4 ||
    isAcceptedLongOptionPrefix tok "--namespace" 7 ||
    isAcceptedLongOptionPrefix tok "--super-prefix" 8 ||
    isAcceptedLongOptionPrefix tok "--exec-path" 7 ||
    isAcceptedLongOptionPrefix tok "--list-cmds" 7 ||
    isAcceptedLongOptionPrefix tok "--attr-source" 8

/-- The loop of `git_has_exec_risk_global`: options in front of the subcommand. -/
def gitFlagsFrom : List Text → Bool
  | [] => false
  | tok :: rest =>
    if tok = "--".toList then false
    else if startsWith tok "-" = false ∨ tok = "-".toList then false
    else if tok = "-c".toList ∨ isAttachedGitConfigC tok ∨ isGitConfigEnvFlag tok ∨
        isGitRepoRetargetFlag tok then true
    -- `-Cpath` is cwd-only
    else if (attachedGitCPath tok).isSome then gitFlagsFrom rest
    else if !tok.contains '=' && gitGlobalOptionTakesValue tok then
      match rest with
      | [] => false
      | value :: rest' =>
        if startsWith value "-" = false ∨ value = "-".toList then gitFlagsFrom rest'
        else gitFlagsFrom (value :: rest')
    else gitFlagsFrom rest

def gitHasExecRiskGlobal (words : List Text) : Bool := gitFlagsFrom words.tail

def segmentHasExecRiskFlag (words : List Text) : Bool :=
  if isSortProgram words then sortHasCompressProgramFlag words
  else if isGitProgram words then gitHasExecRiskGlobal words
  else false

structure SegmentExecFacts where
  execRisk : Bool
  hasGit : Bool
deriving DecidableEq

/-- Normalize raw segment words, then inspect git/sort. -/
def segmentExecFacts (words : List Text) : SegmentExecFacts :=
  match normalizeForExecRisk words with
  | .failClosed => ⟨true, false⟩
  | .ready inner => ⟨segmentHasExecRiskFlag inner, isGitProgram inner⟩

/-! ## Agreement -/

/-- One of the facts is set for which callers ask. -/
def Peel.refused (p : Peel) : Bool := p.hasChdir || p.flagged

/-- The two normalizations agree: on the words, with no fact set, or on failing
closed; and what the policy does not peel is a risk. -/
structure NormalizersAgree (words : List Text) : Prop where
  ready : ∀ w, normalizeForExecRisk words = .ready w → normalizeCommandWords words = .of w
  failClosed : normalizeForExecRisk words = .failClosed → (normalizeCommandWords words).refused = true
  risk : (normalizeCommandWords words).refused = true → (segmentExecFacts words).execRisk = true

/-- An `env` that packs a command line, has options the code does not know, or
changes the directory. -/
def envTroubles (words : List Text) : Bool :=
  headIs words "env" && ((envScan words).chdir.isSome || (envScan words).hasSplitString ||
    (envScan words).optionsUncertain)

/-- The wrappers come off without a fact that fails the second normalization. -/
def Unwraps (words : List Text) : Prop :=
  (unwrapWrappersChecked (.of words)).exhausted = false ∧
    (unwrapWrappersChecked (.of words)).hasSplitString = false ∧
    (unwrapWrappersChecked (.of words)).hasChdir = false

/-- One full round: wrappers, if any, and at least one transparent prefix. -/
def FullRound (words next : List Text) : Prop :=
  Unwraps words ∧
    peelTransparentPrefixes (unwrapWrappersChecked (.of words)).words = some next ∧
    next ≠ (unwrapWrappersChecked (.of words)).words

/-- `n` full rounds in a row. -/
inductive FullRounds : Nat → List Text → List Text → Prop where
  | refl (words : List Text) : FullRounds 0 words words
  | step {n : Nat} {words next final : List Text} (round : FullRound words next)
      (rest : FullRounds n next final) : FullRounds (n + 1) words final

/-- With `n` rounds left, the wrappers end at an `env` with uncertain options, or at
one of which nothing has been seen and which another round would look at. -/
def EndsAtEnv (n : Nat) (words : List Text) : Prop :=
  Unwraps words ∧ ((unwrapWrappersChecked (.of words)).envOptionsUncertain = true ∨
    1 < n ∧ envTroubles (unwrapWrappersChecked (.of words)).words = true)

def NothingLeft (words : List Text) : Prop :=
  stripWrapperCommand words = none ∧ stripTransparentPrefix words = .notPrefix

/-- Where the normalizations part ways, with `n` rounds left. -/
def PartWays (n : Nat) (words : List Text) : Prop :=
  (∃ k rest, k < n ∧ FullRounds k words rest ∧ EndsAtEnv (n - k) rest) ∨
    ∃ rest, FullRounds n words rest ∧ NothingLeft rest

variable {words next rest : List Text} {p : Peel} {n : Nat}

/-! ## Facts that stay -/

namespace Peel

theorem refused_eq_false_iff : p.refused = false ↔ p = .of p.words := by
  obtain ⟨words, chdir, split, uncertain, exhausted, ambiguous⟩ := p
  simp only [refused, flagged, of, Bool.or_eq_false_iff, mk.injEq, true_and]
  tauto

@[simp] theorem refused_of (words : List Text) : (Peel.of words).refused = false := rfl

theorem noteEnv_refused (p : Peel) : p.noteEnv.refused = (p.refused || envTroubles p.words) := by
  unfold noteEnv
  split
  · rename_i hhead
    simp only [refused, flagged, envTroubles, hhead, Bool.true_and]
    cases p.hasChdir <;> cases p.exhausted <;> cases p.ambiguous <;> cases p.hasSplitString <;>
      cases p.envOptionsUncertain <;> simp [Bool.or_assoc]
  · rename_i hhead
    rw [Bool.not_eq_true] at hhead
    rw [envTroubles, hhead, Bool.false_and, Bool.or_false]

end Peel

theorem unwrapFrom_refused (n : Nat) (h : p.refused = true) : (unwrapFrom n p).refused = true := by
  induction n generalizing p with
  | zero =>
    simp only [Peel.refused, Peel.flagged, unwrapFrom, Bool.or_eq_true] at h ⊢
    tauto
  | succ n ih =>
    have hnoted : p.noteEnv.refused = true := by rw [Peel.noteEnv_refused, h, Bool.true_or]
    simp only [unwrapFrom]
    split
    · exact ih hnoted
    · exact hnoted

theorem unwrapFrom_troubles (n : Nat) (h : envTroubles p.words = true) :
    (unwrapFrom (n + 1) p).refused = true := by
  have hnoted : p.noteEnv.refused = true := by rw [Peel.noteEnv_refused, h, Bool.or_true]
  simp only [unwrapFrom]
  split
  · exact unwrapFrom_refused n hnoted
  · exact hnoted

theorem normalizeFrom_of_wrapped (hkeeps : ∀ q : Peel, q.refused = true → (normalizeFrom n q).refused = true)
    (h : (unwrapWrappersChecked p).refused = true) : (normalizeFrom (n + 1) p).refused = true := by
  simp only [normalizeFrom]
  split
  · exact h
  · split
    · simp [Peel.refused, Peel.flagged]
    · split
      · exact h
      · exact hkeeps _ h

theorem normalizeFrom_refused (n : Nat) (h : p.refused = true) : (normalizeFrom n p).refused = true := by
  induction n generalizing p with
  | zero => exact h
  | succ n ih => exact normalizeFrom_of_wrapped (fun q hq => ih hq) (unwrapFrom_refused _ h)

/-! ## Behind the wrappers -/

theorem stripTransparentPrefix_of_env (h : headIs words "env" = true) :
    stripTransparentPrefix words = .notPrefix := by
  cases words with
  | nil => cases h
  | cons program args =>
    rw [headIs, beq_iff_eq] at h
    simp only [stripTransparentPrefix, h]
    split <;> rfl

theorem stripWrapperCommand_of_uncertain (h : headIs words "env" = true)
    (huncertain : (envScan words).optionsUncertain = true) : stripWrapperCommand words = none := by
  cases words with
  | nil => rfl
  | cons program args =>
    rw [headIs, beq_iff_eq] at h
    simp [stripWrapperCommand, h, huncertain]

theorem unwrapFrom_stuck (n : Nat) (h : (unwrapFrom n p).exhausted = false) :
    stripWrapperCommand (unwrapFrom n p).words = none := by
  induction n generalizing p with
  | zero =>
    simp only [unwrapFrom, Bool.or_eq_false_iff] at h ⊢
    cases hstrip : stripWrapperCommand p.words with
    | none => rfl
    | some inner => simp [hstrip, isWrapperCommand_of_strip hstrip] at h
  | succ n ih =>
    simp only [unwrapFrom] at h ⊢
    cases hstrip : stripWrapperCommand p.noteEnv.words with
    | none =>
      simp only [hstrip] at h ⊢
    | some inner =>
      simp only [hstrip] at h ⊢
      exact ih h

theorem headIs_of_uncertain (n : Nat) (h : p.envOptionsUncertain = false)
    (huncertain : (unwrapFrom n p).envOptionsUncertain = true) :
    headIs (unwrapFrom n p).words "env" = true := by
  induction n generalizing p with
  | zero =>
    have hsame : p.envOptionsUncertain = true := huncertain
    rw [h] at hsame
    cases hsame
  | succ n ih =>
    simp only [unwrapFrom, Peel.noteEnv_words] at huncertain ⊢
    cases hstrip : stripWrapperCommand p.words with
    | none =>
      simp only [hstrip] at huncertain ⊢
      rw [Peel.noteEnv_words]
      unfold Peel.noteEnv at huncertain
      split at huncertain
      · assumption
      · rw [h] at huncertain
        cases huncertain
    | some inner =>
      simp only [hstrip] at huncertain ⊢
      refine ih ?_ huncertain
      unfold Peel.noteEnv
      split
      · rename_i hhead
        simp only [h, Bool.false_or]
        by_contra hscan
        rw [Bool.not_eq_false] at hscan
        rw [stripWrapperCommand_of_uncertain hhead hscan] at hstrip
        cases hstrip
      · exact h

theorem unwrapFrom_ambiguous (n : Nat) (p : Peel) : (unwrapFrom n p).ambiguous = p.ambiguous := by
  induction n generalizing p with
  | zero => rfl
  | succ n ih =>
    have hnoted : p.noteEnv.ambiguous = p.ambiguous := by
      unfold Peel.noteEnv
      split <;> rfl
    simp only [unwrapFrom]
    split
    · rw [ih]
      exact hnoted
    · exact hnoted

theorem unwrapFrom_of_stuck (n : Nat) (h : stripWrapperCommand words = none) :
    unwrapFrom (n + 1) (.of words) = (Peel.of words).noteEnv := by
  have hwords : (Peel.of words).noteEnv.words = words := Peel.noteEnv_words _
  simp only [unwrapFrom]
  rw [hwords, h]

theorem Unwraps.eq_of (h : Unwraps words)
    (hcertain : (unwrapWrappersChecked (.of words)).envOptionsUncertain = false) :
    unwrapWrappersChecked (.of words) = .of (unwrapWrappersChecked (.of words)).words := by
  rw [← Peel.refused_eq_false_iff]
  have hambiguous : (unwrapWrappersChecked (.of words)).ambiguous = false := unwrapFrom_ambiguous _ _
  simp only [Peel.refused, Peel.flagged, h.1, h.2.1, h.2.2, hcertain, hambiguous, Bool.or_self]

theorem Unwraps.length_le (h : Unwraps words)
    (hcertain : (unwrapWrappersChecked (.of words)).envOptionsUncertain = false) :
    (unwrapWrappersChecked (.of words)).words.length ≤ words.length := by
  have hflags : (unwrapWrappersChecked (.of words)).flagged = false := by
    rw [h.eq_of hcertain]
    rfl
  obtain ⟨-, k, -, hpeeled, -⟩ := unwrapFrom_spec _ _ hflags
  have hlen := hpeeled.length_add_le
  simp only [Peel.of] at hlen
  exact Nat.le_trans (Nat.le_add_right _ k) hlen

theorem peelTransparentPrefixes_spec (h : peelTransparentPrefixes words = some next) :
    stripTransparentPrefix next = .notPrefix ∧ (next = words ∨ next.length < words.length) := by
  obtain ⟨k, hpeeled, hend⟩ := peelTransparentFrom_spec _ h
  refine ⟨hend, ?_⟩
  have hlen := hpeeled.length_add_le
  cases k with
  | zero => exact .inl hpeeled.eq_of_zero.symm
  | succ k => exact .inr (by omega)

theorem peelTransparentPrefixes_of_notPrefix (h : stripTransparentPrefix words = .notPrefix) :
    peelTransparentPrefixes words = some words := by
  rw [peelTransparentPrefixes, maxTransparentPrefixDepth, peelTransparentFrom, h]

/-! ## One round -/

theorem round_cases (words : List Text) :
    (¬ Unwraps words ∨ Unwraps words ∧
        peelTransparentPrefixes (unwrapWrappersChecked (.of words)).words = none) ∨
      (Unwraps words ∧ peelTransparentPrefixes (unwrapWrappersChecked (.of words)).words =
        some (unwrapWrappersChecked (.of words)).words) ∨
      ∃ next, FullRound words next := by
  by_cases hunwraps : Unwraps words
  · cases hpeel : peelTransparentPrefixes (unwrapWrappersChecked (.of words)).words with
    | none => exact .inl (.inr ⟨hunwraps, rfl⟩)
    | some next =>
      by_cases hsame : next = (unwrapWrappersChecked (.of words)).words
      · subst hsame
        exact .inr (.inl ⟨hunwraps, rfl⟩)
      · exact .inr (.inr ⟨next, hunwraps, hpeel, hsame⟩)
  · exact .inl (.inl hunwraps)

theorem checked_eq_false_iff : ((unwrapWrappersChecked (.of words)).exhausted ||
    (unwrapWrappersChecked (.of words)).hasSplitString ||
    (unwrapWrappersChecked (.of words)).hasChdir) = false ↔ Unwraps words := by
  rw [Bool.or_eq_false_iff, Bool.or_eq_false_iff, and_assoc]
  exact Iff.rfl

theorem EndsAtEnv.peel (h : EndsAtEnv n words) :
    peelTransparentPrefixes (unwrapWrappersChecked (.of words)).words =
      some (unwrapWrappersChecked (.of words)).words := by
  apply peelTransparentPrefixes_of_notPrefix
  apply stripTransparentPrefix_of_env
  rcases h.2 with huncertain | ⟨-, htroubles⟩
  · exact headIs_of_uncertain _ rfl huncertain
  · rw [envTroubles, Bool.and_eq_true] at htroubles
    exact htroubles.1

theorem FullRound.not_endsAtEnv (h : FullRound words next) : ¬ EndsAtEnv n words := by
  intro hends
  exact h.2.2 (Option.some.inj (h.2.1.symm.trans hends.peel))

theorem FullRound.eq {next' : List Text} (h : FullRound words next) (h' : FullRound words next') :
    next' = next := Option.some.inj (h'.2.1.symm.trans h.2.1)

theorem FullRound.certain (h : FullRound words next) :
    (unwrapWrappersChecked (.of words)).envOptionsUncertain = false := by
  by_contra huncertain
  rw [Bool.not_eq_false] at huncertain
  exact h.not_endsAtEnv (n := 0) ⟨h.1, .inl huncertain⟩

theorem partWays_succ : PartWays (n + 1) words ↔
    EndsAtEnv (n + 1) words ∨ ∃ next, FullRound words next ∧ PartWays n next := by
  constructor
  · rintro (⟨k, rest, hk, hrounds, hends⟩ | ⟨rest, hrounds, hnothing⟩)
    · cases hrounds with
      | refl => exact .inl hends
      | @step k _ next _ round hrounds =>
        rw [Nat.add_sub_add_right] at hends
        exact .inr ⟨next, round, .inl ⟨k, rest, by omega, hrounds, hends⟩⟩
    · cases hrounds with
      | step round hrounds => exact .inr ⟨_, round, .inr ⟨rest, hrounds, hnothing⟩⟩
  · rintro (hends | ⟨next, round, ⟨k, rest, hk, hrounds, hends⟩ | ⟨rest, hrounds, hnothing⟩⟩)
    · exact .inl ⟨0, words, Nat.succ_pos n, .refl words, hends⟩
    · refine .inl ⟨k + 1, rest, by omega, .step round hrounds, ?_⟩
      rwa [Nat.add_sub_add_right]
    · exact .inr ⟨rest, .step round hrounds, hnothing⟩

theorem partWays_zero : PartWays 0 words ↔ NothingLeft words := by
  constructor
  · rintro (⟨k, rest, hk, -⟩ | ⟨rest, hrounds, hnothing⟩)
    · exact absurd hk (Nat.not_lt_zero k)
    · cases hrounds
      exact hnothing
  · intro hnothing
    exact .inr ⟨words, .refl words, hnothing⟩

/-! ## The rounds of both -/

/-- The two loops agree, up to the look of the first at what is left. -/
def AgreeFrom (n : Nat) (words : List Text) : Prop :=
  match normalizeForExecRiskFrom n words with
  | .ready w => normalizeFrom n (.of words) = .of w
  | .failClosed => (normalizeFrom n (.of words)).refused = true ∨
      ¬ NothingLeft (normalizeFrom n (.of words)).words

theorem normalizeForExecRiskFrom_fails (h : ¬ Unwraps words ∨ Unwraps words ∧
    peelTransparentPrefixes (unwrapWrappersChecked (.of words)).words = none) :
    normalizeForExecRiskFrom (n + 1) words = .failClosed := by
  simp only [normalizeForExecRiskFrom]
  rcases h with h | ⟨hunwraps, hpeel⟩
  · rw [← checked_eq_false_iff, Bool.not_eq_false] at h
    rw [h, if_pos rfl]
  · rw [checked_eq_false_iff.mpr hunwraps, hpeel]
    rfl

theorem agreeFrom_of_fails (h : ¬ Unwraps words ∨ Unwraps words ∧
    peelTransparentPrefixes (unwrapWrappersChecked (.of words)).words = none) :
    AgreeFrom (n + 1) words := by
  rw [AgreeFrom, normalizeForExecRiskFrom_fails h]
  left
  rcases h with h | ⟨hunwraps, hpeel⟩
  · refine normalizeFrom_of_wrapped (fun q hq => normalizeFrom_refused n hq) ?_
    rw [← checked_eq_false_iff, Bool.not_eq_false] at h
    simp only [Peel.refused, Peel.flagged, Bool.or_eq_true] at h ⊢
    tauto
  · simp only [normalizeFrom, hpeel]
    split
    · rename_i hstop
      simp only [Peel.refused, Peel.flagged, Bool.or_eq_true] at hstop ⊢
      tauto
    · simp [Peel.refused, Peel.flagged]

theorem normalizeFrom_round {last : List Text} (n : Nat)
    (h : unwrapWrappersChecked (.of words) = .of last) :
    normalizeFrom (n + 1) (.of words) =
      match peelTransparentPrefixes last with
      | none => { Peel.of last with ambiguous := true }
      | some inner =>
        if inner.length = words.length then .of inner else normalizeFrom n (.of inner) := by
  rw [normalizeFrom]
  simp only [h]
  rfl

theorem normalizeForExecRiskFrom_stop (hunwraps : Unwraps words)
    (hpeel : peelTransparentPrefixes (unwrapWrappersChecked (.of words)).words =
      some (unwrapWrappersChecked (.of words)).words) :
    normalizeForExecRiskFrom (n + 1) words = .ready (unwrapWrappersChecked (.of words)).words := by
  simp only [normalizeForExecRiskFrom]
  rw [checked_eq_false_iff.mpr hunwraps, hpeel, if_neg Bool.false_ne_true]
  simp

/-- Where the second stops, the first stops with nothing seen, or it sees an `env`. -/
theorem agreeFrom_of_stops (hunwraps : Unwraps words)
    (hpeel : peelTransparentPrefixes (unwrapWrappersChecked (.of words)).words =
      some (unwrapWrappersChecked (.of words)).words) :
    AgreeFrom (n + 1) words ↔ ¬ EndsAtEnv (n + 1) words := by
  have hstuck : stripWrapperCommand (unwrapWrappersChecked (.of words)).words = none :=
    unwrapFrom_stuck _ hunwraps.1
  rw [AgreeFrom, normalizeForExecRiskFrom_stop hunwraps hpeel]
  simp only
  by_cases hcertain : (unwrapWrappersChecked (.of words)).envOptionsUncertain = false
  · have heq := hunwraps.eq_of hcertain
    have hseen : envTroubles words = true →
        (unwrapWrappersChecked (.of words)).refused = true :=
      unwrapFrom_troubles (p := .of words) 7
    generalize hlast : (unwrapWrappersChecked (.of words)).words = last at *
    have hends : EndsAtEnv (n + 1) words ↔ 1 < n + 1 ∧ envTroubles last = true := by
      rw [EndsAtEnv, hcertain, hlast]
      simp [hunwraps]
    have hstep : normalizeFrom (n + 1) (.of words) =
        if last.length = words.length then .of last else normalizeFrom n (.of last) := by
      rw [normalizeFrom_round n heq, hpeel]
    rw [hends, hstep]
    by_cases hlen : last.length = words.length
    · -- no wrapper came off, so the words have been looked at
      rw [if_pos hlen]
      have hsame : last = words := by
        have hflags : (unwrapWrappersChecked (.of words)).flagged = false := by
          rw [heq]
          rfl
        obtain ⟨-, k, -, hpeeled, -⟩ := unwrapFrom_spec _ _ hflags
        have htotal := hpeeled.length_add_le
        change Peeled k words (unwrapWrappersChecked (.of words)).words at hpeeled
        change (unwrapWrappersChecked (.of words)).words.length + k ≤ words.length at htotal
        rw [hlast] at hpeeled htotal
        obtain rfl : k = 0 := by omega
        exact hpeeled.eq_of_zero.symm
      rw [heq] at hseen
      rw [hsame]
      simp only [true_iff, not_and]
      intro _ htroubles
      cases hseen htroubles
    · rw [if_neg hlen]
      cases n with
      | zero => simp [normalizeFrom]
      | succ n =>
        have hnoted : unwrapWrappersChecked (.of last) = (Peel.of last).noteEnv :=
          unwrapFrom_of_stuck _ hstuck
        have hrefused := Peel.noteEnv_refused (.of last)
        rw [Peel.refused_of, Bool.false_or] at hrefused
        change _ = envTroubles last at hrefused
        cases htroubles : envTroubles last with
        | true =>
          have hagain : (normalizeFrom (n + 1) (.of last)).refused = true := by
            refine normalizeFrom_of_wrapped (fun q hq => normalizeFrom_refused n hq) ?_
            rw [hnoted, hrefused, htroubles]
          constructor
          · intro hof
            rw [hof] at hagain
            cases hagain
          · intro hnot
            exact absurd ⟨by omega, rfl⟩ hnot
        | false =>
          rw [htroubles, Peel.refused_eq_false_iff, Peel.noteEnv_words] at hrefused
          change _ = Peel.of last at hrefused
          rw [normalizeFrom_round n (hnoted.trans hrefused), hpeel]
          simp
  · rw [Bool.not_eq_false] at hcertain
    have hrefused : (normalizeFrom (n + 1) (.of words)).refused = true := by
      refine normalizeFrom_of_wrapped (fun q hq => normalizeFrom_refused n hq) ?_
      simp [Peel.refused, Peel.flagged, hcertain]
    constructor
    · intro hof
      rw [hof] at hrefused
      cases hrefused
    · intro hnot
      exact absurd ⟨hunwraps, .inl hcertain⟩ hnot

theorem FullRound.length_lt (round : FullRound words next) :
    next.length < (unwrapWrappersChecked (.of words)).words.length :=
  (peelTransparentPrefixes_spec round.2.1).2.resolve_left round.2.2

theorem normalizeForExecRiskFrom_round (round : FullRound words next) :
    normalizeForExecRiskFrom (n + 1) words = normalizeForExecRiskFrom n next := by
  have hle := round.1.length_le round.certain
  have hlt := round.length_lt
  simp only [normalizeForExecRiskFrom]
  rw [checked_eq_false_iff.mpr round.1, round.2.1, if_neg Bool.false_ne_true]
  simp only
  rw [if_neg (by omega), if_neg (by omega)]

theorem agreeFrom_of_round (round : FullRound words next) :
    AgreeFrom (n + 1) words ↔ AgreeFrom n next := by
  have hle := round.1.length_le round.certain
  have hlt := round.length_lt
  have hfirst : normalizeFrom (n + 1) (.of words) = normalizeFrom n (.of next) := by
    rw [normalizeFrom_round n (round.1.eq_of round.certain), round.2.1]
    exact if_neg (by omega)
  rw [AgreeFrom, AgreeFrom, normalizeForExecRiskFrom_round round, hfirst]

theorem agreeFrom_iff (n : Nat) (words : List Text) : AgreeFrom n words ↔ ¬ PartWays n words := by
  induction n generalizing words with
  | zero =>
    rw [partWays_zero]
    simp [AgreeFrom, normalizeForExecRiskFrom, normalizeFrom, Peel.of, Peel.refused, Peel.flagged]
  | succ n ih =>
    rw [partWays_succ]
    rcases round_cases words with hfails | ⟨hunwraps, hpeel⟩ | ⟨next, round⟩
    · have hnone : ¬ (EndsAtEnv (n + 1) words ∨ ∃ next, FullRound words next ∧ PartWays n next) := by
        rintro (hends | ⟨next, round, -⟩)
        · rcases hfails with hfails | ⟨-, hpeel⟩
          · exact hfails hends.1
          · rw [hends.peel] at hpeel
            cases hpeel
        · rcases hfails with hfails | ⟨-, hpeel⟩
          · exact hfails round.1
          · rw [round.2.1] at hpeel
            cases hpeel
      exact iff_of_true (agreeFrom_of_fails hfails) hnone
    · rw [agreeFrom_of_stops hunwraps hpeel, not_or, not_exists, iff_self_and]
      rintro - next ⟨round, -⟩
      exact round.2.2 (Option.some.inj (round.2.1.symm.trans hpeel))
    · rw [agreeFrom_of_round round, ih, not_or]
      constructor
      · intro hnot
        refine ⟨round.not_endsAtEnv, ?_⟩
        rintro ⟨next', round', hpart⟩
        rw [round.eq round'] at hpart
        exact hnot hpart
      · rintro ⟨-, hnot⟩ hpart
        exact hnot ⟨next, round, hpart⟩

/-! ## Both as a whole -/

theorem nothingLeft_iff : NothingLeft words ↔
    (isWrapperCommand words && (stripWrapperCommand words).isSome ||
      decide (stripTransparentPrefix words ≠ .notPrefix)) = false := by
  rw [NothingLeft, Bool.or_eq_false_iff, decide_eq_false_iff_not, not_not]
  apply and_congr_left
  intro _
  cases hstrip : stripWrapperCommand words with
  | none => simp
  | some inner => simp [isWrapperCommand_of_strip hstrip]

theorem normalizeCommandWords_of_nothingLeft
    (h : NothingLeft (normalizeFrom maxNormalizeRounds (.of words)).words) :
    normalizeCommandWords words = normalizeFrom maxNormalizeRounds (.of words) := by
  rw [nothingLeft_iff] at h
  rw [normalizeCommandWords]
  simp only [h, Bool.false_eq_true, if_false, ite_self]

theorem normalizeCommandWords_refused
    (h : (normalizeFrom maxNormalizeRounds (.of words)).refused = true ∨
      ¬ NothingLeft (normalizeFrom maxNormalizeRounds (.of words)).words) :
    (normalizeCommandWords words).refused = true := by
  rw [normalizeCommandWords]
  simp only
  split
  · rename_i hflags
    simp only [Peel.refused, Peel.flagged, Bool.or_eq_true] at hflags ⊢
    tauto
  · split
    · simp [Peel.refused, Peel.flagged]
    · rename_i hnothing
      rw [Bool.not_eq_true, ← nothingLeft_iff] at hnothing
      exact h.resolve_right (not_not_intro hnothing)

theorem normalizeCommandWords_eq_of {w : List Text} (h : normalizeCommandWords words = .of w) :
    normalizeFrom maxNormalizeRounds (.of words) = .of w := by
  rw [normalizeCommandWords] at h
  simp only at h
  split at h
  · exact h
  · split at h
    · have hexhausted := congrArg Peel.exhausted h
      cases hexhausted
    · exact h

theorem nothingLeft_of_ready {w : List Text} (h : normalizeForExecRiskFrom n words = .ready w) :
    NothingLeft w := by
  induction n generalizing words with
  | zero => cases h
  | succ n ih =>
    rcases round_cases words with hfails | ⟨hunwraps, hpeel⟩ | ⟨next, round⟩
    · rw [normalizeForExecRiskFrom_fails hfails] at h
      cases h
    · rw [normalizeForExecRiskFrom_stop hunwraps hpeel] at h
      obtain rfl := NormalizedArgv.ready.inj h
      exact ⟨unwrapFrom_stuck _ hunwraps.1, (peelTransparentPrefixes_spec hpeel).1⟩
    · rw [normalizeForExecRiskFrom_round round] at h
      exact ih h

theorem normalizersAgree_iff_agreeFrom : NormalizersAgree words ↔ AgreeFrom maxNormalizeRounds words := by
  constructor
  · rintro ⟨hready, hfails, -⟩
    rw [AgreeFrom]
    cases hsecond : normalizeForExecRiskFrom maxNormalizeRounds words with
    | ready w => exact normalizeCommandWords_eq_of (hready w hsecond)
    | failClosed =>
      have hrefused := hfails hsecond
      by_cases hnothing : NothingLeft (normalizeFrom maxNormalizeRounds (.of words)).words
      · rw [normalizeCommandWords_of_nothingLeft hnothing] at hrefused
        exact .inl hrefused
      · exact .inr hnothing
  · intro hagree
    rw [AgreeFrom] at hagree
    cases hsecond : normalizeForExecRiskFrom maxNormalizeRounds words with
    | ready w =>
      rw [hsecond] at hagree
      have heq : normalizeCommandWords words = .of w := by
        have hnothing : NothingLeft (normalizeFrom maxNormalizeRounds (.of words)).words := by
          rw [hagree]
          exact nothingLeft_of_ready hsecond
        rw [normalizeCommandWords_of_nothingLeft hnothing, hagree]
      constructor
      · intro w' hw'
        obtain rfl := NormalizedArgv.ready.inj (hsecond.symm.trans hw')
        exact heq
      · intro hfails
        cases hsecond.symm.trans hfails
      · intro hrefused
        rw [heq] at hrefused
        cases hrefused
    | failClosed =>
      rw [hsecond] at hagree
      constructor
      · intro w hw
        cases hsecond.symm.trans hw
      · intro _
        exact normalizeCommandWords_refused hagree
      · intro _
        rw [segmentExecFacts, normalizeForExecRisk, hsecond]

/-- The two normalizations agree on every command but those where they part ways:
behind fewer than sixteen full rounds the wrappers end at an `env` with uncertain
options, or at one that only another round would look at; or sixteen full rounds
leave nothing to peel. -/
theorem normalizers_agree_iff (words : List Text) :
    NormalizersAgree words ↔ ¬ PartWays maxNormalizeRounds words := by
  rw [normalizersAgree_iff_agreeFrom, agreeFrom_iff]

/-- Behind an option of `env` that the code does not know, `git` is not looked at. -/
theorem uncertain_env_no_risk :
    ¬ NormalizersAgree ["env".toList, "-Z".toList, "git".toList, "-c".toList, "core.pager=x".toList,
      "log".toList] := by
  intro hagree
  have hrisk := hagree.risk (by decide)
  revert hrisk
  decide

/-- Nor at a packed command line behind eight wrappers. -/
example : (segmentExecFacts (List.replicate 8 "nice".toList ++ ["env".toList, "-S".toList,
      "git log".toList])).execRisk = false ∧
    (normalizeCommandWords (List.replicate 8 "nice".toList ++ ["env".toList, "-S".toList,
      "git log".toList])).hasSplitString = true := by
  decide

/-- Sixteen full rounds are given up though nothing is left. -/
example : (segmentExecFacts ((List.replicate 16 ["env".toList, "command".toList]).flatten ++
      ["ls".toList])).execRisk = true ∧
    normalizeCommandWords ((List.replicate 16 ["env".toList, "command".toList]).flatten ++
      ["ls".toList]) = .of ["ls".toList] := by
  decide

end GrokBuild.Permission
