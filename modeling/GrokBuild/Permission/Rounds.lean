import GrokBuild.Permission.ExecRisk

/-!
# Permissions: what the rounds leave

Each round of `normalize_command_words` peels something, sets a flag or is the
last one. So without a flag the words are peeled down to a form that another
normalization leaves alone, unless all the rounds are used up and nothing is left
to peel: what they end at has not been looked at then (`normalizesFully_iff`).
-/

namespace GrokBuild.Permission

open TextLines Str

variable {words next rest : List Text} {p q : Peel} {n : Nat}

/-- One round that peels something and sees nothing to ask about. -/
structure Progress (words next : List Text) : Prop where
  unflagged : (unwrapWrappersChecked (.of words)).flagged = false
  ready : peelTransparentPrefixes (unwrapWrappersChecked (.of words)).words = some next
  moved : next.length ≠ words.length

/-- `n` rounds in a row that peel something. -/
inductive Rounds : Nat → List Text → List Text → Prop where
  | refl (words : List Text) : Rounds 0 words words
  | step {n : Nat} {words next final : List Text} (round : Progress words next)
      (rest : Rounds n next final) : Rounds (n + 1) words final

/-- The normalization reaches a form that is flagged or that does not peel. -/
structure NormalizesFully (words : List Text) : Prop where
  suffix : (normalizeCommandWords words).words <:+ words
  settled : (normalizeCommandWords words).flagged = false →
    NothingLeft (normalizeCommandWords words).words ∧
      (normalizeCommandWords (normalizeCommandWords words).words).words =
        (normalizeCommandWords words).words ∧
      (normalizeCommandWords (normalizeCommandWords words).words).flagged = false
  wrapperShortens : ∀ argv inner, stripWrapperCommand argv = some inner →
    inner.length < argv.length
  prefixShortens : ∀ argv inner, stripTransparentPrefix argv = .peeled inner →
    inner.length < argv.length
  /-- All rounds are used up only in front of something that peels. -/
  budget : ∀ rest, Rounds maxNormalizeRounds words rest →
    ¬ NothingLeft rest ∧ (normalizeCommandWords words).exhausted = true

/-! ## What is returned is the end of the words -/

theorem unwrapFrom_suffix (n : Nat) (p : Peel) : (unwrapFrom n p).words <:+ p.words := by
  induction n generalizing p with
  | zero => exact List.suffix_rfl
  | succ n ih =>
    simp only [unwrapFrom, Peel.noteEnv_words]
    cases hstrip : stripWrapperCommand p.words with
    | none => exact (Peel.noteEnv_words p).symm ▸ List.suffix_rfl
    | some inner =>
      exact ((ih _).trans (stripWrapperCommand_suffix hstrip)).trans (List.tail_suffix _)

theorem peelTransparentFrom_suffix (n : Nat) (h : peelTransparentFrom n words = some next) :
    next <:+ words := by
  obtain ⟨k, hpeeled, _⟩ := peelTransparentFrom_spec n h
  exact hpeeled.suffix

theorem normalizeFrom_suffix (n : Nat) (p : Peel) : (normalizeFrom n p).words <:+ p.words := by
  induction n generalizing p with
  | zero => exact List.suffix_rfl
  | succ n ih =>
    have hwrapped : (unwrapWrappersChecked p).words <:+ p.words := unwrapFrom_suffix _ p
    simp only [normalizeFrom]
    split
    · exact hwrapped
    · split
      · exact hwrapped
      · rename_i inner hinner
        have hsuffix := (peelTransparentFrom_suffix _ hinner).trans hwrapped
        split
        · exact hsuffix
        · exact (ih _).trans hsuffix

theorem normalizeCommandWords_words (words : List Text) :
    (normalizeCommandWords words).words = (normalizeFrom maxNormalizeRounds (.of words)).words := by
  simp only [normalizeCommandWords]
  split
  · rfl
  · split <;> rfl

/-! ## Rounds with and without earlier facts -/

theorem Peel.noteEnv_flagged (p : Peel) : p.noteEnv.flagged = (p.flagged || envAsks p.words) := by
  unfold noteEnv
  split
  · rename_i hhead
    simp only [flagged, envAsks, hhead, Bool.true_and]
    cases p.exhausted <;> cases p.ambiguous <;> cases p.hasSplitString <;>
      cases p.envOptionsUncertain <;> simp
  · rename_i hhead
    rw [Bool.not_eq_true] at hhead
    rw [envAsks, hhead, Bool.false_and, Bool.or_false]

/-- The loop over wrappers depends on earlier facts only by what it adds to. -/
theorem unwrapFrom_congr (n : Nat) (hwords : p.words = q.words) (hflags : p.flagged = q.flagged) :
    (unwrapFrom n p).words = (unwrapFrom n q).words ∧
      (unwrapFrom n p).flagged = (unwrapFrom n q).flagged := by
  induction n generalizing p q with
  | zero =>
    refine ⟨hwords, ?_⟩
    have hmore : ∀ r : Peel, (unwrapFrom 0 r).flagged =
        (r.flagged || (isWrapperCommand r.words && (stripWrapperCommand r.words).isSome)) := by
      intro r
      simp only [unwrapFrom, Peel.flagged]
      cases r.exhausted <;> simp [Bool.or_comm, Bool.or_left_comm, Bool.or_assoc]
    rw [hmore, hmore, hwords, hflags]
  | succ n ih =>
    have hnoted : p.noteEnv.flagged = q.noteEnv.flagged := by
      rw [Peel.noteEnv_flagged, Peel.noteEnv_flagged, hwords, hflags]
    simp only [unwrapFrom, Peel.noteEnv_words, hwords]
    cases hstrip : stripWrapperCommand q.words with
    | none => exact ⟨by rw [Peel.noteEnv_words, Peel.noteEnv_words, hwords], hnoted⟩
    | some inner => exact ih rfl hnoted

theorem unwrapWrappersChecked_of (h : p.flagged = false) :
    (unwrapWrappersChecked p).words = (unwrapWrappersChecked (.of p.words)).words ∧
      (unwrapWrappersChecked p).flagged = (unwrapWrappersChecked (.of p.words)).flagged :=
  unwrapFrom_congr _ rfl h

theorem normalizeFrom_progress (h : p.flagged = false) (round : Progress p.words next) :
    ∃ q : Peel, q.flagged = false ∧ q.words = next ∧
      normalizeFrom (n + 1) p = normalizeFrom n q := by
  obtain ⟨hwords, hflags⟩ := unwrapWrappersChecked_of h
  rw [round.unflagged] at hflags
  have hready := round.ready
  rw [← hwords] at hready
  refine ⟨{ unwrapWrappersChecked p with words := next }, hflags, rfl, ?_⟩
  have hclear := Peel.not_flagged.mp hflags
  simp only [normalizeFrom, hclear.2.2.1, hclear.2.2.2, hready, round.moved, Bool.or_self,
    Bool.false_eq_true, if_false]

theorem normalizeFrom_rounds (h : p.flagged = false) (rounds : Rounds n p.words rest) :
    (normalizeFrom n p).flagged = false ∧ (normalizeFrom n p).words = rest := by
  induction n generalizing p with
  | zero =>
    cases rounds
    exact ⟨h, rfl⟩
  | succ n ih =>
    cases rounds with
    | step round rounds =>
      obtain ⟨q, hq, rfl, hsame⟩ := normalizeFrom_progress (n := n) h round
      rw [hsame]
      exact ih hq rounds

/-- Without a flag, an `env` at the end that should make the gate ask lies behind
rounds that all peeled something. -/
theorem rounds_of_envAsks (h : (normalizeFrom n p).flagged = false)
    (hasks : envAsks (normalizeFrom n p).words = true) :
    Rounds n p.words (normalizeFrom n p).words := by
  induction n generalizing p with
  | zero => exact .refl _
  | succ n ih =>
    have hp : p.flagged = false := (normalizeFrom_spec _ _ h).1
    obtain ⟨hwords, hsame⟩ := unwrapWrappersChecked_of hp
    simp only [normalizeFrom] at h hasks ⊢
    split at h
    · rename_i hstop
      have hclear := Peel.not_flagged.mp h
      rw [hclear.2.2.1, hclear.2.2.2] at hstop
      cases hstop
    rename_i hstop
    rw [if_neg hstop] at hasks ⊢
    cases hinner : peelTransparentPrefixes (unwrapWrappersChecked p).words with
    | none => simp [hinner, Peel.flagged] at h
    | some inner =>
      simp only [hinner] at h hasks ⊢
      split at h
      · -- no progress: the first scan of the round has looked at these words
        rename_i hlength
        rw [if_pos hlength] at hasks
        obtain ⟨_, k, m, round⟩ := round_spec h hinner
        have htotal := (round.wrappers.trans round.prefixes).length_add_le
        obtain rfl : k = 0 := by omega
        obtain rfl : m = 0 := by omega
        rcases round.scanned with hscanned | hbudget
        · rw [← round.prefixes.eq_of_zero, hscanned] at hasks
          cases hasks
        · cases hbudget
      · rename_i hlength
        rw [if_neg hlength] at hasks ⊢
        have hflags : (unwrapWrappersChecked p).flagged = false := (normalizeFrom_spec _ _ h).1
        rw [hsame] at hflags
        rw [hwords] at hinner
        exact .step ⟨hflags, hinner, hlength⟩ (ih h hasks)

/-! ## Where another normalization changes nothing -/

/-- Words without anything to peel are looked at once more. -/
theorem normalizeCommandWords_nothingLeft (h : NothingLeft words) :
    (normalizeCommandWords words).words = words ∧
      (normalizeCommandWords words).flagged = envAsks words := by
  have hround : unwrapWrappersChecked (.of words) = (Peel.of words).noteEnv :=
    unwrapFrom_of_stuck _ h.1
  have hnoted : (Peel.of words).noteEnv.flagged = envAsks words := Peel.noteEnv_flagged _
  have hfrom : normalizeFrom maxNormalizeRounds (.of words) = (Peel.of words).noteEnv := by
    have hready : peelTransparentPrefixes (Peel.of words).noteEnv.words = some words := by
      rw [Peel.noteEnv_words]
      exact peelTransparentPrefixes_of_notPrefix h.2
    show normalizeFrom (15 + 1) (.of words) = _
    rw [normalizeFrom]
    simp only [hround, hready]
    split
    · rfl
    · rw [if_pos (show words.length = (Peel.of words).words.length from rfl)]
      exact congrArg (fun w => { (Peel.of words).noteEnv with words := w })
        (Peel.noteEnv_words (.of words)).symm
  have hnothing : NothingLeft (normalizeFrom maxNormalizeRounds (.of words)).words := by
    rw [hfrom, Peel.noteEnv_words]
    exact h
  rw [normalizeCommandWords_of_nothingLeft hnothing, hfrom, Peel.noteEnv_words]
  exact ⟨rfl, hnoted⟩

theorem nothingLeft_of_unflagged (h : (normalizeCommandWords words).flagged = false) :
    NothingLeft (normalizeCommandWords words).words := by
  obtain ⟨hend, hbare, _⟩ := normalizeCommandWords_spec h
  refine ⟨?_, hbare⟩
  unfold peelStep at hend
  split at hend
  · cases hend
  · assumption

/-- A flag of the rounds is a flag of the whole. -/
theorem normalizeFrom_unflagged (h : (normalizeCommandWords words).flagged = false) :
    (normalizeFrom maxNormalizeRounds (.of words)).flagged = false := by
  simp only [normalizeCommandWords] at h
  split at h
  · exact h
  · split at h
    · cases h
    · exact h

theorem exhausted_of_rounds (rounds : Rounds maxNormalizeRounds words rest)
    (hleft : ¬ NothingLeft rest) : (normalizeCommandWords words).exhausted = true := by
  obtain ⟨hflags, hwords⟩ := normalizeFrom_rounds (p := .of words) rfl rounds
  have hclear := Peel.not_flagged.mp hflags
  rw [nothingLeft_iff, Bool.not_eq_false, ← hwords] at hleft
  simp only [normalizeCommandWords, hclear.2.1, hclear.2.2.1, hclear.2.2.2, hleft, Bool.or_self,
    Bool.false_eq_true, if_false, if_true]

/-- The normalization does all that is expected of it unless its sixteen rounds
all peel something and leave nothing to peel. -/
theorem normalizesFully_iff (words : List Text) :
    NormalizesFully words ↔
      ¬ ∃ rest, Rounds maxNormalizeRounds words rest ∧ NothingLeft rest := by
  constructor
  · rintro hfully ⟨rest, rounds, hnothing⟩
    exact (hfully.budget rest rounds).1 hnothing
  · intro hnone
    have hleft : ∀ rest, Rounds maxNormalizeRounds words rest → ¬ NothingLeft rest :=
      fun rest rounds hnothing => hnone ⟨rest, rounds, hnothing⟩
    constructor
    · rw [normalizeCommandWords_words]
      exact normalizeFrom_suffix _ (.of words)
    · intro hflags
      have hnothing := nothingLeft_of_unflagged hflags
      obtain ⟨hwords, hagain⟩ := normalizeCommandWords_nothingLeft hnothing
      refine ⟨hnothing, hwords, ?_⟩
      rw [hagain]
      by_contra hasks
      rw [Bool.not_eq_false, normalizeCommandWords_words] at hasks
      rw [normalizeCommandWords_words] at hnothing
      exact hleft _ (rounds_of_envAsks (normalizeFrom_unflagged hflags) hasks) hnothing
    · intro argv inner h
      refine length_lt_of_suffix_tail ?_ (stripWrapperCommand_suffix h)
      rintro rfl
      cases h
    · intro argv inner h
      refine length_lt_of_suffix_tail ?_ (stripTransparentPrefix_suffix h)
      rintro rfl
      cases h
    · exact fun rest rounds => ⟨hleft rest rounds, exhausted_of_rounds rounds (hleft rest rounds)⟩

/-- A packed command line behind sixteen rounds is returned without a flag, which
normalizing it again sets. -/
theorem packed_behind_rounds :
    ¬ NormalizesFully ((List.replicate 16 ["nice".toList, "command".toList]).flatten ++
      ["env".toList, "-S".toList, "rm -rf /".toList]) := by
  intro hfully
  have hagain := (hfully.settled (by decide)).2.2
  revert hagain
  decide

end GrokBuild.Permission
