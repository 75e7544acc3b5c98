import GrokBuild.Permission.Documented

/-!
# Permissions: where the normalization stops

`normalize_command_words` alternates two bounded loops over a bounded number
of rounds. Without a flag it stops at the end of the chain of single peels,
`peelStep` (`normalizeCommandWords_spec`). What the budgets leave open is one
case: an `env` that should make the gate ask, behind so many layers that the
last round ends in front of it.
-/

namespace GrokBuild.Permission

open TextLines Str Getopt List

/-! ## One peel -/

theorem skipOptions_suffix (table : List String) (args : List Text) :
    skipOptions table args <:+ args := by
  fun_induction skipOptions table args <;> grind [suffix_cons, List.IsSuffix.trans]

theorem envScanFrom_suffix (chdir : Option Text) (args : List Text) :
    (envScanFrom chdir args).command <:+ args := by
  fun_induction envScanFrom chdir args <;>
    grind [EnvScan.stop, EnvScan.uncertain, EnvScan.split, suffix_cons, List.IsSuffix.trans]

variable {inner : List Text}

theorem stripExecArgs_suffix {args : List Text} (h : stripExecArgs args = .peeled inner) :
    inner <:+ args := by
  fun_induction stripExecArgs args <;> grind [peeledIfAny, suffix_cons, List.IsSuffix.trans]

theorem stripCommandArgs_suffix {args : List Text} (h : stripCommandArgs args = .peeled inner) :
    inner <:+ args := by
  fun_induction stripCommandArgs args <;> grind [peeledIfAny, suffix_cons, List.IsSuffix.trans]

variable {words : List Text}

theorem nonEmpty_some_eq (h : nonEmpty words = some inner) : words = inner := (nonEmpty_eq_some.mp h).1

theorem stripWrapperCommand_suffix (h : stripWrapperCommand words = some inner) :
    inner <:+ words.tail := by
  cases words with
  | nil => cases h
  | cons program args =>
    have hskip : ∀ table, skipOptions table args <:+ args := fun table => skipOptions_suffix table args
    have hscan : (envScan (program :: args)).command <:+ args := envScanFrom_suffix none args
    rw [tail_cons]
    simp only [stripWrapperCommand] at h
    repeat' split at h
    all_goals try cases h
    all_goals rw [← nonEmpty_some_eq h]
    all_goals first
      | exact hscan
      | exact hskip _
      | exact (tail_suffix _).trans (hskip _)

theorem stripTransparentPrefix_suffix (h : stripTransparentPrefix words = .peeled inner) :
    inner <:+ words.tail := by
  cases words with
  | nil => cases h
  | cons program args =>
    rw [tail_cons]
    simp only [stripTransparentPrefix] at h
    split at h
    · cases h
    split at h
    · exact stripExecArgs_suffix h
    split at h
    · exact stripCommandArgs_suffix h
    split at h
    · unfold stripBuiltinArgs at h
      split at h
      · cases h
      · split at h
        · cases h
        · cases h
          exact suffix_rfl
    · cases h

theorem isWrapperCommand_of_strip (h : stripWrapperCommand words = some inner) :
    isWrapperCommand words = true := by
  cases words with
  | nil => cases h
  | cons program args =>
    simp only [stripWrapperCommand] at h
    simp only [isWrapperCommand, headIs, any_cons, any_nil, Bool.or_false,
      Bool.or_eq_true, beq_iff_eq]
    by_contra hnone
    simp only [not_or] at hnone
    obtain ⟨htimeout, hnice, hionice, hchrt, hstdbuf, henv⟩ := hnone
    rw [if_neg htimeout, if_neg hnice, if_neg hionice, if_neg hchrt, if_neg hstdbuf,
      if_neg henv] at h
    cases h

theorem stripWrapperCommand_of_transparent (h : stripTransparentPrefix words ≠ .notPrefix) :
    stripWrapperCommand words = none := by
  cases words with
  | nil => rfl
  | cons program args =>
    simp only [stripTransparentPrefix] at h
    simp only [stripWrapperCommand]
    split at h
    · exact absurd rfl h
    split at h
    · rename_i hhead
      simp [hhead]
    split at h
    · rename_i hhead
      simp [hhead]
    split at h
    · rename_i hhead
      simp [hhead]
    · exact absurd rfl h

theorem peelStep_suffix (h : peelStep words = some inner) : inner <:+ words.tail := by
  unfold peelStep at h
  split at h
  · cases h
    exact stripWrapperCommand_suffix ‹_›
  · split at h
    · cases h
      exact stripTransparentPrefix_suffix ‹_›
    · cases h

/-- A peel takes the head off. -/
theorem length_lt_of_suffix_tail (hne : words ≠ []) (h : inner <:+ words.tail) :
    inner.length < words.length := by
  have hle := h.length_le
  have hpos := length_pos_of_ne_nil hne
  rw [length_tail] at hle
  omega

theorem length_peelStep_lt (h : peelStep words = some inner) : inner.length < words.length := by
  refine length_lt_of_suffix_tail ?_ (peelStep_suffix h)
  rintro rfl
  cases h

/-- The first words are peeled `k` times in a row to the last. -/
inductive Peeled : Nat → List Text → List Text → Prop where
  | refl (words : List Text) : Peeled 0 words words
  | step {n : Nat} {words next final : List Text} (hpeel : peelStep words = some next)
      (rest : Peeled n next final) : Peeled (n + 1) words final

namespace Peeled

variable {n : Nat} {a b : List Text}

theorem trans {m : Nat} {c : List Text} (h : Peeled m a b) (h' : Peeled n b c) :
    Peeled (m + n) a c := by
  induction h with
  | refl => rwa [Nat.zero_add]
  | step hpeel _ ih =>
    rw [Nat.add_right_comm]
    exact .step hpeel (ih h')

theorem length_add_le (h : Peeled n a b) : b.length + n ≤ a.length := by
  induction h with
  | refl => exact le_rfl
  | step hpeel _ ih =>
    have hlt := length_peelStep_lt hpeel
    omega

theorem suffix (h : Peeled n a b) : b <:+ a := by
  induction h with
  | refl => exact suffix_rfl
  | step hpeel _ ih => exact (ih.trans (peelStep_suffix hpeel)).trans (tail_suffix _)

theorem eq_of_zero (h : Peeled 0 a b) : a = b := by
  cases h
  rfl

theorem eq_of_terminal (h : Peeled n a b) (hend : peelStep a = none) : n = 0 ∧ a = b := by
  cases h with
  | refl => exact ⟨rfl, rfl⟩
  | step hpeel =>
    rw [hend] at hpeel
    cases hpeel

theorem wrapper {words inner : List Text} (h : stripWrapperCommand words = some inner) :
    Peeled 1 words inner := by
  refine .step ?_ (.refl inner)
  rw [peelStep, h]

theorem transparent {words inner : List Text} (h : stripTransparentPrefix words = .peeled inner) :
    Peeled 1 words inner := by
  refine .step ?_ (.refl inner)
  rw [peelStep, stripWrapperCommand_of_transparent (by rw [h]; simp), h]

end Peeled

/-- Nothing is left to peel. -/
theorem peelStep_eq_none (hwrapper : stripWrapperCommand words = none)
    (htransparent : stripTransparentPrefix words = .notPrefix) : peelStep words = none := by
  rw [peelStep, hwrapper, htransparent]

/-! ## The loop over wrappers -/

/-- Something was seen that makes the gate ask. -/
def Peel.flagged (p : Peel) : Bool :=
  p.exhausted || p.ambiguous || p.hasSplitString || p.envOptionsUncertain

namespace Peel

theorem not_flagged {p : Peel} : p.flagged = false ↔ p.exhausted = false ∧
    p.ambiguous = false ∧ p.hasSplitString = false ∧ p.envOptionsUncertain = false := by
  simp only [flagged, Bool.or_eq_false_iff, and_assoc]

@[simp] theorem noteEnv_words (p : Peel) : p.noteEnv.words = p.words := by
  unfold noteEnv
  split <;> rfl

/-- Words that are noted without a flag contain no `env` to ask about. -/
theorem noteEnv_spec {p : Peel} (h : p.noteEnv.flagged = false) :
    p.flagged = false ∧ envAsks p.words = false := by
  unfold noteEnv at h
  split at h
  · simp only [not_flagged, Bool.or_eq_false_iff] at h ⊢
    simp only [envAsks, h.2.2.1.2, h.2.2.2.2, Bool.or_self, Bool.and_false, and_true]
    exact ⟨h.1, h.2.1, h.2.2.1.1, h.2.2.2.1⟩
  · rename_i hhead
    rw [Bool.not_eq_true] at hhead
    exact ⟨h, by simp [envAsks, hhead]⟩

end Peel

/-- Without a flag the loop ends at words that are no wrapper, which it has
looked at unless its budget ended just there. -/
theorem unwrapFrom_spec (n : Nat) (p : Peel) (h : (unwrapFrom n p).flagged = false) :
    p.flagged = false ∧ ∃ k ≤ n, Peeled k p.words (unwrapFrom n p).words ∧
      stripWrapperCommand (unwrapFrom n p).words = none ∧
      (envAsks (unwrapFrom n p).words = false ∨ k = n) := by
  induction n generalizing p with
  | zero =>
    simp only [unwrapFrom, Peel.not_flagged, Bool.or_eq_false_iff] at h ⊢
    -- the budget ends here: a wrapper that is left would be a flag
    refine ⟨⟨h.1.1, h.2⟩, 0, le_rfl, .refl _, ?_, Or.inr rfl⟩
    cases hstrip : stripWrapperCommand p.words with
    | none => rfl
    | some inner => simp [hstrip, isWrapperCommand_of_strip hstrip] at h
  | succ n ih =>
    simp only [unwrapFrom, Peel.noteEnv_words] at h ⊢
    cases hstrip : stripWrapperCommand p.words with
    | none =>
      simp only [hstrip] at h ⊢
      obtain ⟨hflags, hscanned⟩ := Peel.noteEnv_spec h
      rw [Peel.noteEnv_words]
      exact ⟨hflags, 0, Nat.zero_le _, .refl _, hstrip, Or.inl hscanned⟩
    | some inner =>
      simp only [hstrip] at h ⊢
      obtain ⟨hflags, k, hk, hpeeled, hend, hscanned⟩ := ih _ h
      obtain ⟨hflags, _⟩ := Peel.noteEnv_spec (show p.noteEnv.flagged = false from hflags)
      refine ⟨hflags, k + 1, Nat.succ_le_succ hk, ?_, hend, ?_⟩
      · rw [Nat.add_comm]
        exact (Peeled.wrapper hstrip).trans hpeeled
      · rcases hscanned with hscanned | hk
        · exact Or.inl hscanned
        · exact Or.inr (by rw [hk])

/-! ## The loop over transparent prefixes -/

theorem peelTransparentFrom_spec (n : Nat) (h : peelTransparentFrom n words = some inner) :
    ∃ k, Peeled k words inner ∧ stripTransparentPrefix inner = .notPrefix := by
  induction n generalizing words with
  | zero =>
    unfold peelTransparentFrom at h
    split at h
    · cases h
      exact ⟨0, .refl _, ‹_›⟩
    · cases h
  | succ n ih =>
    unfold peelTransparentFrom at h
    split at h
    · cases h
      exact ⟨0, .refl _, ‹_›⟩
    · rename_i next hnext
      obtain ⟨k, hpeeled, hend⟩ := ih h
      exact ⟨1 + k, (Peeled.transparent hnext).trans hpeeled, hend⟩
    · cases h

/-! ## The rounds -/

/-- One round without a flag, in steps: `k` wrappers, then `m` prefixes. -/
structure Round (p wrapped : Peel) (inner : List Text) (k m : Nat) : Prop where
  wrappers : Peeled k p.words wrapped.words
  prefixes : Peeled m wrapped.words inner
  noWrapper : stripWrapperCommand wrapped.words = none
  scanned : envAsks wrapped.words = false ∨ k = maxWrapperDepth
  noPrefix : stripTransparentPrefix inner = .notPrefix

theorem round_spec {p : Peel} (h : (unwrapWrappersChecked p).flagged = false)
    (hinner : peelTransparentPrefixes (unwrapWrappersChecked p).words = some inner) :
    p.flagged = false ∧ ∃ k m, Round p (unwrapWrappersChecked p) inner k m := by
  obtain ⟨hflags, k, _, hwrappers, hend, hscanned⟩ := unwrapFrom_spec _ _ h
  obtain ⟨m, hprefixes, hnone⟩ := peelTransparentFrom_spec _ hinner
  exact ⟨hflags, k, m, hwrappers, hprefixes, hend, hscanned, hnone⟩

/-- Without a flag, `n` rounds peel step by step; they end in front of an
`env` that they have not looked at only after two peels a round. The first
round may make do with one, when it starts with a prefix. -/
theorem normalizeFrom_spec (n : Nat) (p : Peel) (h : (normalizeFrom n p).flagged = false) :
    p.flagged = false ∧ ∃ k, Peeled k p.words (normalizeFrom n p).words ∧
      (envAsks (normalizeFrom n p).words = true →
        2 * n ≤ k + 1 ∧ (stripTransparentPrefix p.words = .notPrefix → 2 * n ≤ k)) := by
  induction n generalizing p with
  | zero => exact ⟨h, 0, .refl _, fun _ => ⟨Nat.zero_le _, fun _ => Nat.zero_le _⟩⟩
  | succ n ih =>
    simp only [normalizeFrom] at h ⊢
    split at h
    · -- the scan of an `env` stops the rounds, with a flag
      rename_i hstop
      rw [Peel.not_flagged] at h
      rw [h.2.2.1, h.2.2.2] at hstop
      cases hstop
    rename_i hstop
    rw [if_neg hstop]
    cases hinner : peelTransparentPrefixes (unwrapWrappersChecked p).words with
    | none =>
      simp [hinner, Peel.flagged] at h
    | some inner =>
      simp only [hinner] at h ⊢
      split at h
      · -- no progress: these are the last words
        rename_i hlength
        rw [if_pos hlength]
        obtain ⟨hflags, k, m, round⟩ := round_spec h hinner
        have htotal := (round.wrappers.trans round.prefixes).length_add_le
        obtain rfl : k = 0 := by omega
        obtain rfl : m = 0 := by omega
        refine ⟨hflags, 0, round.wrappers.trans round.prefixes, ?_⟩
        intro hasks
        have hwords := round.prefixes.eq_of_zero
        rcases round.scanned with hscanned | hbudget
        · rw [hwords] at hscanned
          rw [hscanned] at hasks
          cases hasks
        · cases hbudget
      · rename_i hlength
        rw [if_neg hlength]
        obtain ⟨hflags, k', hrest, hasks⟩ := ih _ h
        obtain ⟨hflags, k, m, round⟩ :=
          round_spec (show (unwrapWrappersChecked p).flagged = false from hflags) hinner
        refine ⟨hflags, k + m + k', (round.wrappers.trans round.prefixes).trans hrest, ?_⟩
        intro hend
        -- a round ends without a prefix in front, so the rest makes two peels a round
        have hlater := (hasks hend).2 round.noPrefix
        have hprogress : 0 < k + m := by
          by_contra hzero
          obtain rfl : k = 0 := by omega
          obtain rfl : m = 0 := by omega
          rw [round.wrappers.eq_of_zero, round.prefixes.eq_of_zero] at hlength
          exact hlength rfl
        refine ⟨by omega, ?_⟩
        intro hnone
        by_cases hm : m = 0
        · -- only wrappers: nothing is left, and only a full budget was not looked at
          subst hm
          have hwords := round.prefixes.eq_of_zero
          have hterminal : peelStep inner = none :=
            peelStep_eq_none (hwords ▸ round.noWrapper) round.noPrefix
          obtain ⟨rfl, hfinal⟩ := hrest.eq_of_terminal hterminal
          have hbudget : k = maxWrapperDepth := by
            refine round.scanned.resolve_left ?_
            rw [hwords]
            intro hscanned
            rw [← hfinal] at hend
            rw [hscanned] at hend
            cases hend
          have hdepth : maxWrapperDepth = 8 := rfl
          omega
        · -- prefixes were peeled, so there were wrappers in front of them
          have hk : k ≠ 0 := by
            rintro rfl
            have hwords := round.wrappers.eq_of_zero
            have hterminal : peelStep p.words = none :=
              peelStep_eq_none (hwords ▸ round.noWrapper) hnone
            rw [hwords] at hterminal
            exact hm (round.prefixes.eq_of_terminal hterminal).1
          omega

/-- Without a flag the normalization ends where nothing is left to peel. It
has looked at an `env` there, unless that lies behind more than thirty
layers. -/
theorem normalizeCommandWords_spec (h : (normalizeCommandWords words).flagged = false) :
    peelStep (normalizeCommandWords words).words = none ∧
      stripTransparentPrefix (normalizeCommandWords words).words = .notPrefix ∧
      ∃ k, Peeled k words (normalizeCommandWords words).words ∧
        (envAsks (normalizeCommandWords words).words = true → 31 ≤ k) := by
  simp only [normalizeCommandWords] at h ⊢
  split at h
  · rename_i hflag
    rw [Peel.not_flagged] at h
    rw [h.2.1, h.2.2.1, h.2.2.2] at hflag
    cases hflag
  rename_i hflag
  rw [if_neg hflag]
  split at h
  · cases h
  rename_i hleft
  rw [if_neg hleft]
  simp only [Bool.or_eq_true, not_or, Bool.and_eq_true, decide_eq_true_eq, not_not] at hleft
  obtain ⟨_, k, hpeeled, hasks⟩ := normalizeFrom_spec _ _ h
  have hwrapper : stripWrapperCommand (normalizeFrom maxNormalizeRounds (.of words)).words = none := by
    cases hstrip : stripWrapperCommand (normalizeFrom maxNormalizeRounds (.of words)).words with
    | none => rfl
    | some inner => exact absurd ⟨isWrapperCommand_of_strip hstrip, by rw [hstrip]; rfl⟩ hleft.1
  refine ⟨peelStep_eq_none hwrapper hleft.2, hleft.2, k, hpeeled, ?_⟩
  intro hend
  have hrounds : 2 * maxNormalizeRounds ≤ k + 1 := (hasks hend).1
  have hvalue : maxNormalizeRounds = 16 := rfl
  omega

end GrokBuild.Permission
