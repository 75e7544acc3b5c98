import GrokBuild.Permission.Documented

/-!
# Permissions: where the code peels as documented

One lemma for each shape of a layer: the wrappers with a table, `exec`,
`command`, `builtin`, and `env` with its assignments. They are put together
in `peelStep_eq`.
-/

namespace GrokBuild.Permission

open TextLines Str Getopt List Option

/-- An option is a dash and one more character. -/
theorem isOption_cons {w : Text} (h : isOption w = true) : ∃ c cs, w = '-' :: c :: cs := by
  unfold isOption at h
  split at h
  · exact ⟨_, _, rfl⟩
  · cases h

theorem dash_or_plain {w : Text} (h : isOption w = false) :
    w = "-".toList ∨ startsWith w "-" = false := by
  match w with
  | [] => exact Or.inr rfl
  | c :: cs =>
    by_cases hc : c = '-'
    · subst hc
      cases cs with
      | nil => exact Or.inl rfl
      | cons c cs => cases h
    · refine Or.inr ?_
      show ('-' == c && [].isPrefixOf cs) = false
      rw [beq_false_of_ne (Ne.symm hc), Bool.false_and]

theorem startsWith_cons (c : Char) (cs : Text) : startsWith ('-' :: c :: cs) "-" = true := rfl

/-! ## `exec` -/

theorem short_of_arity {o : Options} (hnumeric : o.numeric = false) (hnames : o.longNames = [])
    {w : Text} {a : Arity} (hoption : isOption w = true) (harity : o.arity w = some a) :
    ∃ c cs, w = '-' :: c :: cs ∧ c ≠ '-' ∧ o.shortArity (c :: cs) = some a := by
  obtain ⟨c, cs, rfl⟩ := isOption_cons hoption
  by_cases hc : c = '-'
  · subst hc
    rw [o.arity_long hnumeric, o.longArity_eq_none hnames] at harity
    cases harity
  · rw [o.arity_short hnumeric hc] at harity
    exact ⟨c, cs, rfl, hc, harity⟩

theorem stripExecArgs_one {w : Text} {rest : List Text} (hoption : isOption w = true)
    (harity : execOptions.arity w = some .one) :
    stripExecArgs (w :: rest) = .ambiguous ∨
      stripExecArgs (w :: rest) = stripExecArgs rest := by
  obtain ⟨c, cs, rfl, hc, hshort⟩ := short_of_arity rfl rfl hoption harity
  have hname : '-' :: c :: cs ≠ "-a".toList := by
    intro (heq : '-' :: c :: cs = ['-', 'a'])
    cases heq
    simp [execOptions, Options.shortArity] at hshort
  rw [stripExecArgs.eq_def]
  simp only [startsWith_cons, hname, if_false]
  split
  · rename_i heq
    cases heq
    exact absurd rfl hc
  · split
    · rename_i heq
      simp at heq
    · split
      · exact Or.inr rfl
      · split
        · split
          · exact Or.inl rfl
          · exact Or.inr rfl
        · split
          · exact Or.inr rfl
          · exact Or.inl rfl
variable {cs : Text}

theorem execOptions_shortArity (h : cs.all (fun c => c == 'c' || c == 'l') = true) :
    execOptions.shortArity cs = some .one := by
  induction cs with
  | nil => rfl
  | cons c cs ih =>
    rw [all_cons, Bool.and_eq_true] at h
    have hc : c = 'c' ∨ c = 'l' := by simpa using h.1
    rcases hc with rfl | rfl <;> simpa [Options.shortArity, execOptions] using ih h.2

theorem stripExecArgs_two {w value : Text} {rest : List Text} (hoption : isOption w = true)
    (harity : execOptions.arity w = some .two) :
    stripExecArgs (w :: value :: rest) = .ambiguous ∨
      stripExecArgs (w :: value :: rest) = stripExecArgs rest := by
  obtain ⟨c, cs, rfl, hc, hshort⟩ := short_of_arity rfl rfl hoption harity
  have hflags : (c :: cs).all (fun c => c == 'c' || c == 'l') = false := by
    rw [Bool.eq_false_iff]
    intro h
    rw [execOptions_shortArity h] at hshort
    cases hshort
  rw [stripExecArgs.eq_def]
  simp only [startsWith_cons]
  split
  · rename_i heq
    cases heq
    exact absurd rfl hc
  · split
    · rename_i heq
      simp at heq
    · split
      · -- none of the clusters in the list takes an operand
        rename_i hlist
        exfalso
        have hlist : ['-', 'c'] = '-' :: c :: cs ∨ ['-', 'l'] = '-' :: c :: cs ∨
            ['-', 'c', 'l'] = '-' :: c :: cs ∨ ['-', 'l', 'c'] = '-' :: c :: cs := by
          simpa [oneOf] using hlist
        rcases hlist with heq | heq | heq | heq <;> cases heq <;> simp at hflags
      · split
        · split
          · exact Or.inr rfl
          · exact Or.inl rfl
        · rename_i hname
          split
          · -- a glued name is part of the word
            rename_i name hglued
            exfalso
            unfold stripPrefix at hglued
            split at hglued
            · rename_i hbare
              obtain ⟨tail, heq⟩ := isPrefixOf_iff_prefix.mp hbare
              have heq : ['-', 'a'] ++ tail = '-' :: c :: cs := heq
              cases heq
              have htail : tail ≠ [] := by
                intro h
                subst h
                exact hname rfl
              simp [execOptions, Options.shortArity, htail] at hshort
            · cases hglued
          · split
            · rename_i hall
              rw [drop_succ_cons, drop_zero] at hall
              rw [hall.2] at hflags
              cases hflags
            · exact Or.inl rfl

theorem stripExecArgs_operand {w : Text} {rest : List Text} (hne : w ≠ "--".toList)
    (hoperand : isOption w = false) : stripExecArgs (w :: rest) = .peeled (w :: rest) := by
  rw [stripExecArgs.eq_def]
  simp only [hne, if_false]
  rw [if_pos (dash_or_plain hoperand)]
variable {args inner : List Text}

theorem stripExecArgs_eq
    (hruns : ((execOptions.skip args).bind fun r => nonEmpty r.2) = some inner) :
    stripExecArgs args = .ambiguous ∨ stripExecArgs args = .peeled inner := by
  obtain ⟨⟨ended, rest⟩, hskip, hrest⟩ := bind_eq_some_iff.mp hruns
  obtain ⟨rfl, hinner⟩ := nonEmpty_eq_some.mp hrest
  refine execOptions.skip_induction (motive := fun args _ rest => rest ≠ [] →
    stripExecArgs args = .ambiguous ∨ stripExecArgs args = .peeled rest)
    ?_ ?_ ?_ ?_ ?_ hskip hinner
  · intro h
    exact absurd rfl h
  · intro rest h
    rw [stripExecArgs.eq_def]
    simp [peeledIfAny, h]
  · intro w rest hne hoperand _
    exact Or.inr (stripExecArgs_operand hne hoperand)
  · intro w rest ended out _ hoption harity ih hout
    rcases stripExecArgs_one hoption harity with h | h
    · exact Or.inl h
    · rw [h]
      exact ih hout
  · intro w value rest ended out _ hoption harity ih hout
    rcases stripExecArgs_two hoption harity with h | h
    · exact Or.inl h
    · rw [h]
      exact ih hout

/-! ## `command` -/

theorem stripCommandArgs_one {w : Text} {rest : List Text} (hoption : isOption w = true)
    (harity : commandOptions.arity w = some .one)
    (hruns : (w.contains 'v' || w.contains 'V') = false) :
    stripCommandArgs (w :: rest) = stripCommandArgs rest := by
  obtain ⟨c, cs, rfl, hc, hshort⟩ := short_of_arity rfl rfl hoption harity
  have hall : ∀ letters : Text, commandOptions.shortArity letters = some .one →
      'v' ∉ letters → 'V' ∉ letters → letters.all (fun c => c == 'p') = true := by
    intro letters
    induction letters with
    | nil => intros; rfl
    | cons c cs ih =>
      intro harity hv hV
      rw [mem_cons, not_or] at hv hV
      obtain ⟨hflag, hrest⟩ := commandOptions.flag_of_shortArity rfl harity
      have hp : c = 'p' := by
        simp only [commandOptions, mem_cons, not_mem_nil, or_false] at hflag
        rcases hflag with rfl | rfl | rfl
        · rfl
        · exact absurd rfl hv.1
        · exact absurd rfl hV.1
      rw [all_cons, ih hrest hv.2 hV.2, hp]
      rfl
  have hmem : 'v' ∉ c :: cs ∧ 'V' ∉ c :: cs := by
    simpa [contains_iff_mem] using hruns
  have hp := hall _ hshort hmem.1 hmem.2
  have hlong : startsWith ('-' :: c :: cs) "--" = false := by
    show ('-' == '-' && ('-' == c && [].isPrefixOf cs)) = false
    rw [beq_false_of_ne (Ne.symm hc), Bool.false_and, Bool.and_false]
  have hdisplay : ¬(oneOf ('-' :: c :: cs) ["-v", "-V", "--help", "--version"] ∨
      (startsWith ('-' :: c :: cs) "--" = false ∧
        (('-' :: c :: cs).drop 1).any fun c => c == 'v' || c == 'V')) := by
    rintro (hlist | ⟨_, hany⟩)
    · have hlist : ['-', 'v'] = '-' :: c :: cs ∨ ['-', 'V'] = '-' :: c :: cs ∨
          "--help".toList = '-' :: c :: cs ∨ "--version".toList = '-' :: c :: cs := by
        simpa [oneOf] using hlist
      rcases hlist with heq | heq | heq | heq
      · cases heq
        simp at hmem
      · cases heq
        simp at hmem
      · exact hc (List.cons.inj (List.cons.inj heq).2).1.symm
      · exact hc (List.cons.inj (List.cons.inj heq).2).1.symm
    · obtain ⟨letter, hletter, hv⟩ := List.any_eq_true.mp hany
      rw [Bool.or_eq_true, beq_iff_eq, beq_iff_eq] at hv
      rcases hv with rfl | rfl
      · exact hmem.1 hletter
      · exact hmem.2 hletter
  have hplain : ¬('-' :: c :: cs = "-".toList ∨ startsWith ('-' :: c :: cs) "-" = false) := by
    simp [startsWith_cons]
  have hdashes : '-' :: c :: cs ≠ "--".toList := by
    intro (heq : '-' :: c :: cs = ['-', '-'])
    exact hc (List.cons.inj (List.cons.inj heq).2).1
  rw [stripCommandArgs.eq_def]
  simp only [hdashes, if_false]
  rw [if_neg hplain, if_neg hdisplay, if_pos ⟨hlong, hp⟩]

/-- `command` is peeled as documented, unless it is asked to describe its
operand. -/
theorem stripCommandArgs_eq
    (hruns : ((commandOptions.skip args).bind fun r => nonEmpty r.2) = some inner)
    (hread : commandReadable args = true) : stripCommandArgs args = .peeled inner := by
  obtain ⟨⟨ended, rest⟩, hskip, hrest⟩ := bind_eq_some_iff.mp hruns
  obtain ⟨rfl, hinner⟩ := nonEmpty_eq_some.mp hrest
  refine commandOptions.skip_induction (motive := fun args _ rest => rest ≠ [] →
    commandReadable args = true → stripCommandArgs args = .peeled rest)
    ?_ ?_ ?_ ?_ ?_ hskip hinner hread
  · intro h
    exact absurd rfl h
  · intro rest h _
    rw [stripCommandArgs.eq_def]
    simp [peeledIfAny, h]
  · intro w rest hne hoperand _ _
    rw [stripCommandArgs.eq_def]
    simp only [hne, if_false]
    rw [if_pos (dash_or_plain hoperand)]
  · intro w rest ended out hne hoption harity ih hout hread
    rw [commandReadable, commandOptions.everyOption_one hne hoption harity,
      Bool.and_eq_true, Bool.not_eq_true'] at hread
    rw [stripCommandArgs_one hoption harity hread.1]
    exact ih hout hread.2
  · intro w value rest ended out _ hoption harity _ _ _
    obtain ⟨c, cs, _, _, hshort⟩ := short_of_arity rfl rfl hoption harity
    exact absurd hshort (commandOptions.shortArity_ne_two rfl _)

/-! ## `builtin` -/

theorem stripBuiltinArgs_eq
    (hruns : ((builtinOptions.skip args).bind fun r => nonEmpty r.2) = some inner) :
    stripBuiltinArgs args = .ambiguous ∨ stripBuiltinArgs args = .peeled inner := by
  obtain ⟨⟨ended, rest⟩, hskip, hrest⟩ := bind_eq_some_iff.mp hruns
  obtain ⟨rfl, hinner⟩ := nonEmpty_eq_some.mp hrest
  cases args with
  | nil =>
    cases hskip
    exact absurd rfl hinner
  | cons w args =>
    rw [stripBuiltinArgs]
    by_cases hdash : startsWith w "-" = true ∧ w ≠ "-".toList
    · exact Or.inl (if_pos hdash)
    · refine Or.inr ?_
      rw [if_neg hdash]
      have hoperand : isOption w = false := by
        rw [Bool.eq_false_iff]
        intro hoption
        obtain ⟨c, cs, rfl⟩ := isOption_cons hoption
        exact hdash ⟨startsWith_cons c cs, by simp⟩
      have hne : w ≠ "--".toList := by
        intro h
        subst h
        cases hoperand
      rw [Options.skip.eq_def] at hskip
      simp only [hne, hoperand, if_false, if_true, some.injEq, Prod.mk.injEq] at hskip
      rw [hskip.2]

/-! ## The options of `env` -/

/-- The scan found something that makes the gate ask. -/
def EnvScan.Asks (scan : EnvScan) : Prop :=
  scan.hasSplitString = true ∨ scan.optionsUncertain = true
variable {chdir : Option Text}

/-- A word with a dash that is not one of the four long options with an
operand in the next word, and no cluster that ends in such an option, is
passed over alone, unless the scan stops there and asks. -/
theorem envScanFrom_skip {w : Text} {rest : List Text}
    (hdashes : w ≠ "--".toList) (hdash : startsWith w "-" = true)
    (hlong : oneOf w ["--chdir", "--unset", "--path", "--argv0"] = false)
    (hshort : startsWith w "--" = false →
      ∀ kind, classifyEnvShort (decodeEnvOptionToken w) ≠ .argNeedNext kind) :
    (envScanFrom chdir (w :: rest)).Asks ∨
      ∃ chdir', envScanFrom chdir (w :: rest) = envScanFrom chdir' rest := by
  have hnames : w ≠ "--chdir".toList ∧ oneOf w ["--unset", "--path", "--argv0"] = false := by
    simp only [oneOf, any_cons, any_nil, Bool.or_eq_false_iff, beq_eq_false_iff_ne] at hlong ⊢
    exact ⟨hlong.1.symm, hlong.2⟩
  rw [envScanFrom.eq_def]
  simp only [hdashes, hdash, hnames.1, hnames.2, if_false, Bool.true_eq_false, Bool.false_eq_true]
  split
  · exact Or.inr ⟨chdir, rfl⟩
  split
  · -- a long option
    split
    · exact Or.inr ⟨_, rfl⟩
    split
    · exact Or.inr ⟨_, rfl⟩
    split
    · exact Or.inr ⟨_, rfl⟩
    split
    · exact Or.inl (Or.inl rfl)
    split
    · exact Or.inl (Or.inl rfl)
    · exact Or.inl (Or.inr rfl)
  · -- a cluster of short options
    rename_i hcluster
    rw [Bool.not_eq_true] at hcluster
    split
    · exact Or.inl (Or.inl rfl)
    · exact Or.inl (Or.inl rfl)
    · exact Or.inl (Or.inl rfl)
    · exact Or.inr ⟨_, rfl⟩
    · rename_i kind hkind
      exact absurd hkind (hshort hcluster kind)
    · exact Or.inr ⟨_, rfl⟩
    · exact Or.inl (Or.inr rfl)

theorem envScanFrom_one {w : Text} {rest : List Text}
    (hdashes : w ≠ "--".toList) (hoption : isOption w = true)
    (harity : envOptions.arity w = some .one) (hquotes : emptiedByQuotes w = false) :
    (envScanFrom chdir (w :: rest)).Asks ∨
      ∃ chdir', envScanFrom chdir (w :: rest) = envScanFrom chdir' rest := by
  obtain ⟨c, cs, hw⟩ := isOption_cons hoption
  refine envScanFrom_skip hdashes (by rw [hw]; exact startsWith_cons c cs) ?_ ?_
  · -- each of the four takes two words, or is no option of `env`
    rw [Bool.eq_false_iff]
    intro hlist
    have hlist : "--chdir".toList = w ∨ "--unset".toList = w ∨ "--path".toList = w ∨
        "--argv0".toList = w := by
      simpa only [oneOf, any_cons, any_nil, Bool.or_false, Bool.or_eq_true,
        beq_iff_eq] using hlist
    rcases hlist with h | h | h | h <;> rw [← h] at harity <;> revert harity <;> decide
  · intro _ kind hkind
    simp [emptiedByQuotes, harity, hkind] at hquotes

theorem classifyLetters_two {letters : Text} (h : envOptions.shortArity letters = some .two) :
    hasQuote letters = false ∧
      (classifyLetters letters = .splitStringDetect ∨
        ∃ kind, classifyLetters letters = .argNeedNext kind) := by
  induction letters with
  | nil => cases h
  | cons c cs ih =>
    rw [Options.shortArity] at h
    split at h
    · rename_i hvalued
      have hcs : cs = [] := by
        by_contra hcs
        rw [if_neg hcs] at h
        cases h
      subst hcs
      simp only [envOptions, mem_cons, not_mem_nil, or_false] at hvalued
      rcases hvalued with rfl | rfl | rfl | rfl
      · exact ⟨rfl, Or.inr ⟨'a', rfl⟩⟩
      · exact ⟨rfl, Or.inr ⟨'u', rfl⟩⟩
      · exact ⟨rfl, Or.inr ⟨'C', rfl⟩⟩
      · exact ⟨rfl, Or.inl rfl⟩
    · split at h
      · rename_i hflag
        obtain ⟨hquote, hclass⟩ := ih h
        have hc : c = 'i' ∨ c = 'v' ∨ c = '0' := by
          simpa [envOptions] using hflag
        constructor
        · rw [hasQuote, any_cons, ← hasQuote, hquote]
          rcases hc with rfl | rfl | rfl <;> rfl
        · rw [classifyLetters, if_pos hc]
          exact hclass
      · cases h
variable {c : Char}

theorem mem_of_startsWith {w : Text} {pre : String} (h : startsWith w pre = true)
    (hc : c ∈ pre.toList) : c ∈ w :=
  (List.isPrefixOf_iff_prefix.mp h).subset hc

theorem equals_not_mem {o : Options} {body : Text} (h : o.longArity body = some .two) :
    '=' ∉ body := by
  unfold Options.longArity at h
  split at h
  · split at h
    · split at h <;> cases h
    · cases h
  · rename_i hsplit
    intro hmem
    obtain ⟨name, value, rfl, hname⟩ := eq_append_cons_of_mem hmem
    rw [splitOnce_append hname] at hsplit
    cases hsplit

theorem envScanFrom_two_long {w value : Text} {rest : List Text}
    (hw : w = '-' :: '-' :: cs) (hdashes : w ≠ "--".toList) (hlone : w ≠ "-".toList)
    (harity : envOptions.arity w = some .two) :
    (envScanFrom chdir (w :: value :: rest)).Asks ∨
      ∃ chdir', envScanFrom chdir (w :: value :: rest) = envScanFrom chdir' rest := by
  have hdash : startsWith w "-" = true := by rw [hw]; exact startsWith_cons _ _
  have hlong : startsWith w "--" = true := by rw [hw]; rfl
  have hbody : '=' ∉ w := by
    rw [hw, envOptions.arity_long rfl] at harity
    rw [hw, mem_cons, mem_cons, not_or, not_or]
    exact ⟨by decide, by decide, equals_not_mem harity⟩
  have hglued : ∀ pre : String, '=' ∈ pre.toList → startsWith w pre = false := by
    intro pre hpre
    rw [Bool.eq_false_iff]
    exact fun h => hbody (mem_of_startsWith h hpre)
  -- the flags that the code knows take no value
  have hflags : oneOf w ["--ignore-environment", "--null", "--debug", "--version",
      "--help"] = false := by
    rw [Bool.eq_false_iff]
    intro hlist
    have hlist : "--ignore-environment".toList = w ∨ "--null".toList = w ∨
        "--debug".toList = w ∨ "--version".toList = w ∨ "--help".toList = w := by
      simpa only [oneOf, any_cons, any_nil, Bool.or_false, Bool.or_eq_true,
        beq_iff_eq] using hlist
    rcases hlist with h | h | h | h | h <;> rw [← h] at harity <;> revert harity <;> decide
  rw [envScanFrom.eq_def]
  simp only [hdashes, hlone, hdash, hlong, hflags, hglued "--chdir=" (by decide),
    hglued "--unset=" (by decide), hglued "--path=" (by decide), hglued "--argv0=" (by decide),
    if_false, if_true, Bool.true_eq_false, Bool.false_eq_true, Bool.or_self]
  split
  · exact Or.inr ⟨_, rfl⟩
  split
  · exact Or.inr ⟨_, rfl⟩
  split
  · exact Or.inl (Or.inl rfl)
  split
  · exact Or.inl (Or.inl rfl)
  · exact Or.inl (Or.inr rfl)

theorem classifyEnvShort_two (hc : c ≠ '-')
    (hclass : classifyLetters (c :: cs) = .splitStringDetect ∨
      ∃ kind, classifyLetters (c :: cs) = .argNeedNext kind) :
    classifyEnvShort ('-' :: c :: cs) = .splitStringNext ∨
      classifyEnvShort ('-' :: c :: cs) = .splitStringDetect ∨
      (∃ payload, classifyEnvShort ('-' :: c :: cs) = .splitStringGlued payload) ∨
      ∃ kind, classifyEnvShort ('-' :: c :: cs) = .argNeedNext kind := by
  unfold classifyEnvShort
  split
  · rename_i heq
    simp only [List.cons.injEq, true_and] at heq
    exact absurd heq.1 hc
  · rename_i heq
    simp at heq
  · split
    · exact Or.inl rfl
    · exact Or.inr (Or.inr (Or.inl ⟨_, rfl⟩))
  · rename_i heq
    simp only [List.cons.injEq, true_and] at heq
    subst heq
    rcases hclass with h | ⟨kind, h⟩
    · exact Or.inr (Or.inl h)
    · exact Or.inr (Or.inr (Or.inr ⟨kind, h⟩))
  · rename_i hcases
    exact absurd rfl (hcases (c :: cs))

theorem envScanFrom_two_short {w value : Text} {rest : List Text}
    (hw : w = '-' :: c :: cs) (hc : c ≠ '-') (hdashes : w ≠ "--".toList)
    (hlone : w ≠ "-".toList) (harity : envOptions.arity w = some .two) :
    (envScanFrom chdir (w :: value :: rest)).Asks ∨
      ∃ chdir', envScanFrom chdir (w :: value :: rest) = envScanFrom chdir' rest := by
  have hdash : startsWith w "-" = true := by rw [hw]; exact startsWith_cons c cs
  have hshort : envOptions.shortArity (c :: cs) = some .two := by
    rwa [hw, envOptions.arity_short rfl hc] at harity
  obtain ⟨hquote, hclass⟩ := classifyLetters_two hshort
  have hdecode : decodeEnvOptionToken w = w := by
    have hword : hasQuote w = false := by
      rw [hw, hasQuote, any_cons, ← hasQuote, hquote]
      rfl
    rw [decodeEnvOptionToken, hword]
    rfl
  have hlong : startsWith w "--" = false := by
    rw [hw]
    show ('-' == '-' && ('-' == c && [].isPrefixOf cs)) = false
    rw [beq_false_of_ne (Ne.symm hc), Bool.false_and, Bool.and_false]
  have hkind := classifyEnvShort_two hc hclass
  rw [← hw] at hkind
  rw [envScanFrom.eq_def]
  simp only [hdashes, hlone, hdash, hlong, hdecode, if_false, Bool.true_eq_false,
    Bool.false_eq_true]
  rcases hkind with h | h | ⟨payload, h⟩ | ⟨kind, h⟩ <;> simp only [h]
  · exact Or.inl (Or.inl rfl)
  · exact Or.inl (Or.inl rfl)
  · exact Or.inl (Or.inl rfl)
  · exact Or.inr ⟨_, rfl⟩

theorem envScanFrom_two {w value : Text} {rest : List Text}
    (hdashes : w ≠ "--".toList) (hoption : isOption w = true)
    (harity : envOptions.arity w = some .two) :
    (envScanFrom chdir (w :: value :: rest)).Asks ∨
      ∃ chdir', envScanFrom chdir (w :: value :: rest) = envScanFrom chdir' rest := by
  obtain ⟨c, cs, hw⟩ := isOption_cons hoption
  have hlone : w ≠ "-".toList := by
    intro h
    rw [h] at hoption
    cases hoption
  by_cases hc : c = '-'
  · exact envScanFrom_two_long (hc ▸ hw) hdashes hlone harity
  · exact envScanFrom_two_short hw hc hdashes hlone harity

/-! ## The assignments of `env` -/

/-- Decoding keeps every character that is neither a quote nor a backslash. -/
theorem mem_decodeFrom (hc : c ∉ ['\'', '"', '\\']) {quote : Option Quote}
    {out raw decoded : Text} (h : decodeFrom quote out raw = some decoded)
    (hmem : c ∈ out ∨ c ∈ raw) : c ∈ decoded := by
  simp only [List.mem_cons, List.not_mem_nil, or_false, not_or] at hc
  fun_induction decodeFrom quote out raw <;> grind

theorem mem_decodeEnvOptionToken (hc : c ∉ ['\'', '"', '\\']) {w : Text}
    (hmem : c ∈ w) : c ∈ decodeEnvOptionToken w := by
  unfold decodeEnvOptionToken
  split
  · cases hdecode : decodeShellLiteralSpelling w with
    | none => exact hmem
    | some decoded => exact mem_decodeFrom hc hdecode (Or.inr hmem)
  · exact hmem

theorem classifyLetters_argNeedNext {letters : Text} {kind : Char}
    (h : classifyLetters letters = .argNeedNext kind) : '=' ∉ letters := by
  induction letters with
  | nil => simp
  | cons c cs ih =>
    rw [classifyLetters] at h
    rw [mem_cons, not_or]
    split at h
    · rename_i hc
      refine ⟨?_, ih h⟩
      rintro rfl
      revert hc
      decide
    · split at h
      · cases h
      · split at h
        · rename_i hc
          split at h
          · rename_i hcs
            refine ⟨?_, by simp [hcs]⟩
            rintro rfl
            revert hc
            decide
          · cases h
        · cases h

theorem classifyEnvShort_argNeedNext {w : Text} {kind : Char}
    (h : classifyEnvShort w = .argNeedNext kind) : '=' ∉ w := by
  unfold classifyEnvShort at h
  split at h
  · cases h
  · cases h
  · split at h <;> cases h
  · rw [mem_cons, not_or]
    exact ⟨by decide, classifyLetters_argNeedNext h⟩
  · cases h

/-- A word with an equals sign that looks like an option is passed over
alone, unless the scan stops there and asks. -/
theorem envScanFrom_dashed_assignment {w : Text} {rest : List Text}
    (hequals : '=' ∈ w) (hdash : startsWith w "-" = true) :
    (envScanFrom chdir (w :: rest)).Asks ∨
      ∃ chdir', envScanFrom chdir (w :: rest) = envScanFrom chdir' rest := by
  refine envScanFrom_skip ?_ hdash ?_ ?_
  · rintro rfl
    revert hequals
    decide
  · rw [Bool.eq_false_iff]
    intro hlist
    have hlist : "--chdir".toList = w ∨ "--unset".toList = w ∨ "--path".toList = w ∨
        "--argv0".toList = w := by
      simpa only [oneOf, any_cons, any_nil, Bool.or_false, Bool.or_eq_true,
        beq_iff_eq] using hlist
    rcases hlist with h | h | h | h <;> rw [← h] at hequals <;> revert hequals <;> decide
  · intro _ kind hkind
    exact classifyEnvShort_argNeedNext hkind (mem_decodeEnvOptionToken (by decide) hequals)

theorem isEnvAssignment_plain {w : Text} (h : isEnvAssignment w = true) :
    startsWith w "-" = false := by
  unfold isEnvAssignment at h
  split at h
  · cases h
  · rename_i name value hsplit
    split at h
    · cases h
    · rename_i c cs
      obtain ⟨_, rfl⟩ := splitOnce_some hsplit
      rw [Bool.and_eq_true] at h
      show ('-' == c && _) = false
      have hc : '-' ≠ c := by
        rintro rfl
        revert h
        simp [isNameStart]
      rw [beq_false_of_ne hc, Bool.false_and]

theorem isEnvAssignment_eq_false {w : Text} (h : w.contains '=' = false) :
    isEnvAssignment w = false := by
  have hmem : '=' ∉ w := by simpa [contains_iff_mem] using h
  rw [isEnvAssignment, splitOnce_eq_none hmem]

theorem not_dashes_of_plain {w : Text} (h : startsWith w "-" = false) :
    w ≠ "--".toList ∧ w ≠ "-".toList := by
  constructor <;> rintro rfl <;> cases h

theorem envScanFrom_assignments {words inner : List Text}
    (hread : assignmentsReadable words = true) (hinner : inner ≠ [])
    (hdrop : dropAssignments words = inner) :
    (envScanFrom chdir words).Asks ∨ (envScanFrom chdir words).command = inner := by
  induction words generalizing chdir with
  | nil => exact absurd hdrop.symm hinner
  | cons w rest ih =>
    rw [assignmentsReadable] at hread
    rw [dropAssignments] at hdrop
    split at hread
    · rename_i hequals
      rw [if_pos hequals] at hdrop
      rw [Bool.and_eq_true, Bool.or_eq_true] at hread
      obtain ⟨hword, hrest⟩ := hread
      rcases hword with hassignment | hdash
      · have hplain := isEnvAssignment_plain hassignment
        obtain ⟨hdashes, hlone⟩ := not_dashes_of_plain hplain
        rw [envScanFrom.eq_def]
        simp only [hdashes, hlone, hplain, hassignment, if_false, if_true]
        exact ih hrest hdrop
      · have hmem : '=' ∈ w := contains_iff_mem.mp hequals
        rcases @envScanFrom_dashed_assignment chdir w rest hmem hdash
          with h | ⟨chdir', h⟩
        · exact Or.inl h
        · rw [h]
          exact ih hrest hdrop
    · rename_i hequals
      rw [if_neg hequals] at hdrop
      rw [Bool.not_eq_true] at hequals
      have hplain : startsWith w "-" = false := by simpa using hread
      obtain ⟨hdashes, hlone⟩ := not_dashes_of_plain hplain
      rw [envScanFrom.eq_def]
      simp only [hdashes, hlone, hplain, isEnvAssignment_eq_false hequals, if_false, if_true,
        Bool.false_eq_true]
      exact Or.inr hdrop

theorem envScanFrom_eq
    (hruns : ((envOptions.skip args).bind fun r =>
      nonEmpty (dropAssignments (dropDash r.2))) = some inner)
    (hread : envReadable args = true) :
    (envScanFrom none args).Asks ∨ (envScanFrom none args).command = inner := by
  obtain ⟨⟨ended, rest⟩, hskip, hrest⟩ := bind_eq_some_iff.mp hruns
  obtain ⟨hdrop, hinner⟩ := nonEmpty_eq_some.mp hrest
  simp only [envReadable, hskip, Bool.and_eq_true] at hread
  obtain ⟨hevery, hend⟩ := hread
  refine envOptions.skip_induction (motive := fun args ended rest => ∀ chdir,
      envOptions.everyOption (fun w => !emptiedByQuotes w) args = true →
      (match (ended, rest) with
        | (true, rest) => commandFollows rest
        | (false, rest) => assignmentsReadable (dropDash rest)) = true →
      dropAssignments (dropDash rest) = inner →
      (envScanFrom chdir args).Asks ∨ (envScanFrom chdir args).command = inner)
    ?_ ?_ ?_ ?_ ?_ hskip none hevery ?_ hdrop
  · intro chdir _ _ hdrop
    exact absurd hdrop.symm hinner
  · -- `--`: the documented command and the code's begin behind it
    intro rest chdir _ hend hdrop
    refine Or.inr ?_
    rw [envScanFrom.eq_def]
    show rest = inner
    cases rest with
    | nil => exact absurd hdrop.symm hinner
    | cons w rest =>
      simp only [commandFollows, Bool.and_eq_true, decide_eq_true_eq, Bool.not_eq_true'] at hend
      rw [dropDash, if_neg hend.1, dropAssignments, hend.2] at hdrop
      exact hdrop
  · -- the first operand, or the lone dash in front of it
    intro w rest hdashes hoperand chdir _ hend hdrop
    by_cases hlone : w = "-".toList
    · simp only [dropDash, hlone, if_true] at hend hdrop
      rw [envScanFrom.eq_def]
      simp only [hlone]
      exact envScanFrom_assignments hend hinner hdrop
    · simp only [dropDash, hlone, if_false] at hend hdrop
      exact envScanFrom_assignments hend hinner hdrop
  · intro w rest ended out hdashes hoption harity ih chdir hevery hend hdrop
    rw [envOptions.everyOption_one hdashes hoption harity, Bool.and_eq_true,
      Bool.not_eq_true'] at hevery
    rcases @envScanFrom_one chdir w rest hdashes hoption harity hevery.1
      with h | ⟨chdir', h⟩
    · exact Or.inl h
    · rw [h]
      exact ih chdir' hevery.2 hend hdrop
  · intro w value rest ended out hdashes hoption harity ih chdir hevery hend hdrop
    rw [envOptions.everyOption_two hdashes hoption harity, Bool.and_eq_true] at hevery
    rcases @envScanFrom_two chdir w value rest hdashes hoption harity
      with h | ⟨chdir', h⟩
    · exact Or.inl h
    · rw [h]
      exact ih chdir' hevery.2 hend hdrop
  · cases ended with
    | true => exact hend
    | false => exact hend

/-! ## A layer -/

theorem peelStep_wrapper {words inner : List Text} {rest : Option (List Text)}
    (hrest : rest = some inner) (h : stripWrapperCommand words = rest) :
    peelStep words = some inner := by
  rw [peelStep, h, hrest]

theorem peelStep_transparent {words inner : List Text} {strip : TransparentStrip}
    (hstrip : strip = .ambiguous ∨ strip = .peeled inner)
    (hambiguous : stripTransparentPrefix words ≠ .ambiguous)
    (hwrapper : stripWrapperCommand words = none) (h : stripTransparentPrefix words = strip) :
    peelStep words = some inner := by
  rcases hstrip with hstrip | hstrip
  · exact absurd (h.trans hstrip) hambiguous
  · rw [peelStep, hwrapper, h, hstrip]

theorem program_ne {program : Text} {name : String} (hname : basename program = name.toList)
    (hempty : name.toList ≠ []) (hnul : name.toList ≠ nul) :
    ¬(program = [] ∨ program = nul) := by
  intro h
  rcases h with h | h
  · exact hempty (by rw [← hname, h]; rfl)
  · exact hnul (by rw [← hname, h]; rfl)

theorem envCommand_eq
    (hflags : (envScanFrom none args).hasSplitString = false ∧
      (envScanFrom none args).optionsUncertain = false)
    (hcommand : (envScanFrom none args).Asks ∨ (envScanFrom none args).command = inner)
    (hne : inner ≠ []) : nonEmpty (envScanFrom none args).command = some inner := by
  rcases hcommand with hasks | hcommand
  · rcases hasks with h | h
    · rw [hflags.1] at h
      cases h
    · rw [hflags.2] at h
      cases h
  · rw [hcommand, nonEmpty_eq_some]
    exact ⟨rfl, hne⟩

/-- On a readable layer the code peels to the documented command, unless the
layer makes it ask. -/
theorem peelStep_eq {words inner : List Text} (hruns : runs words = some inner)
    (hread : readable words = true) (henv : envAsks words = false)
    (hambiguous : stripTransparentPrefix words ≠ .ambiguous) : peelStep words = some inner := by
  cases words with
  | nil => cases hruns
  | cons program args =>
    simp only [runs] at hruns
    simp only [readable] at hread
    -- both sides look at the program in the same order
    split at hruns
    · rename_i hhead
      rw [if_pos hhead] at hread
      refine peelStep_wrapper (nonEmpty_skipOptions_tail (by decide) hruns hread) ?_
      simp only [stripWrapperCommand, hhead, if_true]
    rename_i htimeout
    rw [if_neg htimeout] at hread
    split at hruns
    · rename_i hhead
      rw [if_pos hhead] at hread
      refine peelStep_wrapper (nonEmpty_skipOptions (by decide) hruns hread) ?_
      simp only [stripWrapperCommand, hhead, if_true]
      rfl
    rename_i hnice
    rw [if_neg hnice] at hread
    split at hruns
    · rename_i hhead
      rw [if_pos hhead] at hread
      refine peelStep_wrapper (nonEmpty_skipOptions (by decide) hruns hread) ?_
      simp only [stripWrapperCommand, hhead, if_true]
      rfl
    rename_i hionice
    rw [if_neg hionice] at hread
    split at hruns
    · rename_i hhead
      rw [if_pos hhead] at hread
      refine peelStep_wrapper (nonEmpty_skipOptions_tail (by decide) hruns hread) ?_
      simp only [stripWrapperCommand, hhead, if_true]
      rfl
    rename_i hchrt
    rw [if_neg hchrt] at hread
    split at hruns
    · rename_i hhead
      rw [if_pos hhead] at hread
      refine peelStep_wrapper (nonEmpty_skipOptions (by decide) hruns hread) ?_
      simp only [stripWrapperCommand, hhead, if_true]
      rfl
    rename_i hstdbuf
    rw [if_neg hstdbuf] at hread
    split at hruns
    · -- `env` asks or stops at its command
      rename_i hhead
      rw [if_pos hhead] at hread
      have hscan : envScan (program :: args) = envScanFrom none args := rfl
      have hflags : (envScanFrom none args).hasSplitString = false ∧
          (envScanFrom none args).optionsUncertain = false := by
        simpa [envAsks, headIs, hhead, hscan] using henv
      have hne : inner ≠ [] := by
        obtain ⟨_, _, hrest⟩ := bind_eq_some_iff.mp hruns
        exact (nonEmpty_eq_some.mp hrest).2
      refine peelStep_wrapper (envCommand_eq hflags (envScanFrom_eq hruns hread) hne) ?_
      simp only [stripWrapperCommand, hhead, if_true, hscan, hflags.1, hflags.2]
      rfl
    rename_i henvhead
    rw [if_neg henvhead] at hread
    have hwrapper : stripWrapperCommand (program :: args) = none := by
      simp only [stripWrapperCommand, htimeout, hnice, hionice, hchrt, hstdbuf, henvhead, if_false]
    split at hruns
    · rename_i hhead
      refine peelStep_transparent (stripExecArgs_eq hruns) hambiguous hwrapper ?_
      simp only [stripTransparentPrefix, if_neg (program_ne hhead (by decide) (by decide)), hhead,
        if_true]
    rename_i hexec
    split at hruns
    · rename_i hhead
      rw [if_pos hhead] at hread
      refine peelStep_transparent (Or.inr (stripCommandArgs_eq hruns hread)) hambiguous hwrapper ?_
      simp only [stripTransparentPrefix, if_neg (program_ne hhead (by decide) (by decide)), hhead,
        if_true]
      rfl
    rename_i hcommand
    split at hruns
    · rename_i hhead
      refine peelStep_transparent (stripBuiltinArgs_eq hruns) hambiguous hwrapper ?_
      simp only [stripTransparentPrefix, if_neg (program_ne hhead (by decide) (by decide)), hhead,
        if_true]
      rfl
    · cases hruns

end GrokBuild.Permission
