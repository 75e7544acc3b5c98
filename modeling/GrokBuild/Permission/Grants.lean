import GrokBuild.Permission.Laws

/-!
# Permissions: what an allowed script is made of

An allow of a bash command grants everything the command runs. `Nested` lists
what it runs as scripts: the command itself, and the literal `-c` script of
every shell among its commands, and so on. `Decomposed` says what has to hold
of each of them. The headline `evaluate_bash_allow_iff` is an equivalence: the
recursion of `bash_chain_fully_allowed` skips no leaf and refuses nothing
else.
-/

namespace GrokBuild.Permission

open TextLines Str List Option

/-! ## Matching at a word boundary -/

/-- The text starts with the pattern and goes on, if it does, with a space. -/
def AtWordBoundary (pattern cmd : Text) : Prop :=
  cmd = pattern ∨ ∃ rest, cmd = pattern ++ ' ' :: rest

theorem matchesCommandPrefix_iff (cmd pattern : Text) :
    matchesCommandPrefix cmd pattern = true ↔ AtWordBoundary pattern cmd := by
  simp only [matchesCommandPrefix, AtWordBoundary, Bool.or_eq_true, Bool.and_eq_true, beq_iff_eq,
    isPrefixOf_iff_prefix]
  constructor
  · rintro (h | ⟨⟨rest, rfl⟩, h⟩)
    · exact Or.inl h
    · rw [drop_left, head?_eq_some_iff] at h
      obtain ⟨tail, rfl⟩ := h
      exact Or.inr ⟨tail, rfl⟩
  · rintro (h | ⟨rest, rfl⟩)
    · exact Or.inl h
    · exact Or.inr ⟨prefix_append .., by simp⟩

/-- An allow rule covers the text of a command: it has no pattern or `*`, or
its pattern matches at a word boundary or as a glob. -/
def AllowMatches (ext : Externals) (rule : PermissionRule) (cmd : Text) : Prop :=
  match rule.pattern with
  | none => True
  | some pattern => pattern = "*".toList ∨ AtWordBoundary pattern (trimStart cmd) ∨
      ∃ glob, ext.patternNew pattern = some glob ∧ ext.matchesWith glob false (trimStart cmd)

theorem bashAllowPatternMatches_iff (ext : Externals) (rule : PermissionRule) (cmd : Text) :
    ext.bashAllowPatternMatches cmd rule (ext.matcherOf rule) = true ↔
      AllowMatches ext rule cmd := by
  unfold Externals.bashAllowPatternMatches AllowMatches Externals.matcherOf
  cases rule.pattern with
  | none => simp
  | some pattern =>
    by_cases hstar : pattern = "*".toList
    · simp [hstar]
    · simp only [hstar, if_false, Bool.or_eq_true, matchesCommandPrefix_iff, false_or]
      refine or_congr_right ?_
      cases hglob : ext.patternNew pattern with
      | none => simp [Externals.globMatches]
      | some glob => simp [Externals.globMatches]

/-! ## The scripts that a script runs -/

/-- The script at the index that `shell_dash_c_script` reports. -/
def inlineScript (words : List Text) : Option Text :=
  match shellDashCScript (words.map .literal) with
  | .literal index => words[index]?
  | _ => none

/-- `Nested ext depth script inner`: running `script` runs `inner`, through
`depth` shells that are each given a literal `-c` script. -/
inductive Nested (ext : Externals) : Nat → Text → Text → Prop where
  | here (script : Text) : Nested ext 0 script script
  | inside {script inner innermost : Text} {depth : Nat} {commands : List PlainCommand}
      {parsed : PlainCommand}
      (hcommands : allCommandsFromScript ext.tryParseShell script = some commands)
      (hmem : parsed ∈ commands)
      (hinner : inlineScript (normalizeCommandWords parsed.words).words = some inner)
      (rest : Nested ext depth inner innermost) : Nested ext (depth + 1) script innermost

/-- One command is granted: its peel is certain, an allow rule matches what
is left, and an inline script, if there is one, can be read. -/
structure Granted (ext : Externals) (rules : List PermissionRule) (argv : List Text) : Prop where
  notExhausted : (normalizeCommandWords argv).exhausted = false
  notAmbiguous : (normalizeCommandWords argv).ambiguous = false
  certain : (normalizeCommandWords argv).envOptionsUncertain = false
  notSplit : (normalizeCommandWords argv).hasSplitString = false
  nonempty : (normalizeCommandWords argv).words ≠ []
  allowed : ∃ rule ∈ rules, rule.action = .allow ∧ (rule.tool = .bash ∨ rule.tool = .any) ∧
    AllowMatches ext rule (joinWords (normalizeCommandWords argv).words)
  readable : shellDashCScript ((normalizeCommandWords argv).words.map .literal) = .notInline ∨
    ∃ script, inlineScript (normalizeCommandWords argv).words = some script

/-- A script decomposes into commands that are all granted. -/
def Decomposed (ext : Externals) (rules : List PermissionRule) (script : Text) : Prop :=
  ∃ commands, allCommandsFromScript ext.tryParseShell script = some commands ∧ commands ≠ [] ∧
    ∀ parsed ∈ commands, Granted ext rules parsed.words

/-! ## The index of an inline script -/

variable {index : Nat}

theorem scanShellWords_literal {dynamicHead sawC unrecognized : Bool} {i : Nat}
    {words : List ShellWord}
    (h : scanShellWords dynamicHead i sawC unrecognized words = .literal index) :
    index < i + words.length := by
  fun_induction scanShellWords dynamicHead i sawC unrecognized words <;>
    grind [noScript, ambiguousShell, finishLiteral]

theorem shellDashCScript_literal {words : List ShellWord}
    (h : shellDashCScript words = .literal index) : index < words.length := by
  unfold shellDashCScript at h
  split at h
  · cases h
  · split at h
    · have hlt := scanShellWords_literal h
      rw [length_cons]
      omega
    · cases h
  · have hlt := scanShellWords_literal h
    rw [length_cons]
    omega

theorem inlineScript_of_literal {words : List Text}
    (h : shellDashCScript (words.map .literal) = .literal index) :
    inlineScript words = some (words[index]?.getD []) := by
  have hlt := shellDashCScript_literal h
  rw [length_map] at hlt
  simp [inlineScript, h, getElem?_eq_getElem hlt]

namespace CompiledPolicy

variable {ext : Externals} {rules : List PermissionRule}

/-! ## One command -/

theorem bashWordsAllowed_iff (words : List Text) :
    (new ext rules).bashWordsAllowed words = true ↔ words ≠ [] ∧
      ∃ rule ∈ rules, rule.action = .allow ∧ (rule.tool = .bash ∨ rule.tool = .any) ∧
        AllowMatches ext rule (joinWords words) := by
  have htool : ∀ tool : ToolFilter, tool.coversBash = true ↔ tool = .bash ∨ tool = .any := by
    intro tool
    cases tool <;> simp [ToolFilter.coversBash]
  rw [bashWordsAllowed_new]
  simp only [Bool.and_eq_true, decide_eq_true_eq, List.any_eq_true, beq_iff_eq, htool,
    bashAllowPatternMatches_iff, and_assoc]

/-- A command is allowed when it is granted and its inline script, if there
is one, is allowed with what is left of the budget. -/
theorem commandAllowed_iff (recurse : Option (Text → Bool)) (argv : List Text) :
    (new ext rules).commandAllowed recurse argv = true ↔ Granted ext rules argv ∧
      ∀ script, inlineScript (normalizeCommandWords argv).words = some script →
        ∃ allowed, recurse = some allowed ∧ allowed script = true := by
  constructor
  · intro h
    unfold commandAllowed at h
    simp only at h
    split at h
    · cases h
    rename_i hflags
    split at h
    · cases h
    rename_i hwords
    simp only [Bool.not_eq_true, Bool.or_eq_false_iff] at hflags
    rw [Bool.not_eq_false, bashWordsAllowed_iff] at hwords
    obtain ⟨⟨⟨hexhausted, hambiguous⟩, huncertain⟩, hsplit⟩ := hflags
    have hgranted := Granted.mk hexhausted hambiguous huncertain hsplit hwords.1 hwords.2
    -- an inline script is looked at only when it is a literal
    cases hscript : shellDashCScript ((normalizeCommandWords argv).words.map .literal) with
    | literal index =>
      have hinline := inlineScript_of_literal hscript
      rw [hscript] at h
      refine ⟨hgranted (Or.inr ⟨_, hinline⟩), ?_⟩
      intro script heq
      rw [hinline, some.injEq] at heq
      cases recurse with
      | none => cases h
      | some allowed => exact ⟨allowed, rfl, heq ▸ h⟩
    | notInline =>
      refine ⟨hgranted (Or.inl hscript), ?_⟩
      intro script heq
      simp [inlineScript, hscript] at heq
    | untrusted => simp [hscript] at h
    | unrecognized => simp [hscript] at h
  · intro ⟨hgranted, hinner⟩
    have hwords : (new ext rules).bashWordsAllowed (normalizeCommandWords argv).words = true :=
      (bashWordsAllowed_iff _).mpr ⟨hgranted.nonempty, hgranted.allowed⟩
    simp only [commandAllowed, hgranted.notExhausted, hgranted.notAmbiguous, hgranted.certain,
      hgranted.notSplit, hwords]
    cases hscript : shellDashCScript ((normalizeCommandWords argv).words.map .literal) with
    | literal index =>
      obtain ⟨allowed, rfl, hallowed⟩ := hinner _ (inlineScript_of_literal hscript)
      simpa using hallowed
    | notInline => rfl
    | untrusted =>
      have hreadable := hgranted.readable
      simp [hscript, inlineScript] at hreadable
    | unrecognized =>
      have hreadable := hgranted.readable
      simp [hscript, inlineScript] at hreadable

/-! ## A whole script -/

theorem chainAllowedWith_iff (recurse : Option (Text → Bool)) (cmd : Text) :
    (new ext rules).chainAllowedWith recurse cmd = true ↔ Decomposed ext rules cmd ∧
      ∀ script, Nested ext 1 cmd script → ∃ allowed, recurse = some allowed ∧
        allowed script = true := by
  unfold chainAllowedWith Decomposed
  cases hcommands : allCommandsFromScript ext.tryParseShell cmd with
  | none => simp
  | some commands =>
    by_cases hempty : commands = []
    · simp [hempty]
    simp only [hempty, if_false, List.all_eq_true, commandAllowed_iff, some.injEq,
      exists_eq_left']
    constructor
    · intro h
      refine ⟨⟨hempty, fun parsed hmem => (h parsed hmem).1⟩, ?_⟩
      intro script hnested
      cases hnested with
      | inside hcommands' hmem hinner rest =>
        cases rest
        rw [hcommands, some.injEq] at hcommands'
        subst hcommands'
        exact (h _ hmem).2 _ hinner
    · intro ⟨⟨_, hgranted⟩, hinner⟩ parsed hmem
      exact ⟨hgranted parsed hmem, fun script heq =>
        hinner script (.inside hcommands hmem heq (.here script))⟩

theorem nested_succ {depth : Nat} {cmd script : Text} :
    Nested ext (depth + 1) cmd script ↔
      ∃ inner, Nested ext 1 cmd inner ∧ Nested ext depth inner script := by
  constructor
  · intro h
    cases h with
    | inside hcommands hmem hinner rest =>
      exact ⟨_, .inside hcommands hmem hinner (.here _), rest⟩
  · intro ⟨inner, hfirst, hrest⟩
    cases hfirst with
    | inside hcommands hmem hinner rest =>
      cases rest
      exact .inside hcommands hmem hinner hrest

/-- With a budget of `n`, exactly the scripts are allowed whose nested
scripts all decompose and go no deeper than `n`. -/
theorem bashChainFullyAllowed_iff (n : Nat) (cmd : Text) :
    (new ext rules).bashChainFullyAllowed n cmd = true ↔
      ∀ depth script, Nested ext depth cmd script → depth ≤ n ∧ Decomposed ext rules script := by
  induction n generalizing cmd with
  | zero =>
    rw [bashChainFullyAllowed, chainAllowedWith_iff]
    constructor
    · rintro ⟨hself, hinner⟩ depth script hnested
      cases depth with
      | zero =>
        cases hnested
        exact ⟨le_rfl, hself⟩
      | succ depth =>
        obtain ⟨inner, hfirst, _⟩ := nested_succ.mp hnested
        obtain ⟨allowed, hnone, _⟩ := hinner inner hfirst
        cases hnone
    · intro h
      refine ⟨(h 0 cmd (.here cmd)).2, ?_⟩
      intro script hnested
      have hdepth := (h 1 script hnested).1
      omega
  | succ n ih =>
    rw [bashChainFullyAllowed, chainAllowedWith_iff]
    simp only [some.injEq, exists_eq_left']
    constructor
    · rintro ⟨hself, hinner⟩ depth script hnested
      cases depth with
      | zero =>
        cases hnested
        exact ⟨Nat.zero_le _, hself⟩
      | succ depth =>
        obtain ⟨inner, hfirst, hrest⟩ := nested_succ.mp hnested
        have hscript := (ih inner).mp (hinner inner hfirst) depth script hrest
        exact ⟨Nat.succ_le_succ hscript.1, hscript.2⟩
    · intro h
      refine ⟨(h 0 cmd (.here cmd)).2, ?_⟩
      intro inner hfirst
      refine (ih inner).mpr ?_
      intro depth script hrest
      have hscript := h (depth + 1) script (nested_succ.mpr ⟨inner, hfirst, hrest⟩)
      exact ⟨Nat.le_of_succ_le_succ hscript.1, hscript.2⟩

theorem hasBashAllowRules_of_decomposed {cmd : Text} (h : Decomposed ext rules cmd) :
    (new ext rules).hasBashAllowRules = true := by
  obtain ⟨commands, _, hne, hgranted⟩ := h
  obtain ⟨parsed, hmem⟩ := exists_mem_of_ne_nil commands hne
  obtain ⟨rule, hrule, haction, htool, _⟩ := (hgranted parsed hmem).allowed
  refine List.any_eq_true.mpr ⟨rule, hrule, ?_⟩
  rcases htool with htool | htool <;> simp [haction, htool, ToolFilter.coversBash]

/-- A bash command is allowed exactly when no deny or ask rule matches it and
every script that it runs, at whatever depth, stays inside the depth budget
and decomposes into granted commands. -/
theorem evaluate_bash_allow_iff (ext : Externals) (rules : List PermissionRule) (cmd : Text) :
    (new ext rules).evaluate (.bash cmd) = some .allow ↔
      (∀ rule ∈ rules, rule.action = .deny ∨ rule.action = .ask →
        ¬ (toolFilterMatches (.bash cmd) rule.tool = true ∧
          ext.patternMatches (.bash cmd) rule (ext.matcherOf rule) = true)) ∧
      ∀ depth script, Nested ext depth cmd script →
        depth ≤ maxInlineShellDepth ∧ Decomposed ext rules script := by
  have hkind : (new ext rules).evaluate (.bash cmd) = some .allow ↔
      ((new ext rules).evaluate (.bash cmd)).map Decision.kind = some .allow := by
    rcases (new ext rules).evaluate (.bash cmd) with _ | (_ | _ | _) <;> simp [Decision.kind]
  have hmiss : (∀ rule ∈ rules, rule.action = .deny ∨ rule.action = .ask →
      ¬ (toolFilterMatches (.bash cmd) rule.tool = true ∧
        ext.patternMatches (.bash cmd) rule (ext.matcherOf rule) = true)) ↔
      rules.any (hits ext .deny (.bash cmd)) = false ∧
        rules.any (hits ext .ask (.bash cmd)) = false := by
    simp only [List.any_eq_false, hits, Bool.and_eq_true, decide_eq_true_eq, not_and]
    constructor
    · intro h
      exact ⟨fun r hr ha => h r hr (Or.inl ha), fun r hr ha => h r hr (Or.inr ha)⟩
    · rintro ⟨hdeny, hask⟩ r hr (ha | ha)
      · exact hdeny r hr ha
      · exact hask r hr ha
  rw [hkind, kind_evaluate, hmiss, ← bashChainFullyAllowed_iff]
  have hflag : (new ext rules).bashChainFullyAllowed maxInlineShellDepth cmd = true →
      (new ext rules).hasBashAllowRules = true := fun h =>
    hasBashAllowRules_of_decomposed (((bashChainFullyAllowed_iff _ _).mp h) 0 cmd (.here cmd)).2
  cases rules.any (hits ext .deny (.bash cmd)) with
  | true => simp
  | false =>
    cases rules.any (hits ext .ask (.bash cmd)) with
    | true => simp
    | false =>
      simp only [grants, Bool.false_eq_true, if_false, true_and, Bool.and_eq_true, and_self]
      constructor
      · intro h
        split at h
        · exact (‹_ ∧ _›).2
        · cases h
      · intro h
        rw [if_pos ⟨hflag h, h⟩]

end CompiledPolicy

end GrokBuild.Permission
