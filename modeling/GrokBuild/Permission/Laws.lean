import GrokBuild.Permission.Policy

/-!
# Permissions: what adding and reordering rules can do

`evaluate` reads the rules only through three questions: is there a deny rule
that matches, is there an ask rule that matches, and what do the allow rules
grant (`evaluate_new`). The gate reads them only through `evaluate`, and it
is monotone in it (`gateRank_segments_le`). So the order of the rules does not
matter, restrictions only restrict, and allow rules never loosen one.
-/

namespace GrokBuild.Permission

open TextLines Str List

/-- What kind of decision it is, without the reason. -/
inductive Kind where
  | reject
  | ask
  | allow
  deriving DecidableEq

def Decision.kind : Decision → Kind
  | .reject _ => .reject
  | .ask => .ask
  | .allow => .allow

/-- How strict a result of `evaluate` is: Reject, then Ask, then the rest. -/
def strictness : Option Decision → Nat
  | some (.reject _) => 2
  | some .ask => 1
  | some .allow => 0
  | none => 0

/-- How strict a result of the gate is. Both ways to ask count the same. -/
def gateStrictness : Option GateDecision → Nat
  | some (.reject _) => 2
  | some .askRuleMatch => 1
  | some .askFailClosed => 1
  | none => 0

/-- The arm of a result of the gate as a number, 0 for none. -/
def gateRank : Option GateDecision → Nat
  | none => 0
  | some d => d.rank

/-! ## The combination is a maximum -/

@[simp] theorem combineGateDecisions_none_left (d : Option GateDecision) :
    combineGateDecisions none d = d := by
  cases d <;> rfl

@[simp] theorem gateRank_combine (a b : Option GateDecision) :
    gateRank (combineGateDecisions a b) = max (gateRank a) (gateRank b) := by
  cases a with
  | none => simp [gateRank]
  | some a =>
    cases b with
    | none => simp [combineGateDecisions, gateRank]
    | some b =>
      simp only [combineGateDecisions, gateRank]
      split <;> omega

theorem gateRank_eq_zero {d : Option GateDecision} : gateRank d = 0 ↔ d = none := by
  cases d with
  | none => simp [gateRank]
  | some d => cases d <;> simp [gateRank, GateDecision.rank]

/-- The rank tells the arms apart. -/
theorem map_rank_eq {a b : Option GateDecision} (h : gateRank a = gateRank b) :
    a.map GateDecision.rank = b.map GateDecision.rank := by
  rcases a with - | a <;> rcases b with - | b
  · rfl
  · cases b <;> simp [gateRank, GateDecision.rank] at h
  · cases a <;> simp [gateRank, GateDecision.rank] at h
  · simpa [gateRank] using h

theorem gateStrictness_le {a b : Option GateDecision} (h : gateRank a ≤ gateRank b) :
    gateStrictness a ≤ gateStrictness b := by
  rcases a with _ | (_ | _ | _) <;> rcases b with _ | (_ | _ | _) <;>
    simp [gateRank, gateStrictness, GateDecision.rank] at h ⊢

namespace CompiledPolicy

variable {ext : Externals}

/-! ## What `evaluate` reads of the rules -/

/-- A rule of this action that matches the access. -/
def hits (ext : Externals) (action : RuleAction) (access : AccessKind) (r : PermissionRule) :
    Bool :=
  decide (r.action = action) && (toolFilterMatches access r.tool
    && ext.patternMatches access r (ext.matcherOf r))

/-- The loop finds the first deny rule that matches, and otherwise whether
an ask or allow rule matches. -/
theorem scanRules_new (access : AccessKind) (rules : List PermissionRule)
    (matchedAsk matchedAllow : Bool) :
    scanRules ext access matchedAsk matchedAllow (rules.zip (rules.map ext.matcherOf)) =
      match rules.find? (hits ext .deny access) with
      | some r => .denied (denyReason r)
      | none => .done (matchedAsk || rules.any (hits ext .ask access))
          (matchedAllow || rules.any (hits ext .allow access)) := by
  induction rules generalizing matchedAsk matchedAllow with
  | nil => simp [scanRules]
  | cons r rules ih =>
    simp only [map_cons, zip_cons_cons, scanRules, find?_cons, any_cons]
    cases ht : toolFilterMatches access r.tool with
    | false => simp [hits, ht, ih]
    | true =>
      cases hp : ext.patternMatches access r (ext.matcherOf r) with
      | false => simp [hits, ht, hp, ih]
      | true => cases ha : r.action <;> simp [hits, ht, hp, ha, ih]

/-- What the allow rules grant when no restriction matches. -/
def grants (ext : Externals) (rules : List PermissionRule) (access : AccessKind) : Bool :=
  match access with
  | .bash cmd => (new ext rules).hasBashAllowRules
      && (new ext rules).bashChainFullyAllowed maxInlineShellDepth cmd
  | _ => rules.any (hits ext .allow access)

theorem evaluate_new (rules : List PermissionRule) (access : AccessKind) :
    (new ext rules).evaluate access =
      match rules.find? (hits ext .deny access) with
      | some r => some (.reject (denyReason r))
      | none =>
        if rules.any (hits ext .ask access) then some .ask
        else if grants ext rules access then some .allow else none := by
  have hscan := @scanRules_new ext access rules false false
  unfold evaluate
  simp only [new] at hscan ⊢
  rw [hscan]
  cases rules.find? (hits ext .deny access) with
  | some r => rfl
  | none =>
    simp only [Bool.false_or]
    cases access <;> rfl

theorem isSome_find?_deny (rules : List PermissionRule) (access : AccessKind) :
    (rules.find? (hits ext .deny access)).isSome = rules.any (hits ext .deny access) := by
  rw [Bool.eq_iff_iff, find?_isSome, List.any_eq_true]

theorem kind_evaluate (rules : List PermissionRule) (access : AccessKind) :
    ((new ext rules).evaluate access).map Decision.kind =
      if rules.any (hits ext .deny access) then some .reject
      else if rules.any (hits ext .ask access) then some .ask
      else if grants ext rules access then some .allow else none := by
  rw [evaluate_new, ← isSome_find?_deny]
  cases rules.find? (hits ext .deny access) with
  | some r => simp [Decision.kind]
  | none =>
    simp only [Option.isSome_none, Bool.false_eq_true, if_false]
    split
    · rfl
    · split <;> rfl

theorem strictness_evaluate (rules : List PermissionRule) (access : AccessKind) :
    strictness ((new ext rules).evaluate access) =
      if rules.any (hits ext .deny access) then 2
      else if rules.any (hits ext .ask access) then 1 else 0 := by
  rw [evaluate_new, ← isSome_find?_deny]
  cases rules.find? (hits ext .deny access) with
  | some r => simp [strictness]
  | none =>
    simp only [Option.isSome_none, Bool.false_eq_true, if_false]
    split
    · rfl
    · split <;> rfl

/-! ## Allow rules only widen the grant -/

theorem bashWordsAllowed_new (rules : List PermissionRule) (words : List Text) :
    (new ext rules).bashWordsAllowed words =
      (words ≠ [] && rules.any fun r => r.action == .allow && r.tool.coversBash
        && ext.bashAllowPatternMatches (joinWords words) r (ext.matcherOf r)) := by
  have hzip : rules.zip (rules.map ext.matcherOf) = rules.map fun r => (r, ext.matcherOf r) := by
    induction rules with
    | nil => rfl
    | cons r rules ih => simp [ih]
  simp only [bashWordsAllowed, new, hzip, List.any_map]
  rfl

theorem bashChainFullyAllowed_congr {p q : CompiledPolicy ext}
    (h : ∀ words, p.bashWordsAllowed words = q.bashWordsAllowed words) (n : Nat) :
    p.bashChainFullyAllowed n = q.bashChainFullyAllowed n := by
  have hcommand : ∀ recurse words, p.commandAllowed recurse words = q.commandAllowed recurse words := by
    intro recurse words
    simp only [commandAllowed, h]
  have hchain : ∀ recurse, p.chainAllowedWith recurse = q.chainAllowedWith recurse := by
    intro recurse
    funext cmd
    simp only [chainAllowedWith, hcommand]
  induction n with
  | zero => exact hchain none
  | succ n ih => simp only [bashChainFullyAllowed, hchain, ih]

variable {rules rules' : List PermissionRule}

theorem any_of_same (h : ∀ r, r ∈ rules ↔ r ∈ rules') (f : PermissionRule → Bool) :
    rules.any f = rules'.any f := by
  rw [Bool.eq_iff_iff, List.any_eq_true, List.any_eq_true]
  constructor
  · intro ⟨r, hr, hf⟩
    exact ⟨r, (h r).mp hr, hf⟩
  · intro ⟨r, hr, hf⟩
    exact ⟨r, (h r).mpr hr, hf⟩

theorem grants_of_same (h : ∀ r, r ∈ rules ↔ r ∈ rules') (access : AccessKind) :
    grants ext rules access = grants ext rules' access := by
  have hwords : ∀ words,
      (new ext rules).bashWordsAllowed words = (new ext rules').bashWordsAllowed words := by
    intro words
    rw [bashWordsAllowed_new, bashWordsAllowed_new, any_of_same h]
  have hflag : (new ext rules).hasBashAllowRules = (new ext rules').hasBashAllowRules :=
    any_of_same h _
  cases access with
  | bash cmd => simp only [grants, hflag, bashChainFullyAllowed_congr hwords]
  | _ => exact any_of_same h _

/-! ## The gate is monotone in `evaluate` -/

section Gate

variable {p q : CompiledPolicy ext} {recurse recurse' : Option (Text → Option GateDecision)}

theorem gateRank_inlineDecision_le
    (h : ∀ script, gateRank (inlineDecision recurse script) ≤ gateRank (inlineDecision recurse' script))
    (words : List Text) :
    gateRank (dashCDecision recurse words) ≤ gateRank (dashCDecision recurse' words) := by
  unfold dashCDecision
  split
  · exact h _
  · exact le_rfl
  · exact le_rfl

theorem gateRank_packedDecision_le
    (h : ∀ script, gateRank (inlineDecision recurse script) ≤ gateRank (inlineDecision recurse' script))
    (words : List Text) :
    gateRank (packedDecision recurse words) ≤ gateRank (packedDecision recurse' words) := by
  unfold packedDecision
  split
  · exact h _
  · exact le_rfl

theorem gateRank_commandWordsWith (p : CompiledPolicy ext)
    (recurse : Option (Text → Option GateDecision)) (words : List Text) :
    gateRank (p.commandWordsWith recurse words) =
      let norm := normalizeCommandWords words
      max (max (max (max (gateRank (askIf (norm.exhausted || norm.ambiguous
        || norm.envOptionsUncertain))) (gateRank (askIf norm.hasSplitString)))
        (gateRank (p.escalate (joinWords words)))) (max
        (if norm.words.length ≠ words.length then gateRank (p.escalate (joinWords norm.words))
          else 0)
        (gateRank (dashCDecision recurse norm.words))))
        (gateRank (packedDecision recurse norm.words)) := by
  simp only [commandWordsWith]
  split
  · simp only [gateRank_combine, max_assoc]
  · simp only [gateRank_combine, max_assoc, zero_le, max_eq_right]

theorem gateRank_commandWordsWith_le
    (hpq : ∀ segment, gateRank (p.escalate segment) ≤ gateRank (q.escalate segment))
    (h : ∀ script, gateRank (inlineDecision recurse script) ≤ gateRank (inlineDecision recurse' script))
    (words : List Text) :
    gateRank (p.commandWordsWith recurse words) ≤ gateRank (q.commandWordsWith recurse' words) := by
  rw [gateRank_commandWordsWith, gateRank_commandWordsWith]
  have hinner : (if (normalizeCommandWords words).words.length ≠ words.length then
      gateRank (p.escalate (joinWords (normalizeCommandWords words).words)) else 0) ≤
      (if (normalizeCommandWords words).words.length ≠ words.length then
      gateRank (q.escalate (joinWords (normalizeCommandWords words).words)) else 0) := by
    split
    · exact hpq _
    · exact le_rfl
  refine max_le_max (max_le_max (max_le_max le_rfl (hpq _)) (max_le_max hinner ?_)) ?_
  · exact gateRank_inlineDecision_le h _
  · exact gateRank_packedDecision_le h _

theorem gateRank_foldl_le {f g : PlainCommand → Option GateDecision}
    (h : ∀ c, gateRank (f c) ≤ gateRank (g c)) (segments : List PlainCommand)
    {a b : Option GateDecision} (hab : gateRank a ≤ gateRank b) :
    gateRank (segments.foldl (fun d c => combineGateDecisions d (f c)) a) ≤
      gateRank (segments.foldl (fun d c => combineGateDecisions d (g c)) b) := by
  induction segments generalizing a b with
  | nil => exact hab
  | cons c segments ih =>
    apply ih
    rw [gateRank_combine, gateRank_combine]
    exact max_le_max hab (h c)

theorem gateRank_segmentsWith_le
    (hpq : ∀ segment, gateRank (p.escalate segment) ≤ gateRank (q.escalate segment))
    (h : ∀ script, gateRank (inlineDecision recurse script) ≤ gateRank (inlineDecision recurse' script))
    (cmd : Text) : gateRank (p.segmentsWith recurse cmd) ≤ gateRank (q.segmentsWith recurse' cmd) := by
  unfold segmentsWith
  split
  · exact le_rfl
  · exact gateRank_foldl_le (fun c => gateRank_commandWordsWith_le hpq h c.words) _ le_rfl

theorem gateRank_segments_le
    (hpq : ∀ segment, gateRank (p.escalate segment) ≤ gateRank (q.escalate segment))
    (n : Nat) (cmd : Text) :
    gateRank (p.evaluateBashCommandSegments n cmd)
      ≤ gateRank (q.evaluateBashCommandSegments n cmd) := by
  -- the budget: a script inside the script has one level less
  induction n generalizing cmd with
  | zero => exact gateRank_segmentsWith_le hpq (fun _ => le_rfl) cmd
  | succ n ih =>
    have hinline : ∀ script,
        gateRank (inlineDecision (some (p.evaluateBashCommandSegments n)) script) ≤
          gateRank (inlineDecision (some (q.evaluateBashCommandSegments n)) script) := ih
    exact gateRank_segmentsWith_le hpq hinline cmd

theorem segments_congr (hpq : ∀ segment, p.escalate segment = q.escalate segment) (n : Nat) :
    p.evaluateBashCommandSegments n = q.evaluateBashCommandSegments n := by
  have hwords : ∀ recurse words, p.commandWordsWith recurse words = q.commandWordsWith recurse words := by
    intro recurse words
    simp only [commandWordsWith, hpq]
  have hstep : ∀ recurse, p.segmentsWith recurse = q.segmentsWith recurse := by
    intro recurse
    funext cmd
    simp only [segmentsWith, hwords]
  induction n with
  | zero => exact hstep none
  | succ n ih => simp only [evaluateBashCommandSegments, hstep, ih]

end Gate

theorem escalate_new (rules : List PermissionRule) (segment : Text) :
    (new ext rules).escalate segment =
      match rules.find? (hits ext .deny (.bash segment)) with
      | some r => some (.reject (denyReason r))
      | none => if rules.any (hits ext .ask (.bash segment)) then some .askRuleMatch else none := by
  rw [escalate, evaluate_new]
  cases rules.find? (hits ext .deny (.bash segment)) with
  | some r => rfl
  | none =>
    cases rules.any (hits ext .ask (.bash segment)) with
    | true => rfl
    | false => cases grants ext rules (.bash segment) <;> rfl

theorem gateRank_escalate (rules : List PermissionRule) (segment : Text) :
    gateRank ((new ext rules).escalate segment) =
      if rules.any (hits ext .deny (.bash segment)) then 3
      else if rules.any (hits ext .ask (.bash segment)) then 2 else 0 := by
  rw [escalate_new, ← isSome_find?_deny]
  cases rules.find? (hits ext .deny (.bash segment)) with
  | some r => rfl
  | none => cases rules.any (hits ext .ask (.bash segment)) <;> rfl

/-! ## Permuting the rules -/

theorem kind_evaluate_perm (h : rules.Perm rules') (access : AccessKind) :
    ((new ext rules).evaluate access).map Decision.kind =
      ((new ext rules').evaluate access).map Decision.kind := by
  have hsame : ∀ r, r ∈ rules ↔ r ∈ rules' := fun r => h.mem_iff
  rw [kind_evaluate, kind_evaluate, any_of_same hsame, any_of_same hsame, grants_of_same hsame]

theorem gateRank_perm (h : rules.Perm rules') (cmd : Text) :
    gateRank ((new ext rules).evaluateBashCommandGate cmd) =
      gateRank ((new ext rules').evaluateBashCommandGate cmd) := by
  have hsame : ∀ r, r ∈ rules ↔ r ∈ rules' := fun r => h.mem_iff
  have hflag : (new ext rules).hasBashCommandRestrictions =
      (new ext rules').hasBashCommandRestrictions := any_of_same hsame _
  have hrank : ∀ segment, gateRank ((new ext rules).escalate segment) =
      gateRank ((new ext rules').escalate segment) := by
    intro segment
    rw [gateRank_escalate, gateRank_escalate, any_of_same hsame, any_of_same hsame]
  simp only [evaluateBashCommandGate, hflag]
  split
  · rfl
  · apply le_antisymm
    · exact gateRank_segments_le (fun segment => (hrank segment).le) _ cmd
    · exact gateRank_segments_le (fun segment => (hrank segment).ge) _ cmd

/-! ## Adding a restriction -/

theorem any_insert (before after : List PermissionRule) (r : PermissionRule)
    (f : PermissionRule → Bool) :
    (before ++ r :: after).any f = (f r || (before ++ after).any f) := by
  simp only [any_append, any_cons]
  cases f r <;> simp

theorem strictness_insert_le (before after : List PermissionRule) (r : PermissionRule)
    (access : AccessKind) :
    strictness ((new ext (before ++ after)).evaluate access) ≤
      strictness ((new ext (before ++ r :: after)).evaluate access) := by
  rw [strictness_evaluate, strictness_evaluate, any_insert, any_insert]
  cases hits ext .deny access r <;> cases hits ext .ask access r <;>
    cases (before ++ after).any (hits ext .deny access) <;>
    cases (before ++ after).any (hits ext .ask access) <;> simp

theorem gateRank_insert_le (before after : List PermissionRule) (r : PermissionRule)
    (cmd : Text) :
    gateRank ((new ext (before ++ after)).evaluateBashCommandGate cmd) ≤
      gateRank ((new ext (before ++ r :: after)).evaluateBashCommandGate cmd) := by
  have hrank : ∀ segment, gateRank ((new ext (before ++ after)).escalate segment) ≤
      gateRank ((new ext (before ++ r :: after)).escalate segment) := by
    intro segment
    rw [gateRank_escalate, gateRank_escalate, any_insert, any_insert]
    cases hits ext .deny (.bash segment) r <;> cases hits ext .ask (.bash segment) r <;>
      cases (before ++ after).any (hits ext .deny (.bash segment)) <;>
      cases (before ++ after).any (hits ext .ask (.bash segment)) <;> simp
  simp only [evaluateBashCommandGate]
  split
  · exact Nat.zero_le _
  · rename_i hflag
    have hflag' : (new ext (before ++ r :: after)).hasBashCommandRestrictions = true := by
      simp only [new, any_insert] at hflag ⊢
      simp [hflag]
    rw [hflag']
    exact gateRank_segments_le hrank _ cmd

/-! ## Adding an allow rule -/

section Allow

variable {r : PermissionRule} (hr : r.action = .allow)

include hr

theorem find?_deny_insert (before after : List PermissionRule) (access : AccessKind) :
    (before ++ r :: after).find? (hits ext .deny access) =
      (before ++ after).find? (hits ext .deny access) := by
  have hmiss : hits ext .deny access r = false := by simp [hits, hr]
  simp [find?_append, hmiss]

theorem any_ask_insert (before after : List PermissionRule) (access : AccessKind) :
    (before ++ r :: after).any (hits ext .ask access) =
      (before ++ after).any (hits ext .ask access) := by
  have hmiss : hits ext .ask access r = false := by simp [hits, hr]
  rw [any_insert, hmiss, Bool.false_or]

theorem evaluate_insert_allow (before after : List PermissionRule) (access : AccessKind)
    {d : Decision} (hd : d ≠ .allow) :
    (new ext (before ++ r :: after)).evaluate access = some d ↔
      (new ext (before ++ after)).evaluate access = some d := by
  rw [evaluate_new, evaluate_new, find?_deny_insert hr, any_ask_insert hr]
  cases (before ++ after).find? (hits ext .deny access) with
  | some r => exact Iff.rfl
  | none =>
    simp only
    split
    · exact Iff.rfl
    · split <;> split <;> simp [hd.symm]

theorem escalate_insert_allow (before after : List PermissionRule) (segment : Text) :
    (new ext (before ++ r :: after)).escalate segment =
      (new ext (before ++ after)).escalate segment := by
  rw [escalate_new, escalate_new, find?_deny_insert hr, any_ask_insert hr]

theorem gate_insert_allow (before after : List PermissionRule) (cmd : Text) :
    (new ext (before ++ r :: after)).evaluateBashCommandGate cmd =
      (new ext (before ++ after)).evaluateBashCommandGate cmd := by
  have hflag : (new ext (before ++ r :: after)).hasBashCommandRestrictions =
      (new ext (before ++ after)).hasBashCommandRestrictions := by
    simp only [new, any_insert, hr, RuleAction.restricts, Bool.false_and, Bool.false_or]
  simp only [evaluateBashCommandGate, hflag,
    segments_congr (escalate_insert_allow hr before after)]

end Allow

/-- The laws an administrator relies on, for every list of rules: the order
does not matter, a deny or ask rule never loosens a result, and an allow
rule changes no refusal or question and leaves the gate alone. -/
theorem policy_laws (ext : Externals) (rules : List PermissionRule) (access : AccessKind)
    (cmd : Text) :
    (∀ rules', rules.Perm rules' →
      ((new ext rules').evaluate access).map Decision.kind =
          ((new ext rules).evaluate access).map Decision.kind ∧
        ((new ext rules').evaluateBashCommandGate cmd).map GateDecision.rank =
          ((new ext rules).evaluateBashCommandGate cmd).map GateDecision.rank) ∧
    (∀ before after r, rules = before ++ after → r.action = .deny ∨ r.action = .ask →
      strictness ((new ext rules).evaluate access) ≤
          strictness ((new ext (before ++ r :: after)).evaluate access) ∧
        gateStrictness ((new ext rules).evaluateBashCommandGate cmd) ≤
          gateStrictness ((new ext (before ++ r :: after)).evaluateBashCommandGate cmd)) ∧
    (∀ before after r, rules = before ++ after → r.action = .allow →
      (∀ d, d ≠ .allow → ((new ext (before ++ r :: after)).evaluate access = some d ↔
          (new ext rules).evaluate access = some d)) ∧
        (new ext (before ++ r :: after)).evaluateBashCommandGate cmd =
          (new ext rules).evaluateBashCommandGate cmd) := by
  refine ⟨?_, ?_, ?_⟩
  · intro rules' hperm
    exact ⟨kind_evaluate_perm hperm.symm access, map_rank_eq (gateRank_perm hperm.symm cmd)⟩
  · intro before after r hrules _
    subst hrules
    exact ⟨strictness_insert_le before after r access,
      gateStrictness_le (gateRank_insert_le before after r cmd)⟩
  · intro before after r hrules hr
    subst hrules
    exact ⟨fun d hd => evaluate_insert_allow hr before after access hd,
      gate_insert_allow hr before after cmd⟩

end CompiledPolicy

end GrokBuild.Permission
