import GrokBuild.Permission.Parse
import GrokBuild.Permission.Splitting

/-!
# Permissions: the compiled policy

`policy.rs` over the data types of `types.rs`: compiling the rules, `evaluate`
with deny before ask before allow, the gate that checks every segment of a
bash script, and the conjunctive allow. The glob matcher, the bash grammar,
the URL parser and Unicode lower casing come from outside and are fields of
`Externals`.
-/

namespace GrokBuild.Permission

open TextLines Str

/-- What the policy calls outside the repository. -/
structure Externals where
  /-- The parser with the bash grammar. -/
  tryParseShell : Text → Option Tree
  /-- `glob::Pattern` -/
  Pattern : Type
  /-- `glob::Pattern::new(p).ok()` -/
  patternNew : Text → Option Pattern
  /-- `matches_with`, with `require_literal_separator`. -/
  matchesWith : Pattern → Bool → Text → Bool
  /-- The `host_str` of a URL that parses. -/
  hostStr : Text → Option Text
  /-- `str::to_lowercase` -/
  toLowercase : Text → Text

/-- `AccessKind`, without the arguments that no rule looks at. -/
inductive AccessKind where
  | read (path : Option Text)
  | grep (path : Option Text)
  | edit (path : Text)
  | bash (cmd : Text)
  | mcpTool (name : Text)
  | webFetch (url : Text)
  | webSearch (query : Text)
  deriving DecidableEq

inductive RuleAction where
  | allow
  | deny
  | ask
  deriving DecidableEq, Repr

inductive ToolFilter where
  | any
  | bash
  | edit
  | read
  | grep
  | mcp
  | webFetch
  | webSearch
  deriving DecidableEq, Repr

inductive PatternMode where
  | glob
  | domain
  deriving DecidableEq, Repr

structure PermissionRule where
  action : RuleAction
  tool : ToolFilter
  pattern : Option Text
  patternMode : PatternMode
  deriving DecidableEq

/-- The decisions that a policy takes. -/
inductive Decision where
  | allow
  | ask
  | reject (reason : Text)
  deriving DecidableEq

inductive GateDecision where
  | reject (reason : Text)
  | askRuleMatch
  | askFailClosed
  deriving DecidableEq

def GateDecision.rank : GateDecision → Nat
  | .reject _ => 3
  | .askRuleMatch => 2
  | .askFailClosed => 1

def combineGateDecisions : Option GateDecision → Option GateDecision → Option GateDecision
  | none, other => other
  | other, none => other
  | some a, some b => some (if a.rank ≥ b.rank then a else b)

/-! ## Inline shell scripts -/

inductive ShellWord where
  | literal (word : Text)
  | untrusted
  deriving DecidableEq

inductive InlineShellScript where
  | notInline
  | literal (index : Nat)
  | untrusted
  | unrecognized
  deriving DecidableEq, Repr

/-- The closure `ambiguous` of `shell_dash_c_script`. -/
def ambiguousShell (sawC : Bool) : InlineShellScript := if sawC then .untrusted else .unrecognized

/-- The closure `finish_literal`. -/
def finishLiteral (dynamicHead : Bool) (index : Nat) : InlineShellScript :=
  if dynamicHead then .untrusted else .literal index

/-- No `-c` was seen and none can follow. -/
def noScript (unrecognized : Bool) : InlineShellScript :=
  if unrecognized then .unrecognized else .notInline

/-- The loop of `shell_dash_c_script`, at word `i`. -/
def scanShellWords (dynamicHead : Bool) :
    Nat → Bool → Bool → List ShellWord → InlineShellScript
  | _, sawC, unrecognized, [] => if sawC then .untrusted else noScript unrecognized
  | _, sawC, _, .untrusted :: _ => ambiguousShell sawC
  | i, sawC, unrecognized, .literal word :: rest =>
    if word = "--".toList ∨ word = "-".toList then
      if sawC = false then noScript unrecognized
      else match rest with
        | .literal _ :: _ => finishLiteral dynamicHead (i + 1)
        | _ => .untrusted
    else if startsWith word "-" = false ∧ startsWith word "+" = false then
      if sawC then finishLiteral dynamicHead i else noScript unrecognized
    else if oneOf word ["--init-file", "--rcfile"] then
      match rest with
      | .literal _ :: rest => scanShellWords dynamicHead (i + 2) sawC unrecognized rest
      | _ => ambiguousShell sawC
    else if startsWith word "--" then
      if oneOf word ["--noprofile", "--norc", "--posix"] then
        scanShellWords dynamicHead (i + 1) sawC unrecognized rest
      else if sawC then .untrusted
      else scanShellWords dynamicHead (i + 1) sawC true rest
    else if oneOf word ["-o", "+o", "-O", "+O"] then
      match rest with
      | .literal value :: rest =>
        if startsWith value "-" then ambiguousShell sawC
        else scanShellWords dynamicHead (i + 2) sawC unrecognized rest
      | _ => ambiguousShell sawC
    else if startsWith word "-O" then
      scanShellWords dynamicHead (i + 1) sawC unrecognized rest
    else if startsWith word "+O" || startsWith word "+o" then
      scanShellWords dynamicHead (i + 1) sawC unrecognized rest
    else if startsWith word "-o" then ambiguousShell sawC
    else if startsWith word "+" then
      scanShellWords dynamicHead (i + 1) sawC unrecognized rest
    else
      let flags := word.drop 1
      if flags.contains 'o' || flags.contains 'O' then ambiguousShell sawC
      else scanShellWords dynamicHead (i + 1) (sawC || flags.contains 'c') unrecognized rest

/-- The shells whose `-c` is understood. -/
def supportedShells : List String := ["bash", "sh", "dash", "zsh", "ksh"]

def shellDashCScript (words : List ShellWord) : InlineShellScript :=
  match words with
  | [] => .notInline
  | .literal program :: rest =>
    if oneOf (basename program) supportedShells then scanShellWords false 1 false false rest
    else .notInline
  | .untrusted :: rest => scanShellWords true 1 false false rest

/-! ## Matching a rule -/

/-- `words.join(" ")`. -/
def joinWords (words : List Text) : Text := [' '].intercalate words

def toolFilterMatches (access : AccessKind) (filter : ToolFilter) : Bool :=
  match filter, access with
  | .any, _ => true
  | .bash, .bash _ => true
  | .edit, .edit _ => true
  | .read, .read _ => true
  | .read, .grep _ => true
  | .grep, .grep _ => true
  | .mcp, .mcpTool _ => true
  | .webFetch, .webFetch _ => true
  | .webSearch, .webSearch _ => true
  | _, _ => false

def matchesCommandPrefix (cmd pattern : Text) : Bool :=
  cmd == pattern || (pattern.isPrefixOf cmd && (cmd.drop pattern.length).head? == some ' ')

/-- `trim_end_matches` for one character. -/
def trimEndMatches (c : Char) (s : Text) : Text := (s.reverse.dropWhile (· == c)).reverse

/-- `MatchContext`: does `*` stop at a slash? -/
inductive MatchContext where
  | path
  | freeform
  deriving DecidableEq

namespace Externals

variable (ext : Externals)

def normalizeDomain (raw : Text) : Text :=
  let s := trimEndMatches '.' (trimEndMatches '/' (trim raw))
  ext.toLowercase ((stripPrefix s "www.").getD s)

def domainMatches (pattern url : Text) : Bool :=
  match ext.hostStr url with
  | none => false
  | some host =>
    let domain := ext.normalizeDomain host
    let normalizedPattern := ext.normalizeDomain pattern
    domain == normalizedPattern || ('.' :: normalizedPattern).isSuffixOf domain

def globMatches (text : Text) (ctx : MatchContext) (pat : Option ext.Pattern) : Bool :=
  match pat with
  | none => false
  | some pat => ext.matchesWith pat (ctx = .path) text

/-- The matcher that `CompiledPolicy::new` keeps for a rule. -/
def matcherOf (rule : PermissionRule) : Option ext.Pattern :=
  match rule.pattern with
  | none => none
  | some p => if p = "*".toList then none else ext.patternNew p

def bashAllowPatternMatches (cmd : Text) (rule : PermissionRule)
    (matcher : Option ext.Pattern) : Bool :=
  let cmd := trimStart cmd
  match rule.pattern with
  | none => true
  | some pattern =>
    if pattern = "*".toList then true
    else matchesCommandPrefix cmd pattern || ext.globMatches cmd .freeform matcher

def patternMatches (access : AccessKind) (rule : PermissionRule)
    (matcher : Option ext.Pattern) : Bool :=
  match rule.pattern with
  | none => true
  | some pattern =>
    if pattern = "*".toList then true
    else match access with
      | .bash cmd =>
        let cmd := trimStart cmd
        pattern.isPrefixOf cmd || ext.globMatches cmd .freeform matcher
      | .edit path => ext.globMatches path .path matcher
      | .read (some path) => ext.globMatches path .path matcher
      | .read none => false
      | .grep (some path) => ext.globMatches path .path matcher
      | .grep none => false
      | .mcpTool name => ext.globMatches name .freeform matcher
      | .webFetch url =>
        match rule.patternMode with
        | .domain => ext.domainMatches pattern url
        | .glob => ext.globMatches url .freeform matcher
      | .webSearch query =>
        ext.globMatches query .freeform matcher || pattern.isPrefixOf query

end Externals

/-! ## The compiled policy -/

/-- `matches!(rule.action, Deny | Ask)`. -/
def RuleAction.restricts : RuleAction → Bool
  | .allow => false
  | .deny => true
  | .ask => true

/-- `matches!(rule.tool, Bash | Any)`. -/
def ToolFilter.coversBash : ToolFilter → Bool
  | .bash => true
  | .any => true
  | _ => false

/-- `CompiledPolicy`, less the flag for the file gate. -/
structure CompiledPolicy (ext : Externals) where
  rules : List PermissionRule
  matchers : List (Option ext.Pattern)
  hasBashCommandRestrictions : Bool
  hasBashAllowRules : Bool

/-- The label of a tool in a reason. -/
def toolLabel : ToolFilter → String
  | .any => "any tool"
  | .bash => "bash"
  | .edit => "edit"
  | .read => "read"
  | .grep => "grep"
  | .mcp => "mcp"
  | .webFetch => "web_fetch"
  | .webSearch => "web_search"

/-- The reason that a deny rule gives. -/
def denyReason (rule : PermissionRule) : Text :=
  match rule.pattern with
  | some pattern =>
    "Denied by permission policy: deny rule on ".toList ++ (toolLabel rule.tool).toList
      ++ " matching \"".toList ++ pattern ++ "\"".toList
  | none => "Denied by permission policy: deny rule on ".toList ++ (toolLabel rule.tool).toList

/-- How the loop over the rules ends: at a deny rule, or with the flags
`matched_ask` and `matched_allow`. -/
inductive RuleScan where
  | denied (reason : Text)
  | done (matchedAsk matchedAllow : Bool)
  deriving DecidableEq

namespace CompiledPolicy

def new (ext : Externals) (rules : List PermissionRule) : CompiledPolicy ext where
  rules := rules
  matchers := rules.map ext.matcherOf
  hasBashCommandRestrictions := rules.any fun r => r.action.restricts && r.tool.coversBash
  hasBashAllowRules := rules.any fun r => r.action == .allow && r.tool.coversBash

variable {ext : Externals} (policy : CompiledPolicy ext)

/-- The loop of `evaluate` over the rules and their matchers. -/
def scanRules (ext : Externals) (access : AccessKind) :
    Bool → Bool → List (PermissionRule × Option ext.Pattern) → RuleScan
  | matchedAsk, matchedAllow, [] => .done matchedAsk matchedAllow
  | matchedAsk, matchedAllow, (rule, matcher) :: rest =>
    if toolFilterMatches access rule.tool = false then
      scanRules ext access matchedAsk matchedAllow rest
    else if ext.patternMatches access rule matcher = false then
      scanRules ext access matchedAsk matchedAllow rest
    else match rule.action with
      | .deny => .denied (denyReason rule)
      | .ask => scanRules ext access true matchedAllow rest
      | .allow => scanRules ext access matchedAsk true rest

def bashWordsAllowed (words : List Text) : Bool :=
  words ≠ [] && (policy.rules.zip policy.matchers).any fun (rule, matcher) =>
    rule.action == .allow && rule.tool.coversBash
      && ext.bashAllowPatternMatches (joinWords words) rule matcher

/-- The checks that `bash_chain_fully_allowed` makes of one command;
`recurse` decides an inline script, if the depth budget allows one. -/
def commandAllowed (recurse : Option (Text → Bool)) (words : List Text) : Bool :=
  let norm := normalizeCommandWords words
  if norm.exhausted || norm.ambiguous || norm.envOptionsUncertain || norm.hasSplitString then false
  else if policy.bashWordsAllowed norm.words = false then false
  else match shellDashCScript (norm.words.map .literal) with
    | .literal index =>
      match recurse with
      | some recurse => recurse (norm.words[index]?.getD [])
      | none => false
    | .notInline => true
    | _ => false

/-- One level of `bash_chain_fully_allowed`. -/
def chainAllowedWith (recurse : Option (Text → Bool)) (cmd : Text) : Bool :=
  match allCommandsFromScript ext.tryParseShell cmd with
  | none => false
  | some segments =>
    if segments = [] then false
    else segments.all fun parsed => policy.commandAllowed recurse parsed.words

/-- `bash_chain_fully_allowed`, with the remaining depth. -/
def bashChainFullyAllowed : Nat → Text → Bool
  | 0 => policy.chainAllowedWith none
  | n + 1 => policy.chainAllowedWith (some (bashChainFullyAllowed n))

def evaluate (access : AccessKind) : Option Decision :=
  match scanRules ext access false false (policy.rules.zip policy.matchers) with
  | .denied reason => some (.reject reason)
  | .done matchedAsk matchedAllow =>
    if matchedAsk then some .ask
    else match access with
      | .bash cmd =>
        if policy.hasBashAllowRules && policy.bashChainFullyAllowed maxInlineShellDepth cmd
        then some .allow else none
      | _ => if matchedAllow then some .allow else none

/-! ## The gate on bash commands -/

/-- The closure `escalate`. -/
def escalate (segment : Text) : Option GateDecision :=
  match policy.evaluate (.bash segment) with
  | some (.reject reason) => some (.reject reason)
  | some .ask => some .askRuleMatch
  | _ => none

/-- A fail-closed Ask under a condition: `cond.then_some(AskFailClosed)`. -/
def askIf (cond : Bool) : Option GateDecision := if cond then some .askFailClosed else none

/-- An inline script: checked as a script while the depth lasts. -/
def inlineDecision (recurse : Option (Text → Option GateDecision)) (script : Text) :
    Option GateDecision :=
  match recurse with
  | some recurse => recurse script
  | none => some .askFailClosed

/-- The `match` on `shell_dash_c_script`. -/
def dashCDecision (recurse : Option (Text → Option GateDecision)) (words : List Text) :
    Option GateDecision :=
  match shellDashCScript (words.map .literal) with
  | .literal index => inlineDecision recurse (words[index]?.getD [])
  | .notInline => none
  | _ => some .askFailClosed

/-- The recursion into a packed `env -S`. -/
def packedDecision (recurse : Option (Text → Option GateDecision)) (words : List Text) :
    Option GateDecision :=
  match envSplitStringScript words with
  | some script => inlineDecision recurse script
  | none => none

/-- The body of `evaluate_command_words`; `recurse` is
`evaluate_bash_command_segments` with one level less, if there is one. -/
def commandWordsWith (recurse : Option (Text → Option GateDecision)) (rawWords : List Text) :
    Option GateDecision :=
  let norm := normalizeCommandWords rawWords
  let decision := askIf (norm.exhausted || norm.ambiguous || norm.envOptionsUncertain)
  let decision := combineGateDecisions decision (askIf norm.hasSplitString)
  let decision := combineGateDecisions decision (policy.escalate (joinWords rawWords))
  let decision :=
    if norm.words.length ≠ rawWords.length then
      combineGateDecisions decision (policy.escalate (joinWords norm.words))
    else decision
  let decision := combineGateDecisions decision (dashCDecision recurse norm.words)
  combineGateDecisions decision (packedDecision recurse norm.words)

/-- The body of `evaluate_bash_command_segments`. -/
def segmentsWith (recurse : Option (Text → Option GateDecision)) (cmd : Text) :
    Option GateDecision :=
  match allCommandsFromScript ext.tryParseShell cmd with
  | none => some .askFailClosed
  | some segments =>
    segments.foldl (fun decision parsed =>
      combineGateDecisions decision (policy.commandWordsWith recurse parsed.words)) none

def evaluateBashCommandSegments : Nat → Text → Option GateDecision
  | 0 => policy.segmentsWith none
  | n + 1 => policy.segmentsWith (some (evaluateBashCommandSegments n))

def evaluateCommandWords (rawWords : List Text) (inlineDepthRemaining : Nat) :
    Option GateDecision :=
  match inlineDepthRemaining with
  | 0 => policy.commandWordsWith none rawWords
  | n + 1 => policy.commandWordsWith (some (policy.evaluateBashCommandSegments n)) rawWords

def evaluateBashCommandGate (cmd : Text) : Option GateDecision :=
  if policy.hasBashCommandRestrictions = false then none
  else policy.evaluateBashCommandSegments maxInlineShellDepth cmd

end CompiledPolicy

end GrokBuild.Permission
