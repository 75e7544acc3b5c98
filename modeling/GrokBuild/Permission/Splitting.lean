import GrokBuild.Lib.Str

/-!
# Permissions: peeling wrappers off a command

The part of `bash_command_splitting.rs` that works on the words of one
command: `env_scan`, `strip_wrapper_command`, the transparent prefixes and
their bounded alternation. An index into the words becomes the list of the
words from there on; where the source compares two slices by length and
address, both are suffixes of one list and the lengths decide.
-/

namespace GrokBuild.Permission

open TextLines Str

/-- `word.starts_with(prefix)` for a text given in quotes. -/
def startsWith (word : Text) (pre : String) : Bool := pre.toList.isPrefixOf word

def stripPrefix (word : Text) (pre : String) : Option Text :=
  if startsWith word pre then some (word.drop pre.length) else none

/-- `word.rsplit(['/', '\\']).next()`: what follows the last separator. -/
def basename (word : Text) : Text :=
  (word.reverse.takeWhile fun c => !(c == '/' || c == '\\')).reverse

/-- Is the word one of these? -/
def oneOf (word : Text) (words : List String) : Bool := words.any fun w => w.toList == word

/-! ## `env` -/

/-- `b.is_ascii_alphabetic() || b == b'_'`. -/
def isNameStart (c : Char) : Bool := c.isAlpha || c == '_'

def isEnvAssignment (tok : Text) : Bool :=
  match splitOnce ['='] tok with
  | none => false
  | some (name, _) =>
    match name with
    | [] => false
    | c :: _ => isNameStart c && name.all fun c => c.isAlphanum || c == '_'

/-- The quote that is open while a spelling is decoded. -/
inductive Quote where
  | single
  | double
  deriving DecidableEq, Repr

def Quote.char : Quote → Char
  | .single => '\''
  | .double => '"'

/-- The loop of `decode_shell_literal_spelling`. -/
def decodeFrom : Option Quote → Text → Text → Option Text
  | quote, out, [] => if quote = none then some out.reverse else none
  | none, out, '\'' :: cs => decodeFrom (some .single) out cs
  | none, out, '"' :: cs => decodeFrom (some .double) out cs
  | none, out, '\\' :: c :: cs => decodeFrom none (c :: out) cs
  | none, _, ['\\'] => none
  | some .single, out, c :: cs =>
    if c = '\'' then decodeFrom none out cs else decodeFrom (some .single) (c :: out) cs
  | some .double, _, ['\\'] => none
  | some .double, out, '\\' :: c :: cs =>
    if c ∈ ['$', '`', '"', '\\', '\n'] then decodeFrom (some .double) (c :: out) cs
    else decodeFrom (some .double) (c :: '\\' :: out) cs
  | some .double, out, c :: cs =>
    if c = '"' then decodeFrom none out cs else decodeFrom (some .double) (c :: out) cs
  | none, out, c :: cs => decodeFrom none (c :: out) cs

def decodeShellLiteralSpelling (raw : Text) : Option Text := decodeFrom none [] raw

def hasQuote (word : Text) : Bool := word.any fun c => c == '\'' || c == '"'

def decodeEnvOptionToken (raw : Text) : Text :=
  if hasQuote raw then (decodeShellLiteralSpelling raw).getD raw else raw

def isHighConfidenceEnvSPayload (s : Text) : Bool :=
  s ≠ [] && !s.contains (Char.ofNat 0) &&
    !s.any fun c => c ∈ ['\'', '"', '\\', '#', '`', '$', '\n', '\r']

def takeHighConfidencePayload (raw : Text) : Option Text :=
  if isHighConfidenceEnvSPayload raw then some raw else none

inductive EnvShort where
  | splitStringNext
  | splitStringGlued (payload : Text)
  | splitStringDetect
  | noArg
  | argNeedNext (kind : Char)
  | argGlued (kind : Char)
  | uncertain
  deriving DecidableEq, Repr

/-- The loop of `classify_env_short` over the letters of one token. -/
def classifyLetters : Text → EnvShort
  | [] => .noArg
  | c :: rest =>
    if c = 'i' ∨ c = 'v' ∨ c = '0' then classifyLetters rest
    else if c = 'S' then .splitStringDetect
    else if c = 'u' ∨ c = 'C' ∨ c = 'P' ∨ c = 'a' then
      if rest = [] then .argNeedNext c else .argGlued c
    else .uncertain

def classifyEnvShort (tok : Text) : EnvShort :=
  match tok with
  | '-' :: '-' :: _ => .uncertain
  | ['-'] => .uncertain
  | '-' :: 'S' :: rest => if rest = [] then .splitStringNext else .splitStringGlued rest
  | '-' :: body => classifyLetters body
  | _ => .uncertain

/-- `EnvScan`, with the words from `command_start` on. -/
structure EnvScan where
  chdir : Option Text
  hasSplitString : Bool
  optionsUncertain : Bool
  splitStringScript : Option Text
  command : List Text
  deriving DecidableEq

namespace EnvScan

/-- The scan stops in front of these words. -/
def stop (chdir : Option Text) (words : List Text) : EnvScan :=
  ⟨chdir, false, false, none, words⟩

def uncertain (chdir : Option Text) (words : List Text) : EnvScan :=
  ⟨chdir, false, true, none, words⟩

def split (chdir script : Option Text) (words : List Text) : EnvScan :=
  ⟨chdir, true, false, script, words⟩

end EnvScan

/-- The loop of `env_scan` behind the program name. -/
def envScanFrom (chdir : Option Text) : List Text → EnvScan
  | [] => .stop chdir []
  | tok :: rest =>
    if tok = "--".toList then .stop chdir rest
    else if tok = "-".toList then envScanFrom chdir rest
    else if startsWith tok "-" = false then
      if isEnvAssignment tok then envScanFrom chdir rest else .stop chdir (tok :: rest)
    else if startsWith tok "--" then
      if tok = "--chdir".toList then
        match rest with
        | dir :: rest => envScanFrom (some dir) rest
        | [] => .uncertain chdir [tok]
      else if startsWith tok "--chdir=" then
        envScanFrom (some (tok.drop "--chdir=".length)) rest
      else if oneOf tok ["--unset", "--path", "--argv0"] then
        match rest with
        | _ :: rest => envScanFrom chdir rest
        | [] => .uncertain chdir [tok]
      else if startsWith tok "--unset=" || startsWith tok "--path=" || startsWith tok "--argv0="
      then envScanFrom chdir rest
      else if oneOf tok ["--ignore-environment", "--null", "--debug", "--version", "--help"] then
        envScanFrom chdir rest
      else if tok = "--split-string".toList then
        .split chdir (rest.head?.bind takeHighConfidencePayload) (tok :: rest)
      else match stripPrefix tok "--split-string=" with
        | some payload =>
          .split chdir (takeHighConfidencePayload
            ((stripPrefix (decodeEnvOptionToken tok) "--split-string=").getD payload)) (tok :: rest)
        | none => .uncertain chdir (tok :: rest)
    else
      match classifyEnvShort (decodeEnvOptionToken tok) with
      | .splitStringNext =>
        .split chdir (rest.head?.bind takeHighConfidencePayload) (tok :: rest)
      | .splitStringGlued payload =>
        .split chdir (takeHighConfidencePayload payload) (tok :: rest)
      | .splitStringDetect => .split chdir none (tok :: rest)
      | .noArg => envScanFrom chdir rest
      | .argNeedNext kind =>
        match rest with
        | operand :: rest => envScanFrom (if kind = 'C' then some operand else chdir) rest
        | [] => .uncertain chdir [tok]
      | .argGlued kind =>
        envScanFrom (if kind = 'C' then some ((stripPrefix tok "-C").getD []) else chdir) rest
      | .uncertain => .uncertain chdir (tok :: rest)

def envScan (cmd : List Text) : EnvScan := envScanFrom none cmd.tail

/-- Is the first word this program, by whatever path? -/
def headIs (words : List Text) (program : String) : Bool :=
  match words with
  | [] => false
  | w :: _ => basename w == program.toList

def envSplitStringScript (words : List Text) : Option Text :=
  if headIs words "env" then
    if (envScan words).hasSplitString then (envScan words).splitStringScript else none
  else none

/-! ## Wrappers -/

/-- The loop of most arms of `strip_wrapper_command`: words with a dash are
skipped, those of the table together with the next word. -/
def skipOptions (table : List String) : List Text → List Text
  | [] => []
  | tok :: rest =>
    -- `--` is one of them, and does not end the options
    if startsWith tok "-" then
      if oneOf tok table then
        match rest with
        | [] => []
        | _ :: rest => skipOptions table rest
      else skipOptions table rest
    else tok :: rest

/-- The options of a wrapper that `strip_wrapper_command` skips together
with the next word. -/
def timeoutTable : List String := ["-k", "-s", "--kill-after", "--signal"]

def niceTable : List String := ["-n", "--adjustment"]

def ioniceTable : List String :=
  ["-c", "-n", "-p", "-P", "-u", "--class", "--classdata", "--pid", "--pgid", "--uid"]

def chrtTable : List String := []

def stdbufTable : List String := ["-i", "-o", "-e"]

/-- A command of at least one word. -/
def nonEmpty (words : List Text) : Option (List Text) := if words = [] then none else some words

def stripWrapperCommand (cmd : List Text) : Option (List Text) :=
  match cmd with
  | [] => none
  | program :: args =>
    let head := basename program
    if head = "timeout".toList then nonEmpty (skipOptions timeoutTable args).tail
    else if head = "nice".toList then nonEmpty (skipOptions niceTable args)
    else if head = "ionice".toList then nonEmpty (skipOptions ioniceTable args)
    else if head = "chrt".toList then nonEmpty (skipOptions chrtTable args).tail
    else if head = "stdbuf".toList then nonEmpty (skipOptions stdbufTable args)
    else if head = "env".toList then
      let scan := envScan cmd
      if scan.hasSplitString || scan.optionsUncertain then none else nonEmpty scan.command
    else none

def isWrapperCommand (words : List Text) : Bool :=
  ["timeout", "nice", "ionice", "chrt", "stdbuf", "env"].any (headIs words)

def maxWrapperDepth : Nat := 8

def maxInlineShellDepth : Nat := 8

/-- What `unwrap_wrappers_checked` has seen: `CheckedWrapperPeel`, and the
flags of `NormalizedCommandPeel`. -/
structure Peel where
  words : List Text
  hasChdir : Bool
  hasSplitString : Bool
  envOptionsUncertain : Bool
  exhausted : Bool
  ambiguous : Bool
  deriving DecidableEq

namespace Peel

def of (words : List Text) : Peel := ⟨words, false, false, false, false, false⟩

/-- The facts of an `env` in front of the words. -/
def noteEnv (p : Peel) : Peel :=
  if headIs p.words "env" then
    let scan := envScan p.words
    { p with
      hasChdir := p.hasChdir || scan.chdir.isSome
      hasSplitString := p.hasSplitString || scan.hasSplitString
      envOptionsUncertain := p.envOptionsUncertain || scan.optionsUncertain }
  else p

end Peel

/-- The loop of `unwrap_wrappers_checked`. -/
def unwrapFrom : Nat → Peel → Peel
  | 0, p =>
    { p with exhausted := p.exhausted ||
        (isWrapperCommand p.words && (stripWrapperCommand p.words).isSome) }
  | n + 1, p =>
    let p := p.noteEnv
    match stripWrapperCommand p.words with
    | some inner => unwrapFrom n { p with words := inner }
    | none => p

/-- `unwrap_wrappers_checked`, added to what was seen before. -/
def unwrapWrappersChecked (p : Peel) : Peel := unwrapFrom maxWrapperDepth p

/-! ## Transparent prefixes -/

inductive TransparentStrip where
  | notPrefix
  | peeled (words : List Text)
  | ambiguous
  deriving DecidableEq

/-- Peeled, if a command is left. -/
def peeledIfAny (words : List Text) : TransparentStrip :=
  if words = [] then .notPrefix else .peeled words

def nul : Text := [Char.ofNat 0]

/-- The loop of `strip_exec_prefix`. -/
def stripExecArgs : List Text → TransparentStrip
  | [] => .notPrefix
  | tok :: rest =>
    if tok = "--".toList then peeledIfAny rest
    else if tok = "-".toList ∨ startsWith tok "-" = false then .peeled (tok :: rest)
    else if oneOf tok ["-c", "-l", "-cl", "-lc"] then stripExecArgs rest
    else if tok = "-a".toList then
      match rest with
      | name :: rest => if name ≠ nul ∧ name ≠ [] then stripExecArgs rest else .ambiguous
      | [] => .ambiguous
    else match stripPrefix tok "-a" with
      | some name => if name = nul then .ambiguous else stripExecArgs rest
      | none =>
        if startsWith tok "--" = false ∧ (tok.drop 1).all (fun c => c == 'c' || c == 'l') then
          stripExecArgs rest
        else .ambiguous

/-- The loop of `strip_command_prefix`. -/
def stripCommandArgs : List Text → TransparentStrip
  | [] => .notPrefix
  | tok :: rest =>
    if tok = "--".toList then peeledIfAny rest
    else if tok = "-".toList ∨ startsWith tok "-" = false then .peeled (tok :: rest)
    else if oneOf tok ["-v", "-V", "--help", "--version"] ∨
        (startsWith tok "--" = false ∧ (tok.drop 1).any fun c => c == 'v' || c == 'V') then
      -- a lookup: nothing is run
      .notPrefix
    else if startsWith tok "--" = false ∧ (tok.drop 1).all fun c => c == 'p' then
      stripCommandArgs rest
    else .ambiguous

/-- `strip_builtin_prefix`. -/
def stripBuiltinArgs : List Text → TransparentStrip
  | [] => .notPrefix
  | tok :: rest =>
    if startsWith tok "-" ∧ tok ≠ "-".toList then .ambiguous else .peeled (tok :: rest)

def stripTransparentPrefix (cmd : List Text) : TransparentStrip :=
  match cmd with
  | [] => .notPrefix
  | program :: args =>
    if program = [] ∨ program = nul then .notPrefix
    else
      let head := basename program
      if head = "exec".toList then stripExecArgs args
      else if head = "command".toList then stripCommandArgs args
      else if head = "builtin".toList then stripBuiltinArgs args
      else .notPrefix

def maxTransparentPrefixDepth : Nat := 8

/-- `peel_transparent_prefixes`; nothing stands for `Ambiguous`. -/
def peelTransparentFrom : Nat → List Text → Option (List Text)
  | 0, words =>
    -- a prefix too many is ambiguous as well
    match stripTransparentPrefix words with
    | .notPrefix => some words
    | _ => none
  | n + 1, words =>
    match stripTransparentPrefix words with
    | .notPrefix => some words
    | .peeled inner => peelTransparentFrom n inner
    | .ambiguous => none

def peelTransparentPrefixes (words : List Text) : Option (List Text) :=
  peelTransparentFrom maxTransparentPrefixDepth words

/-! ## Normalization -/

def maxNormalizeRounds : Nat := maxWrapperDepth + maxTransparentPrefixDepth

/-- The loop of `normalize_command_words`. -/
def normalizeFrom : Nat → Peel → Peel
  | 0, p => p
  | n + 1, p =>
    let wrapped := unwrapWrappersChecked p
    if wrapped.hasSplitString || wrapped.envOptionsUncertain then wrapped
    else match peelTransparentPrefixes wrapped.words with
      | none => { wrapped with ambiguous := true }
      | some inner =>
        -- the same slice again: no progress in this round
        if inner.length = p.words.length then { wrapped with words := inner }
        else normalizeFrom n { wrapped with words := inner }

def normalizeCommandWords (words : List Text) : Peel :=
  let p := normalizeFrom maxNormalizeRounds (.of words)
  if p.ambiguous || p.hasSplitString || p.envOptionsUncertain then p
  else
    let stillWrapper := isWrapperCommand p.words && (stripWrapperCommand p.words).isSome
    let stillTransparent := stripTransparentPrefix p.words ≠ .notPrefix
    if stillWrapper || stillTransparent then { p with exhausted := true } else p

end GrokBuild.Permission
