import GrokBuild.Lib.Getopt
import GrokBuild.Permission.Splitting

/-!
# Permissions: wrappers as they are documented

`runs` is the reading of a wrapper's command line that GNU coreutils,
util-linux and bash document, with their option tables in full. It is the
standard against which the tables of `strip_wrapper_command` and of the
transparent prefixes are compared: `peelStep_eq` says that the code peels to
the documented command wherever `readable` holds and the code does not ask.
-/

namespace GrokBuild.Permission

open TextLines Str Getopt

/-! ## The documented options -/

def timeoutOptions : Options where
  flags := ['f', 'p', 'v']
  valued := ['k', 's']
  longFlags := ["foreground", "preserve-status", "verbose", "help", "version"]
  longValued := ["kill-after", "signal"]
  longOptional := []
  numeric := false

def niceOptions : Options where
  flags := []
  valued := ['n']
  longFlags := ["help", "version"]
  longValued := ["adjustment"]
  longOptional := []
  numeric := true

/-- The options of `ionice` in front of a command; with a process to act on
there is none. -/
def ioniceOptions : Options where
  flags := ['t', 'h', 'V']
  valued := ['c', 'n']
  longFlags := ["ignore", "help", "version"]
  longValued := ["class", "classdata"]
  longOptional := []
  numeric := false

/-- The options of `chrt` in front of a priority and a command. -/
def chrtOptions : Options where
  flags := ['a', 'b', 'd', 'e', 'f', 'i', 'm', 'o', 'r', 'R', 'v', 'h', 'V']
  valued := ['T', 'P', 'D']
  longFlags := ["all-tasks", "batch", "deadline", "ext", "fifo", "idle", "max", "other", "rr",
    "reset-on-fork", "verbose", "help", "version"]
  longValued := ["sched-runtime", "sched-period", "sched-deadline"]
  longOptional := []
  numeric := false

def stdbufOptions : Options where
  flags := []
  valued := ['i', 'o', 'e']
  longFlags := ["help", "version"]
  longValued := ["input", "output", "error"]
  longOptional := []
  numeric := false

def envOptions : Options where
  flags := ['i', 'v', '0']
  valued := ['a', 'u', 'C', 'S']
  longFlags := ["ignore-environment", "null", "debug", "list-signal-handling", "help", "version"]
  longValued := ["argv0", "unset", "chdir", "split-string"]
  longOptional := ["block-signal", "default-signal", "ignore-signal"]
  numeric := false

def execOptions : Options where
  flags := ['c', 'l']
  valued := ['a']
  longFlags := []
  longValued := []
  longOptional := []
  numeric := false

def commandOptions : Options where
  flags := ['p', 'v', 'V']
  valued := []
  longFlags := []
  longValued := []
  longOptional := []
  numeric := false

def builtinOptions : Options where
  flags := []
  valued := []
  longFlags := []
  longValued := []
  longOptional := []
  numeric := false

/-! ## The documented command lines -/

/-- `env` takes a lone dash behind its options for `-i`. -/
def dropDash : List Text → List Text
  | [] => []
  | w :: rest => if w = "-".toList then rest else w :: rest

/-- `env` takes every word with an equals sign for an assignment. -/
def dropAssignments : List Text → List Text
  | [] => []
  | w :: rest => if w.contains '=' then dropAssignments rest else w :: rest

/-- The command that a wrapper or a prefix is documented to run. -/
def runs (words : List Text) : Option (List Text) :=
  match words with
  | [] => none
  | program :: args =>
    let head := basename program
    if head = "timeout".toList then
      (timeoutOptions.skip args).bind fun r => nonEmpty r.2.tail
    else if head = "nice".toList then (niceOptions.skip args).bind fun r => nonEmpty r.2
    else if head = "ionice".toList then (ioniceOptions.skip args).bind fun r => nonEmpty r.2
    else if head = "chrt".toList then
      (chrtOptions.skip args).bind fun r => nonEmpty r.2.tail
    else if head = "stdbuf".toList then (stdbufOptions.skip args).bind fun r => nonEmpty r.2
    else if head = "env".toList then
      (envOptions.skip args).bind fun r => nonEmpty (dropAssignments (dropDash r.2))
    else if head = "exec".toList then (execOptions.skip args).bind fun r => nonEmpty r.2
    else if head = "command".toList then (commandOptions.skip args).bind fun r => nonEmpty r.2
    else if head = "builtin".toList then (builtinOptions.skip args).bind fun r => nonEmpty r.2
    else none

/-! ## Where the code reads the same -/

/-- The table of the code says of each option in front how many words it
takes, and what follows the options does not look like one. -/
def tableReadable (o : Options) (table : List String) (args : List Text) : Bool :=
  o.everyOption (fun w => oneOf w table == (o.arity w == some .two)) args &&
    match o.skip args with
    | some (_, w :: _) => startsWith w "-" = false
    | _ => true

/-- An `env` option of one word, of whose operand nothing is left once quotes
are taken off it. -/
def emptiedByQuotes (w : Text) : Bool :=
  envOptions.arity w == some .one &&
    match classifyEnvShort (decodeEnvOptionToken w) with
    | .argNeedNext _ => true
    | _ => false

/-- Behind the options of `env`: assignments to names and a command that does
not look like an option. -/
def assignmentsReadable : List Text → Bool
  | [] => true
  | w :: rest =>
    if w.contains '=' then (isEnvAssignment w || startsWith w "-") && assignmentsReadable rest
    else startsWith w "-" = false

/-- Behind `--`, the command itself. -/
def commandFollows : List Text → Bool
  | [] => true
  | w :: _ => w ≠ "-".toList && !w.contains '='

def envReadable (args : List Text) : Bool :=
  envOptions.everyOption (fun w => !emptiedByQuotes w) args &&
    match envOptions.skip args with
    | some (true, rest) => commandFollows rest
    | some (false, rest) => assignmentsReadable (dropDash rest)
    | none => true

/-- `command` is not asked to describe its operand. -/
def commandReadable (args : List Text) : Bool :=
  commandOptions.everyOption (fun w => !(w.contains 'v' || w.contains 'V')) args

/-- The words of a layer on which the code and the documentation agree. -/
def readable (words : List Text) : Bool :=
  match words with
  | [] => true
  | program :: args =>
    let head := basename program
    if head = "timeout".toList then tableReadable timeoutOptions timeoutTable args
    else if head = "nice".toList then tableReadable niceOptions niceTable args
    else if head = "ionice".toList then tableReadable ioniceOptions ioniceTable args
    else if head = "chrt".toList then tableReadable chrtOptions chrtTable args
    else if head = "stdbuf".toList then tableReadable stdbufOptions stdbufTable args
    else if head = "env".toList then envReadable args
    else if head = "command".toList then commandReadable args
    else true

/-- An `env` whose options the code does not know, or that packs a command
line into one word. -/
def envAsks (words : List Text) : Bool :=
  headIs words "env" && ((envScan words).hasSplitString || (envScan words).optionsUncertain)

/-- One peel of the code: a wrapper, or else a transparent prefix. -/
def peelStep (words : List Text) : Option (List Text) :=
  match stripWrapperCommand words with
  | some inner => some inner
  | none =>
    match stripTransparentPrefix words with
    | .peeled inner => some inner
    | _ => none

/-! ## Wrappers with a table -/

variable {inner : List Text}

theorem nonEmpty_eq_some {words : List Text} :
    nonEmpty words = some inner ↔ words = inner ∧ inner ≠ [] := by
  unfold nonEmpty
  split
  · simp_all
  · constructor
    · intro h
      cases h
      exact ⟨rfl, ‹_›⟩
    · intro ⟨h, _⟩
      rw [h]

theorem startsWith_dash {w : Text} (h : isOption w = true) : startsWith w "-" = true := by
  unfold isOption at h
  split at h
  · rfl
  · cases h

variable {o : Options} {table : List String} {args : List Text}

/-- Skipping by a table agrees with the documented reading. -/
theorem skipOptions_eq (hdashes : oneOf "--".toList table = false) {rest : List Text} {ended : Bool}
    (hskip : o.skip args = some (ended, rest)) (hread : tableReadable o table args = true) :
    skipOptions table args = rest := by
  simp only [tableReadable, Bool.and_eq_true, hskip] at hread
  obtain ⟨hevery, hend⟩ := hread
  have hrest : skipOptions table rest = rest := by
    cases rest with
    | nil => rfl
    | cons w rest =>
      simp only [decide_eq_true_eq] at hend
      rw [skipOptions.eq_def]
      simp [hend]
  refine o.skip_induction (motive := fun args _ rest =>
    o.everyOption (fun w => oneOf w table == (o.arity w == some .two)) args = true →
      skipOptions table rest = rest → skipOptions table args = rest)
    ?_ ?_ ?_ ?_ ?_ hskip hevery hrest
  · intro _ hrest
    exact hrest
  · intro rest _ hrest
    rw [skipOptions.eq_def]
    simp only [hdashes]
    exact hrest
  · intro w rest _ _ _ hrest
    exact hrest
  · intro w rest ended out hne hoption harity ih hevery hrest
    rw [o.everyOption_one hne hoption harity, harity] at hevery
    simp only [Bool.and_eq_true, beq_iff_eq] at hevery
    have htable : oneOf w table = false := by
      rw [hevery.1]
      decide
    rw [skipOptions.eq_def]
    simp only [startsWith_dash hoption, htable, if_true, Bool.false_eq_true, if_false]
    exact ih hevery.2 hrest
  · intro w value rest ended out hne hoption harity ih hevery hrest
    rw [o.everyOption_two hne hoption harity, harity] at hevery
    simp only [Bool.and_eq_true, beq_iff_eq] at hevery
    have htable : oneOf w table = true := by
      rw [hevery.1]
      decide
    rw [skipOptions.eq_def]
    simp only [startsWith_dash hoption, htable, if_true]
    exact ih hevery.2 hrest

/-- A wrapper with a table and nothing in front of its command. -/
theorem nonEmpty_skipOptions (hdashes : oneOf "--".toList table = false)
    (hruns : ((o.skip args).bind fun r => nonEmpty r.2) = some inner)
    (hread : tableReadable o table args = true) : nonEmpty (skipOptions table args) = some inner := by
  obtain ⟨⟨ended, rest⟩, hskip, hrest⟩ := Option.bind_eq_some_iff.mp hruns
  rw [skipOptions_eq hdashes hskip hread]
  exact hrest

theorem nonEmpty_skipOptions_tail (hdashes : oneOf "--".toList table = false)
    (hruns : ((o.skip args).bind fun r => nonEmpty r.2.tail) = some inner)
    (hread : tableReadable o table args = true) :
    nonEmpty (skipOptions table args).tail = some inner := by
  obtain ⟨⟨ended, rest⟩, hskip, hrest⟩ := Option.bind_eq_some_iff.mp hruns
  rw [skipOptions_eq hdashes hskip hread]
  exact hrest

end GrokBuild.Permission
