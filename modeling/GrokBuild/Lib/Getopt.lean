import GrokBuild.Lib.Str

/-!
# Reading options

The documented reading of a command line by `getopt_long` in POSIX order:
options up to the first operand or `--`, clusters of short options, operands
glued or in the next word, long options with `=` or in the next word, and
their unambiguous abbreviations. `skip` gives the words behind the options;
`skip_induction` is the induction along them.
-/

namespace Getopt

open TextLines Str

/-- The options of a program. A number is an option of its own where
`numeric` says so, as in `nice -5`. -/
structure Options where
  flags : List Char
  valued : List Char
  longFlags : List String
  longValued : List String
  /-- Long options whose value only comes with `=`. -/
  longOptional : List String
  numeric : Bool

/-- How many words an option takes. -/
inductive Arity where
  | one
  | two
  deriving DecidableEq, Repr

/-- `-` and something behind it. -/
def isOption : Text → Bool
  | '-' :: _ :: _ => true
  | _ => false

namespace Options

variable (o : Options)

/-- A cluster of short options, behind the dash. -/
def shortArity : Text → Option Arity
  | [] => some .one
  | c :: rest =>
    if c ∈ o.valued then some (if rest = [] then .two else .one)
    else if c ∈ o.flags then shortArity rest
    else none

def longNames : List String := o.longFlags ++ o.longValued ++ o.longOptional

/-- The long option that a name stands for: itself, or the only one that it
abbreviates. -/
def resolve (name : Text) : Option String :=
  match o.longNames.find? fun n => n.toList == name with
  | some n => some n
  | none =>
    match o.longNames.filter fun n => name.isPrefixOf n.toList with
    | [n] => some n
    | _ => none

/-- A long option, behind the two dashes. -/
def longArity (body : Text) : Option Arity :=
  match splitOnce ['='] body with
  | some (name, _) =>
    match o.resolve name with
    | some n => if n ∈ o.longFlags then none else some .one
    | none => none
  | none =>
    match o.resolve body with
    | some n => if n ∈ o.longValued then some .two else some .one
    | none => none

/-- A number with a dash in front, and perhaps a sign. -/
def isNumber : Text → Bool
  | '-' :: c :: rest => c.isDigit || ((c == '-' || c == '+') && (rest.head?.any Char.isDigit))
  | _ => false

/-- How many words an option takes, if the program has it. -/
def arity (word : Text) : Option Arity :=
  if o.numeric && isNumber word then some .one
  else match word with
    | '-' :: '-' :: body => o.longArity body
    | '-' :: body => o.shortArity body
    | _ => none

theorem arity_long (hnumeric : o.numeric = false) (body : Text) :
    o.arity ('-' :: '-' :: body) = o.longArity body := by
  simp [arity, hnumeric]

theorem arity_short (hnumeric : o.numeric = false) {c : Char} (hc : c ≠ '-') (cs : Text) :
    o.arity ('-' :: c :: cs) = o.shortArity (c :: cs) := by
  simp [arity, hnumeric, hc]

theorem longArity_eq_none (hnames : o.longNames = []) (body : Text) :
    o.longArity body = none := by
  unfold longArity resolve
  split <;> simp [hnames]

theorem flag_of_shortArity (hvalued : o.valued = []) {c : Char} {cs : Text} {a : Arity}
    (h : o.shortArity (c :: cs) = some a) : c ∈ o.flags ∧ o.shortArity cs = some a := by
  rw [shortArity, hvalued, if_neg List.not_mem_nil] at h
  split at h
  · exact ⟨‹_›, h⟩
  · cases h

theorem shortArity_ne_two (hvalued : o.valued = []) (cs : Text) :
    o.shortArity cs ≠ some .two := by
  induction cs with
  | nil => simp [shortArity]
  | cons c cs ih => exact fun h => ih (o.flag_of_shortArity hvalued h).2

/-- The words behind the options, and whether `--` ended them; nothing if
the program rejects an option. -/
def skip : List Text → Option (Bool × List Text)
  | [] => some (false, [])
  | w :: rest =>
    if w = "--".toList then some (true, rest)
    else if isOption w = false then some (false, w :: rest)
    else match o.arity w with
      | some .one => skip rest
      | some .two =>
        match rest with
        | [] => none
        | _ :: rest => skip rest
      | none => none

/-- Every option in front passes the test. -/
def everyOption (p : Text → Bool) : List Text → Bool
  | [] => true
  | w :: rest =>
    if w = "--".toList then true
    else if isOption w = false then true
    else match o.arity w with
      | some .one => p w && everyOption p rest
      | some .two =>
        match rest with
        | [] => p w
        | _ :: rest => p w && everyOption p rest
      | none => true

/-- Induction along the options that `skip` passes over: the end of the
words, `--`, an operand, an option of one word, an option of two. -/
theorem skip_induction {motive : List Text → Bool → List Text → Prop}
    (nil : motive [] false [])
    (dashes : ∀ rest, motive ("--".toList :: rest) true rest)
    (operand : ∀ w rest, w ≠ "--".toList → isOption w = false → motive (w :: rest) false (w :: rest))
    (one : ∀ w rest ended out, w ≠ "--".toList → isOption w = true → o.arity w = some .one →
      motive rest ended out → motive (w :: rest) ended out)
    (two : ∀ w value rest ended out, w ≠ "--".toList → isOption w = true →
      o.arity w = some .two → motive rest ended out → motive (w :: value :: rest) ended out)
    {words : List Text} {ended : Bool} {out : List Text} (h : o.skip words = some (ended, out)) :
    motive words ended out := by
  fun_induction skip o words with
  | case1 =>
    cases h
    exact nil
  | case2 =>
    cases h
    exact dashes _
  | case3 w rest hdashes hoption =>
    cases h
    exact operand w rest hdashes hoption
  | case4 w rest hdashes hoption harity ih =>
    rw [Bool.not_eq_false] at hoption
    exact one w rest ended out hdashes hoption harity (ih h)
  | case5 => cases h
  | case6 w hdashes hoption harity value rest ih =>
    rw [Bool.not_eq_false] at hoption
    exact two w value rest ended out hdashes hoption harity (ih h)
  | case7 => cases h

section EveryOption

variable {p : Text → Bool} {w : Text} (hdashes : w ≠ "--".toList) (hoption : isOption w = true)

include hdashes hoption

theorem everyOption_one {rest : List Text} (harity : o.arity w = some .one) :
    o.everyOption p (w :: rest) = (p w && o.everyOption p rest) := by
  rw [everyOption.eq_def]
  simp only [if_neg hdashes, hoption, Bool.true_eq_false, if_false, harity]

theorem everyOption_two {value : Text} {rest : List Text} (harity : o.arity w = some .two) :
    o.everyOption p (w :: value :: rest) = (p w && o.everyOption p rest) := by
  rw [everyOption.eq_def]
  simp only [if_neg hdashes, hoption, Bool.true_eq_false, if_false, harity]

end EveryOption

end Options

end Getopt
