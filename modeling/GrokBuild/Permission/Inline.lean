import Mathlib.Logic.Relation
import GrokBuild.Permission.Policy

/-!
# Permissions: the script of an inline shell

What a shell makes of its words (`readOptions`), beside what
`shell_dash_c_script` makes of them. The two go through the words in step but
for words such as `-Oe` and `+eo`: the classifier passes each as one option,
while to the shell every `o` and `O` in them takes the word behind.
-/

namespace GrokBuild.Permission

open TextLines Str Relation List

/-! ## Options, as the shell reads them -/

def signed (word : Text) : Bool := startsWith word "-" || startsWith word "+"

/-- Every `o` and `O` of a cluster takes a word as the name of an option. -/
def takes (word : Text) : Nat := (word.drop 1).countP fun c => c == 'o' || c == 'O'

/-- A single-dash cluster with a `c` in it. -/
def hasC (word : Text) : Bool := startsWith word "-" && (word.drop 1).contains 'c'

/-- How the options end. -/
inductive Arrival where
  /-- No option has the name that was given for one. -/
  | refused
  | nowhere
  | operand (index : Nat)
  deriving DecidableEq, Repr

/-- The options from word `i` on, of which the first `n` are names that an
option before has taken: whether there was a `-c`, and the first operand. No
name begins with a sign. -/
def readOptions : Nat → Nat → Bool → List Text → Bool × Arrival
  | _, _, c, [] => (c, .nowhere)
  | n + 1, i, c, word :: rest =>
    if signed word then (c, .refused) else readOptions n (i + 1) c rest
  | 0, i, c, word :: rest =>
    if word = "--".toList ∨ word = "-".toList then
      (c, if rest = [] then .nowhere else .operand (i + 1))
    else if signed word = false then (c, .operand i)
    else if oneOf word ["--init-file", "--rcfile"] then
      match rest with
      | [] => (c, .nowhere)
      | _ :: rest => readOptions 0 (i + 2) c rest
    else if startsWith word "--" then readOptions 0 (i + 1) c rest
    else readOptions (takes word) (i + 1) (c || hasC word) rest

example : readOptions 0 1 false ["-Oc".toList, "extglob".toList, "ls".toList] =
    (true, .operand 3) := by decide

/-- The words that a shell can get for words of which some are not known:
each of those may become any number of words. -/
inductive Expands : List ShellWord → List Text → Prop
  | nil : Expands [] []
  | literal {word : Text} {words : List ShellWord} {argv : List Text} (h : Expands words argv) :
      Expands (.literal word :: words) (word :: argv)
  | untrusted {more argv : List Text} {words : List ShellWord} (h : Expands words argv) :
      Expands (.untrusted :: words) (more ++ argv)

theorem exists_expands (words : List ShellWord) : ∃ argv, Expands words argv := by
  induction words with
  | nil => exact ⟨[], .nil⟩
  | cons word words ih =>
    obtain ⟨argv, h⟩ := ih
    cases word with
    | literal word => exact ⟨word :: argv, .literal h⟩
    | untrusted => exact ⟨[] ++ argv, .untrusted h⟩

variable {word : Text}

theorem forall_expands_literal {words : List ShellWord} {P : List Text → Prop} :
    (∀ argv, Expands (.literal word :: words) argv → P argv) ↔
      ∀ argv, Expands words argv → P (word :: argv) := by
  constructor
  · intro h argv hargv
    exact h _ (.literal hargv)
  · rintro h argv ⟨⟩
    exact h _ ‹_›

variable {i j : Nat} {c : Bool} {argv : List Text}

theorem readOptions_le {n : Nat} {c' : Bool} (h : readOptions n i c argv = (c', .operand j)) :
    i ≤ j := by
  fun_induction readOptions n i c argv <;> grind

theorem readOptions_true (n i : Nat) (argv : List Text) : (readOptions n i true argv).1 = true := by
  generalize hc : true = c
  fun_induction readOptions n i c argv <;> grind

/-! ## Words, as the classifier tells them apart -/

inductive Shape where
  /-- `--` and `-`. -/
  | ender
  | operand
  | file
  | known
  | unknown
  /-- `-o`, `+o`, `-O` and `+O`. -/
  | argument
  /-- Taken for an option with its argument glued to it, or for one without. -/
  | glued
  | unclear
  | cluster
  deriving DecidableEq, Repr

/-- The tests of the loop of `shell_dash_c_script`. -/
def shape (word : Text) : Shape :=
  if word = "--".toList ∨ word = "-".toList then .ender
  else if startsWith word "-" = false ∧ startsWith word "+" = false then .operand
  else if oneOf word ["--init-file", "--rcfile"] then .file
  else if startsWith word "--" then
    if oneOf word ["--noprofile", "--norc", "--posix"] then .known else .unknown
  else if oneOf word ["-o", "+o", "-O", "+O"] then .argument
  else if startsWith word "-O" then .glued
  else if startsWith word "+O" || startsWith word "+o" then .glued
  else if startsWith word "-o" then .unclear
  else if startsWith word "+" then .glued
  else if (word.drop 1).contains 'o' || (word.drop 1).contains 'O' then .unclear
  else .cluster

theorem scanShellWords_literal_cons (d : Bool) (i : Nat) (c u : Bool) (word : Text)
    (rest : List ShellWord) :
    scanShellWords d i c u (.literal word :: rest) =
      match shape word with
      | .ender =>
        if c = false then noScript u
        else match rest with
          | .literal _ :: _ => finishLiteral d (i + 1)
          | _ => .untrusted
      | .operand => if c then finishLiteral d i else noScript u
      | .file =>
        match rest with
        | .literal _ :: rest => scanShellWords d (i + 2) c u rest
        | _ => ambiguousShell c
      | .known => scanShellWords d (i + 1) c u rest
      | .unknown => if c then .untrusted else scanShellWords d (i + 1) c true rest
      | .argument =>
        match rest with
        | .literal value :: rest =>
          if startsWith value "-" then ambiguousShell c else scanShellWords d (i + 2) c u rest
        | _ => ambiguousShell c
      | .glued => scanShellWords d (i + 1) c u rest
      | .unclear => ambiguousShell c
      | .cluster => scanShellWords d (i + 1) (c || (word.drop 1).contains 'c') u rest := by
  rw [scanShellWords.eq_def]
  unfold shape
  dsimp only
  by_cases hender : word = "--".toList ∨ word = "-".toList
  · rewrite [if_pos hender, if_pos hender]
    rfl
  rw [if_neg hender, if_neg hender]
  by_cases hoperand : startsWith word "-" = false ∧ startsWith word "+" = false
  · rw [if_pos hoperand, if_pos hoperand]
  rw [if_neg hoperand, if_neg hoperand]
  by_cases hfile : oneOf word ["--init-file", "--rcfile"] = true
  · rewrite [if_pos hfile, if_pos hfile]
    rfl
  rw [if_neg hfile, if_neg hfile]
  by_cases hlong : startsWith word "--" = true
  · rw [if_pos hlong, if_pos hlong]
    by_cases hknown : oneOf word ["--noprofile", "--norc", "--posix"] = true
    · rw [if_pos hknown, if_pos hknown]
    · rw [if_neg hknown, if_neg hknown]
  rw [if_neg hlong, if_neg hlong]
  by_cases harg : oneOf word ["-o", "+o", "-O", "+O"] = true
  · rewrite [if_pos harg, if_pos harg]
    rfl
  rw [if_neg harg, if_neg harg]
  by_cases hglued : startsWith word "-O" = true
  · rw [if_pos hglued, if_pos hglued]
  rw [if_neg hglued, if_neg hglued]
  by_cases hsigned : (startsWith word "+O" || startsWith word "+o") = true
  · rw [if_pos hsigned, if_pos hsigned]
  rw [if_neg hsigned, if_neg hsigned]
  by_cases hunclear : startsWith word "-o" = true
  · rw [if_pos hunclear, if_pos hunclear]
  rw [if_neg hunclear, if_neg hunclear]
  by_cases hplus : startsWith word "+" = true
  · rw [if_pos hplus, if_pos hplus]
  rw [if_neg hplus, if_neg hplus]
  by_cases hletters : ((word.drop 1).contains 'o' || (word.drop 1).contains 'O') = true
  · rw [if_pos hletters, if_pos hletters]
  · rw [if_neg hletters, if_neg hletters]

theorem signed_eq_false :
    signed word = false ↔ startsWith word "-" = false ∧ startsWith word "+" = false := by
  rw [signed, Bool.or_eq_false_iff]

theorem oneOf_iff {names : List String} :
    oneOf word names = true ↔ ∃ name ∈ names, name.toList = word := by
  simp [oneOf]

theorem takes_eq_zero (h : ((word.drop 1).contains 'o' || (word.drop 1).contains 'O') = false) :
    takes word = 0 := by
  rw [Bool.or_eq_false_iff, contains_eq_mem, contains_eq_mem, decide_eq_false_iff_not,
    decide_eq_false_iff_not] at h
  rw [takes, countP_eq_zero]
  intro c hc
  simp only [Bool.or_eq_true, beq_iff_eq, not_or]
  exact ⟨fun he => h.1 (he ▸ hc), fun he => h.2 (he ▸ hc)⟩

theorem readOptions_cons (i : Nat) (c : Bool) (word : Text) (rest : List Text) :
    readOptions 0 i c (word :: rest) =
      match shape word with
      | .ender => (c, if rest = [] then .nowhere else .operand (i + 1))
      | .operand => (c, .operand i)
      | .file =>
        match rest with
        | [] => (c, .nowhere)
        | _ :: rest => readOptions 0 (i + 2) c rest
      | .known => readOptions 0 (i + 1) c rest
      | .unknown => readOptions 0 (i + 1) c rest
      | .argument => readOptions 1 (i + 1) c rest
      | .glued => readOptions (takes word) (i + 1) (c || hasC word) rest
      | .unclear => readOptions (takes word) (i + 1) (c || hasC word) rest
      | .cluster => readOptions 0 (i + 1) (c || (word.drop 1).contains 'c') rest := by
  rw [readOptions.eq_def]
  unfold shape
  dsimp only
  by_cases hender : word = "--".toList ∨ word = "-".toList
  · rw [if_pos hender, if_pos hender]
  rw [if_neg hender, if_neg hender]
  by_cases hoperand : signed word = false
  · rw [if_pos hoperand, if_pos (signed_eq_false.mp hoperand)]
  rw [if_neg hoperand, if_neg (mt signed_eq_false.mpr hoperand)]
  by_cases hfile : oneOf word ["--init-file", "--rcfile"] = true
  · rw [if_pos hfile, if_pos hfile]
  rw [if_neg hfile, if_neg hfile]
  by_cases hlong : startsWith word "--" = true
  · rw [if_pos hlong, if_pos hlong]
    by_cases hknown : oneOf word ["--noprofile", "--norc", "--posix"] = true
    · rw [if_pos hknown]
    · rw [if_neg hknown]
  rw [if_neg hlong, if_neg hlong]
  by_cases harg : oneOf word ["-o", "+o", "-O", "+O"] = true
  · rw [if_pos harg]
    have hshort : takes word = 1 ∧ hasC word = false := by
      simp only [oneOf_iff, mem_cons, not_mem_nil, or_false] at harg
      obtain ⟨name, rfl | rfl | rfl | rfl, rfl⟩ := harg <;> decide
    rw [hshort.1, hshort.2, Bool.or_false]
  rw [if_neg harg]
  by_cases hglued : startsWith word "-O" = true
  · rw [if_pos hglued]
  rw [if_neg hglued]
  by_cases hsigned : (startsWith word "+O" || startsWith word "+o") = true
  · rw [if_pos hsigned]
  rw [if_neg hsigned]
  by_cases hunclear : startsWith word "-o" = true
  · rw [if_pos hunclear]
  rw [if_neg hunclear]
  by_cases hplus : startsWith word "+" = true
  · rw [if_pos hplus]
  rw [if_neg hplus]
  by_cases hletters : ((word.drop 1).contains 'o' || (word.drop 1).contains 'O') = true
  · rw [if_pos hletters]
  · rw [if_neg hletters]
    have hdash : startsWith word "-" = true := by
      simpa [signed, hplus] using hoperand
    rw [takes_eq_zero (Bool.eq_false_iff.mpr hletters), hasC, hdash, Bool.true_and]

theorem shape_eq_operand : shape word = .operand ↔ signed word = false := by
  rw [signed_eq_false]
  unfold shape
  constructor
  · intro h
    split_ifs at h
    assumption
  · intro h
    have hender : ¬ (word = "--".toList ∨ word = "-".toList) := by
      rintro (rfl | rfl) <;> exact absurd h.1 (by decide)
    rw [if_neg hender, if_pos h]

/-- Only a `-O…` has a `c` among the words taken for an option with its
argument, and it takes a word. -/
theorem takes_pos_of_hasC (hshape : shape word = .glued) (hc : hasC word = true) : 0 < takes word := by
  obtain ⟨tail, rfl⟩ := isPrefixOf_iff_prefix.mp (Bool.and_eq_true_iff.mp hc).1
  change shape ('-' :: tail) = .glued at hshape
  change 0 < takes ('-' :: tail)
  have hO : startsWith ('-' :: tail) "-O" = true := by
    unfold shape at hshape
    split_ifs at hshape with _ _ _ _ _ _ hglued hsigned _ hplus
    · exact hglued
    · exact absurd hsigned (by simp [startsWith])
    · exact absurd hplus (by simp [startsWith])
  obtain ⟨more, hmore⟩ := isPrefixOf_iff_prefix.mp hO
  obtain rfl : tail = 'O' :: more := (List.cons.inj hmore).2.symm
  simp [takes]

/-! ## The walk of the classifier -/

/-- The loop of `shell_dash_c_script` at a word. -/
structure Scan where
  i : Nat
  sawC : Bool
  unrecognized : Bool
  words : List ShellWord

def Scan.answer (s : Scan) : InlineShellScript :=
  scanShellWords false s.i s.sawC s.unrecognized s.words

/-- A round of the loop that goes on with a later word. -/
inductive Pass : Scan → Scan → Prop
  | file {i : Nat} {c u : Bool} {word value : Text} {rest : List ShellWord}
      (hword : shape word = .file) :
      Pass ⟨i, c, u, .literal word :: .literal value :: rest⟩ ⟨i + 2, c, u, rest⟩
  | known {i : Nat} {c u : Bool} {word : Text} {rest : List ShellWord}
      (hword : shape word = .known) : Pass ⟨i, c, u, .literal word :: rest⟩ ⟨i + 1, c, u, rest⟩
  | unknown {i : Nat} {u : Bool} {word : Text} {rest : List ShellWord}
      (hword : shape word = .unknown) :
      Pass ⟨i, false, u, .literal word :: rest⟩ ⟨i + 1, false, true, rest⟩
  | argument {i : Nat} {c u : Bool} {word value : Text} {rest : List ShellWord}
      (hword : shape word = .argument) (hvalue : startsWith value "-" = false) :
      Pass ⟨i, c, u, .literal word :: .literal value :: rest⟩ ⟨i + 2, c, u, rest⟩
  | glued {i : Nat} {c u : Bool} {word : Text} {rest : List ShellWord}
      (hword : shape word = .glued) : Pass ⟨i, c, u, .literal word :: rest⟩ ⟨i + 1, c, u, rest⟩
  | cluster {i : Nat} {c u : Bool} {word : Text} {rest : List ShellWord}
      (hword : shape word = .cluster) :
      Pass ⟨i, c, u, .literal word :: rest⟩ ⟨i + 1, c || (word.drop 1).contains 'c', u, rest⟩

variable {s t : Scan}

theorem Pass.answer (h : Pass s t) : s.answer = t.answer := by
  cases h <;> simp [Scan.answer, scanShellWords_literal_cons, *]

theorem Pass.length_lt (h : Pass s t) : t.words.length < s.words.length := by
  cases h <;> simp only [length_cons] <;> omega

/-- The word at `j` is taken for the command string. -/
inductive Commands : Scan → Nat → Prop
  | operand {i : Nat} {u : Bool} {word : Text} {rest : List ShellWord}
      (hword : shape word = .operand) : Commands ⟨i, true, u, .literal word :: rest⟩ i
  | ender {i : Nat} {u : Bool} {word value : Text} {rest : List ShellWord}
      (hword : shape word = .ender) :
      Commands ⟨i, true, u, .literal word :: .literal value :: rest⟩ (i + 1)

/-- The options end, and nothing was seen among them. -/
inductive Ends : Scan → Prop
  | nil {i : Nat} : Ends ⟨i, false, false, []⟩
  | word {i : Nat} {word : Text} {rest : List ShellWord}
      (hword : shape word = .operand ∨ shape word = .ender) :
      Ends ⟨i, false, false, .literal word :: rest⟩

theorem Commands.answer (h : Commands s j) : s.answer = .literal j := by
  cases h <;> simp [Scan.answer, scanShellWords_literal_cons, finishLiteral, *]

theorem Ends.answer (h : Ends s) : s.answer = .notInline := by
  cases h with
  | nil => rfl
  | word hword =>
    obtain hword | hword := hword <;>
      simp [Scan.answer, scanShellWords_literal_cons, noScript, hword]

/-- A round goes on, or finds the command string, or ends, or gives up. -/
theorem Scan.next (s : Scan) :
    (∃ t, Pass s t) ∨ (∃ j, Commands s j) ∨ Ends s ∨
      (s.answer = .untrusted ∨ s.answer = .unrecognized) := by
  obtain ⟨i, c, u, words⟩ := s
  cases words with
  | nil => cases c <;> cases u <;> simp [Scan.answer, scanShellWords, noScript, Ends.nil]
  | cons word rest =>
    cases word with
    | untrusted => cases c <;> simp [Scan.answer, scanShellWords, ambiguousShell]
    | literal word =>
      cases hshape : shape word with
      | ender =>
        cases c with
        | false =>
          cases u with
          | false => exact .inr (.inr (.inl (.word (.inr hshape))))
          | true => simp [Scan.answer, scanShellWords_literal_cons, noScript, hshape]
        | true =>
          obtain _ | ⟨value | _, rest⟩ := rest
          · simp [Scan.answer, scanShellWords_literal_cons, hshape]
          · exact .inr (.inl ⟨_, .ender hshape⟩)
          · simp [Scan.answer, scanShellWords_literal_cons, hshape]
      | operand =>
        cases c with
        | false =>
          cases u with
          | false => exact .inr (.inr (.inl (.word (.inl hshape))))
          | true => simp [Scan.answer, scanShellWords_literal_cons, noScript, hshape]
        | true => exact .inr (.inl ⟨_, .operand hshape⟩)
      | file =>
        obtain _ | ⟨value | _, rest⟩ := rest
        · cases c <;> simp [Scan.answer, scanShellWords_literal_cons, ambiguousShell, hshape]
        · exact .inl ⟨_, .file hshape⟩
        · cases c <;> simp [Scan.answer, scanShellWords_literal_cons, ambiguousShell, hshape]
      | known => exact .inl ⟨_, .known hshape⟩
      | unknown =>
        cases c with
        | false => exact .inl ⟨_, .unknown hshape⟩
        | true => simp [Scan.answer, scanShellWords_literal_cons, hshape]
      | argument =>
        obtain _ | ⟨value | _, rest⟩ := rest
        · cases c <;> simp [Scan.answer, scanShellWords_literal_cons, ambiguousShell, hshape]
        · cases hvalue : startsWith value "-" with
          | false => exact .inl ⟨_, .argument hshape hvalue⟩
          | true =>
            cases c <;>
              simp [Scan.answer, scanShellWords_literal_cons, ambiguousShell, hshape, hvalue]
        · cases c <;> simp [Scan.answer, scanShellWords_literal_cons, ambiguousShell, hshape]
      | glued => exact .inl ⟨_, .glued hshape⟩
      | unclear => cases c <;> simp [Scan.answer, scanShellWords_literal_cons, ambiguousShell, hshape]
      | cluster => exact .inl ⟨_, .cluster hshape⟩

theorem Passes.answer (h : ReflTransGen Pass s t) : s.answer = t.answer := by
  induction h with
  | refl => rfl
  | tail _ hpass ih => rw [ih, hpass.answer]

theorem Scan.last (s : Scan) :
    ∃ t, ReflTransGen Pass s t ∧ ((∃ j, Commands t j) ∨ Ends t ∨
      (t.answer = .untrusted ∨ t.answer = .unrecognized)) := by
  induction hn : s.words.length using Nat.strong_induction_on generalizing s with
  | _ n ih =>
    obtain ⟨t, hpass⟩ | hstop := s.next
    · obtain ⟨t', hwalk, hstop⟩ := ih _ (hn ▸ hpass.length_lt) t rfl
      exact ⟨t', .head hpass hwalk, hstop⟩
    · exact ⟨s, .refl, hstop⟩

theorem answer_eq_literal : s.answer = .literal j ↔ ∃ t, ReflTransGen Pass s t ∧ Commands t j := by
  constructor
  · intro h
    obtain ⟨t, hwalk, hstop⟩ := s.last
    rw [Passes.answer hwalk] at h
    obtain ⟨j', hcommand⟩ | hend | hup | hup := hstop
    · rw [hcommand.answer] at h
      cases h
      exact ⟨t, hwalk, hcommand⟩
    · rw [hend.answer] at h
      cases h
    · rw [hup] at h
      cases h
    · rw [hup] at h
      cases h
  · rintro ⟨t, hwalk, hcommand⟩
    rw [Passes.answer hwalk, hcommand.answer]

theorem answer_eq_notInline : s.answer = .notInline ↔ ∃ t, ReflTransGen Pass s t ∧ Ends t := by
  constructor
  · intro h
    obtain ⟨t, hwalk, hstop⟩ := s.last
    rw [Passes.answer hwalk] at h
    obtain ⟨j', hcommand⟩ | hend | hup | hup := hstop
    · rw [hcommand.answer] at h
      cases h
    · exact ⟨t, hwalk, hend⟩
    · rw [hup] at h
      cases h
    · rw [hup] at h
      cases h
  · rintro ⟨t, hwalk, hend⟩
    rw [Passes.answer hwalk, hend.answer]

theorem Pass.seen (h : Pass s t) (ht : t.sawC = false ∧ t.unrecognized = false) :
    s.sawC = false ∧ s.unrecognized = false := by
  cases h <;> simp_all

theorem seen_of_notInline (h : s.answer = .notInline) : s.sawC = false ∧ s.unrecognized = false := by
  obtain ⟨t, hwalk, hend⟩ := answer_eq_notInline.mp h
  clear h
  induction hwalk using ReflTransGen.head_induction_on with
  | refl => cases hend <;> exact ⟨rfl, rfl⟩
  | head hpass _ ih => exact hpass.seen ih

/-! ## In step with the shell -/

/-- Whatever the unknown words stand for: where the shell sees a `-c` there is
an answer, and a command string that is found is the one that the shell runs. -/
def Scan.Sound (s : Scan) : Prop :=
  ∀ argv, Expands s.words argv →
    ((readOptions 0 s.i s.sawC argv).1 = true → s.answer ≠ .notInline) ∧
      ∀ j, s.answer = .literal j → readOptions 0 s.i s.sawC argv = (true, .operand j)

/-- The next word takes a name, and the classifier goes on with that name; or
the name is none. -/
inductive Strays : List ShellWord → Prop
  | glued {word : Text} {rest : List ShellWord} (hword : shape word = .glued)
      (htakes : 0 < takes word) : Strays (.literal word :: rest)
  | argument {word value : Text} {rest : List ShellWord} (hword : shape word = .argument)
      (hvalue : startsWith value "+" = true) : Strays (.literal word :: .literal value :: rest)

/-- A round after which the classifier stands where the shell does. -/
def InStep (s t : Scan) : Prop := Pass s t ∧ ¬ Strays s.words

theorem InStep.sound (h : InStep s t) : s.Sound ↔ t.Sound := by
  obtain ⟨hpass, hstray⟩ := h
  have hanswer := hpass.answer
  unfold Scan.Sound
  rw [hanswer]
  cases hpass with
  | file hword =>
    simp only [forall_expands_literal, readOptions_cons, hword]
  | known hword => simp only [forall_expands_literal, readOptions_cons, hword]
  | unknown hword => simp only [forall_expands_literal, readOptions_cons, hword]
  | @argument i c u word value rest hword hvalue =>
    have hsigned : signed value = false := by
      rw [signed_eq_false]
      exact ⟨hvalue, Bool.eq_false_iff.mpr fun hplus => hstray (.argument hword hplus)⟩
    simp only [forall_expands_literal, readOptions_cons, hword, readOptions, hsigned,
      Bool.false_eq_true, if_false]
  | @glued i c u word rest hword =>
    have htakes : takes word = 0 := by
      by_contra hne
      exact hstray (.glued hword (Nat.pos_of_ne_zero hne))
    have hc : hasC word = false := by
      by_contra hne
      have hpos := takes_pos_of_hasC hword (Bool.not_eq_false _ ▸ hne)
      omega
    simp only [forall_expands_literal, readOptions_cons, hword, htakes, hc, Bool.or_false]
  | cluster hword => simp only [forall_expands_literal, readOptions_cons, hword]

/-- What goes wrong at a word that strays: the walk gets to a command string;
or it gets to an end, and the word has a `c`, or the words that it takes reach
over the end and a `c` comes behind. -/
inductive Trips : Scan → Prop
  | command {s t t' : Scan} {j : Nat} (hstray : Strays s.words) (hpass : Pass s t)
      (hwalk : ReflTransGen Pass t t') (hcommand : Commands t' j) : Trips s
  | letter {i : Nat} {word : Text} {rest : List ShellWord} {t : Scan}
      (hword : shape word = .glued) (hc : hasC word = true)
      (hwalk : ReflTransGen Pass ⟨i + 1, false, false, rest⟩ t) (hend : Ends t) :
      Trips ⟨i, false, false, .literal word :: rest⟩
  | behind {i : Nat} {word value : Text} {rest : List ShellWord} {argv : List Text}
      (hword : shape word = .glued) (htakes : 0 < takes word) (hvalue : shape value = .operand)
      (hargv : Expands rest argv)
      (hc : (readOptions (takes word - 1) (i + 2) false argv).1 = true) :
      Trips ⟨i, false, false, .literal word :: .literal value :: rest⟩

theorem Trips.strays (h : Trips s) : Strays s.words := by
  cases h with
  | command hstray _ _ _ => exact hstray
  | letter hword hc _ _ => exact .glued hword (takes_pos_of_hasC hword hc)
  | behind hword htakes _ _ _ => exact .glued hword htakes

variable {u : Bool} {rest : List ShellWord}

/-- A name with a sign is refused by the shell. -/
theorem sound_argument_iff {value : Text} (hword : shape word = .argument)
    (hdash : startsWith value "-" = false) (hplus : startsWith value "+" = true) :
    (Scan.mk i c u (.literal word :: .literal value :: rest)).Sound ↔
      ¬ Trips ⟨i, c, u, .literal word :: .literal value :: rest⟩ := by
  have hpass : Pass ⟨i, c, u, .literal word :: .literal value :: rest⟩ ⟨i + 2, c, u, rest⟩ :=
    .argument hword hdash
  have hsigned : signed value = true := by simp [signed, hplus]
  have hread : ∀ argv, readOptions 0 i c (word :: value :: argv) = (c, .refused) := by
    intro argv
    rw [readOptions_cons, hword]
    simp [readOptions, hsigned]
  constructor
  · intro hsound htrips
    cases htrips with
    | command _ hpass' hwalk hcommand =>
      obtain ⟨argv, hargv⟩ := exists_expands rest
      have hanswer := hpass'.answer.trans ((Passes.answer hwalk).trans hcommand.answer)
      have hlit := (hsound _ (.literal (.literal hargv))).2 _ hanswer
      simp [hread] at hlit
    | letter hword' _ _ _ =>
      rw [hword] at hword'
      cases hword'
    | behind hword' _ _ _ _ =>
      rw [hword] at hword'
      cases hword'
  · intro htrips
    unfold Scan.Sound
    simp only [forall_expands_literal, hread]
    intro argv hargv
    refine ⟨fun hc hend => ?_, fun j hj => ?_⟩
    · exact Bool.false_ne_true ((seen_of_notInline hend).1.symm.trans hc)
    rw [hpass.answer] at hj
    obtain ⟨t, hwalk, hcommand⟩ := answer_eq_literal.mp hj
    exact absurd (.command (.argument hword hplus) hpass hwalk hcommand) htrips

theorem readOptions_ne_answer {n : Nat} {c' : Bool} (hargv : Expands rest argv)
    (hj : Scan.answer ⟨i, c, u, rest⟩ = .literal j) :
    readOptions (n + 1) i c' argv ≠ (true, .operand j) := by
  intro hread
  cases hargv with
  | nil => simp [readOptions] at hread
  | untrusted =>
    cases c <;> simp [Scan.answer, scanShellWords, ambiguousShell] at hj
  | @literal value rest argv hargv =>
    cases hsigned : signed value with
    | true => simp [readOptions, hsigned] at hread
    | false =>
      have hoperand := shape_eq_operand.mpr hsigned
      have hij : j = i := by
        cases c
        · cases u <;>
            simp [Scan.answer, scanShellWords_literal_cons, hoperand, noScript] at hj
        · simpa [Scan.answer, scanShellWords_literal_cons, hoperand, finishLiteral, eq_comm] using hj
      rw [readOptions, hsigned, if_neg Bool.false_ne_true] at hread
      have hle := readOptions_le hread
      omega

theorem sound_glued_iff (hword : shape word = .glued) (htakes : 0 < takes word) :
    (Scan.mk i c u (.literal word :: rest)).Sound ↔ ¬ Trips ⟨i, c, u, .literal word :: rest⟩ := by
  have hpass : Pass ⟨i, c, u, .literal word :: rest⟩ ⟨i + 1, c, u, rest⟩ := .glued hword
  obtain ⟨n, hn⟩ := Nat.exists_eq_add_of_le' htakes
  have hread : ∀ argv, readOptions 0 i c (word :: argv) =
      readOptions (n + 1) (i + 1) (c || hasC word) argv := by
    intro argv
    rw [readOptions_cons, hword, hn]
  have hbehind : ∀ value argv, signed value = false → readOptions 0 i c (word :: value :: argv) =
      readOptions n (i + 2) (c || hasC word) argv := by
    intro value argv hsigned
    rw [hread, readOptions, hsigned, if_neg Bool.false_ne_true]
  constructor
  · intro hsound htrips
    cases htrips with
    | command _ hpass' hwalk hcommand =>
      obtain ⟨argv, hargv⟩ := exists_expands rest
      have hanswer := hpass'.answer.trans ((Passes.answer hwalk).trans hcommand.answer)
      have hlit := (hsound _ (.literal hargv)).2 _ hanswer
      change readOptions 0 i c (word :: argv) = _ at hlit
      rw [hread] at hlit
      rw [hpass.answer] at hanswer
      exact readOptions_ne_answer hargv hanswer hlit
    | letter _ hc hwalk hend =>
      obtain ⟨argv, hargv⟩ := exists_expands rest
      have hanswer := hpass.answer.trans ((Passes.answer hwalk).trans hend.answer)
      refine (hsound _ (.literal hargv)).1 ?_ hanswer
      change (readOptions 0 i false (word :: argv)).1 = true
      rw [hread, hc, Bool.or_true]
      exact readOptions_true _ _ _
    | @behind _ _ value rest argv _ _ hvalue hargv hc =>
      have hanswer := hpass.answer.trans (Ends.word (.inl hvalue)).answer
      refine (hsound _ (.literal (.literal hargv))).1 ?_ hanswer
      change (readOptions 0 i false (word :: value :: argv)).1 = true
      rw [hbehind value argv (shape_eq_operand.mp hvalue), Bool.false_or]
      cases hasC word with
      | true => exact readOptions_true _ _ _
      | false =>
        rw [hn, Nat.add_sub_cancel] at hc
        exact hc
  · intro htrips argv hargv
    cases hargv with
    | @literal _ _ argv hargv =>
    change ((readOptions 0 i c (word :: argv)).1 = true → _) ∧
      ∀ j, _ → readOptions 0 i c (word :: argv) = _
    constructor
    · intro hc hanswer
      obtain ⟨rfl, rfl⟩ := seen_of_notInline hanswer
      rw [hpass.answer] at hanswer
      obtain ⟨t, hwalk, hend⟩ := answer_eq_notInline.mp hanswer
      have hletter : hasC word = false := by
        by_contra hne
        exact htrips (.letter hword (Bool.not_eq_false _ ▸ hne) hwalk hend)
      cases hargv with
      | nil =>
        rw [hread, hletter] at hc
        cases hc
      | untrusted => simp [Scan.answer, scanShellWords, ambiguousShell] at hanswer
      | @literal value rest argv hargv =>
        cases hsigned : signed value with
        | true =>
          rw [hread, hletter, readOptions, hsigned, if_pos rfl] at hc
          cases hc
        | false =>
          rw [hbehind value argv hsigned, hletter, Bool.false_or] at hc
          refine htrips (.behind hword htakes (shape_eq_operand.mpr hsigned) hargv ?_)
          rw [hn, Nat.add_sub_cancel]
          exact hc
    · intro j hj
      rw [hpass.answer] at hj
      obtain ⟨t, hwalk, hcommand⟩ := answer_eq_literal.mp hj
      exact absurd (.command (.glued hword htakes) hpass hwalk hcommand) htrips

theorem sound_of_stopped
    (h : (∃ j, Commands s j) ∨ Ends s ∨ (s.answer = .untrusted ∨ s.answer = .unrecognized)) :
    s.Sound := by
  obtain ⟨j, hcommand⟩ | hend | hup := h
  · have hanswer := hcommand.answer
    intro argv hargv
    rw [hanswer]
    refine ⟨fun _ => nofun, fun j' hj => ?_⟩
    cases hj
    cases hcommand with
    | operand hword =>
      cases hargv with
      | literal hargv => rw [readOptions_cons, hword]
    | ender hword =>
      cases hargv with
      | literal hargv =>
        cases hargv with
        | literal hargv =>
          rw [readOptions_cons, hword]
          rfl
  · have hanswer := hend.answer
    intro argv hargv
    rw [hanswer]
    refine ⟨fun hc => ?_, nofun⟩
    cases hend with
    | nil =>
      cases hargv
      cases hc
    | word hword =>
      cases hargv with
      | literal hargv =>
        obtain hword | hword := hword <;>
          · rw [readOptions_cons, hword] at hc
            cases hc
  · intro argv _
    obtain hup | hup := hup <;> simp [hup]

theorem reaches_trip_of_strays (h : Strays s.words) :
    (∃ t, ReflTransGen InStep s t ∧ Trips t) ↔ Trips s := by
  constructor
  · rintro ⟨t, hwalk, htrips⟩
    cases hwalk using ReflTransGen.head_induction_on with
    | refl => exact htrips
    | head hstep _ => exact absurd h hstep.2
  · intro htrips
    exact ⟨s, .refl, htrips⟩

theorem sound_of_strays (hpass : Pass s t) (h : Strays s.words) : s.Sound ↔ ¬ Trips s := by
  cases hpass with
  | argument hword hvalue =>
    cases h with
    | glued hword' _ =>
      rw [hword] at hword'
      cases hword'
    | argument _ hplus => exact sound_argument_iff hword hvalue hplus
  | glued hword =>
    cases h with
    | glued _ htakes => exact sound_glued_iff hword htakes
    | argument hword' _ =>
      rw [hword] at hword'
      cases hword'
  | file hword | known hword | unknown hword | cluster hword =>
    cases h with
    | glued hword' _ | argument hword' _ =>
      rw [hword] at hword'
      cases hword'

theorem Pass.unique {t' : Scan} (h : Pass s t) (h' : Pass s t') : t = t' := by
  cases h <;> cases h' <;> simp_all

theorem Trips.passes (h : Trips s) : ∃ t, Pass s t := by
  cases h with
  | command _ hpass _ _ => exact ⟨_, hpass⟩
  | letter hword _ _ _ => exact ⟨_, .glued hword⟩
  | behind hword _ _ _ _ => exact ⟨_, .glued hword⟩

/-- The words behind the name of the shell, from any round of the loop on. -/
theorem sound_iff (s : Scan) : s.Sound ↔ ¬ ∃ t, ReflTransGen InStep s t ∧ Trips t := by
  induction hn : s.words.length using Nat.strong_induction_on generalizing s with
  | _ n ih =>
    by_cases hgoes : ∃ t, Pass s t
    · obtain ⟨t, hpass⟩ := hgoes
      by_cases hstray : Strays s.words
      · rw [reaches_trip_of_strays hstray]
        exact sound_of_strays hpass hstray
      · have hstep : InStep s t := ⟨hpass, hstray⟩
        rw [hstep.sound, ih _ (hn ▸ hpass.length_lt) t rfl, not_iff_not]
        constructor
        · rintro ⟨t', hwalk, htrips⟩
          exact ⟨t', .head hstep hwalk, htrips⟩
        · rintro ⟨t', hwalk, htrips⟩
          obtain rfl | ⟨t'', hstep', hwalk⟩ := ReflTransGen.cases_head hwalk
          · exact absurd htrips.strays hstray
          · obtain rfl := hpass.unique hstep'.1
            exact ⟨t', hwalk, htrips⟩
    · have hsound : s.Sound := sound_of_stopped (s.next.resolve_left hgoes)
      refine iff_of_true hsound ?_
      rintro ⟨t, hwalk, htrips⟩
      obtain rfl | ⟨t', hstep, _⟩ := ReflTransGen.cases_head hwalk
      · exact hgoes htrips.passes
      · exact hgoes ⟨t', hstep.1⟩

/-! ## The whole command -/

theorem word_of_answer (h : s.answer = .literal j) (hargv : Expands s.words argv) :
    s.i ≤ j ∧ ∃ word, s.words[j - s.i]? = some (.literal word) ∧ argv[j - s.i]? = some word := by
  obtain ⟨t, hwalk, hcommand⟩ := answer_eq_literal.mp h
  clear h
  induction hwalk using ReflTransGen.head_induction_on generalizing argv with
  | refl =>
    cases hcommand with
    | operand hword =>
      cases hargv
      simp
    | ender hword =>
      cases hargv with
      | literal hargv =>
        cases hargv
        simp
  | head hpass _ ih =>
    have hskip : ∀ {i m : Nat} {k : Nat}, i + k ≤ m → m - i = m - (i + k) + k := by
      intro i m k hle
      omega
    cases hpass with
    | file hword | argument hword hvalue =>
      cases hargv with
      | literal hargv =>
        cases hargv with
        | literal hargv =>
          obtain ⟨hle, word, hw⟩ := ih hargv
          dsimp only at hle hw ⊢
          refine ⟨by omega, word, ?_⟩
          rw [hskip hle]
          exact hw
    | known hword | unknown hword | glued hword | cluster hword =>
      cases hargv with
      | literal hargv =>
        obtain ⟨hle, word, hw⟩ := ih hargv
        dsimp only at hle hw ⊢
        refine ⟨by omega, word, ?_⟩
        rw [hskip hle]
        exact hw

/-- An inline script is not overlooked: whatever the unknown words stand for,
a shell that sees a `-c` is not taken for one without a script, and a literal
script is the word that the shell runs. -/
def NotOverlooked (program : Text) (rest : List ShellWord) : Prop :=
  ∀ argv, Expands rest argv →
    ((readOptions 0 1 false argv).1 = true →
      shellDashCScript (.literal program :: rest) ≠ .notInline) ∧
    ∀ index, shellDashCScript (.literal program :: rest) = .literal index →
      readOptions 0 1 false argv = (true, .operand index) ∧
      ∃ word, (ShellWord.literal program :: rest)[index]? = some (.literal word) ∧
        (program :: argv)[index]? = some word

/-- A script is overlooked or mistaken just where a word strays that the
classifier gets to in step with the shell. -/
theorem notOverlooked_iff (program : Text) (rest : List ShellWord)
    (hshell : oneOf (basename program) supportedShells = true) :
    NotOverlooked program rest ↔
      ¬ ∃ s, ReflTransGen InStep ⟨1, false, false, rest⟩ s ∧ Trips s := by
  have hanswer : shellDashCScript (.literal program :: rest) =
      Scan.answer ⟨1, false, false, rest⟩ := by
    rw [shellDashCScript, hshell, if_pos rfl]
    rfl
  rw [← sound_iff]
  unfold NotOverlooked
  rw [hanswer]
  constructor
  · intro h argv hargv
    exact ⟨(h argv hargv).1, fun j hj => ((h argv hargv).2 j hj).1⟩
  · intro h argv hargv
    refine ⟨(h argv hargv).1, fun j hj => ⟨(h argv hargv).2 j hj, ?_⟩⟩
    obtain ⟨hle, word, hrest, hword⟩ := word_of_answer hj hargv
    obtain ⟨k, rfl⟩ := Nat.exists_eq_add_of_le' hle
    refine ⟨word, ?_, ?_⟩
    · rw [getElem?_cons_succ]
      exact hrest
    · rw [getElem?_cons_succ]
      exact hword

theorem notOverlooked_iff_plain :
    oneOf (basename "/bin/bash".toList) supportedShells = true ∧
    (NotOverlooked "/bin/bash".toList [.literal "-c".toList, .literal "ls".toList] ↔
      ¬ ∃ s, ReflTransGen InStep ⟨1, false, false, [.literal "-c".toList, .literal "ls".toList]⟩ s ∧
        Trips s) :=
  ⟨by decide, notOverlooked_iff _ _ (by decide)⟩

/-- `bash -Oc extglob 'rm -rf /'`. -/
def shoptBeforeC : List ShellWord :=
  [.literal "-Oc".toList, .literal "extglob".toList, .literal "rm -rf /".toList]

theorem overlooks_shoptBeforeC :
    shellDashCScript (.literal "bash".toList :: shoptBeforeC) = .notInline ∧
      ¬ NotOverlooked "bash".toList shoptBeforeC := by
  have hmissed : shellDashCScript (.literal "bash".toList :: shoptBeforeC) = .notInline := by
    decide
  refine ⟨hmissed, fun h => ?_⟩
  have hargv : Expands shoptBeforeC ["-Oc".toList, "extglob".toList, "rm -rf /".toList] :=
    .literal (.literal (.literal .nil))
  exact (h _ hargv).1 (by decide) hmissed

end GrokBuild.Permission
