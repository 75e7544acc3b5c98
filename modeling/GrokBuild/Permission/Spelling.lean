import GrokBuild.Lib.Quoting
import GrokBuild.Permission.Policy

/-!
# Permissions: the words of a command and the arguments of the shell

The rules match the words that `parse_plain_command_from_node` reads off the
tree; the shell passes the spelled words after quote removal. For a tree that
is a correct parse of the script, the two agree exactly when every word is
spelt literally and none stands behind a redirect (`words_eq_argv_iff`): a
word, a number, a concatenation and a command name are taken as they are
spelt, a double-quoted string keeps its escapes, and the grammar hangs a word
behind the target of a redirect under the redirect, where nothing reads it.
-/

namespace GrokBuild.Permission

open TextLines Str Quoting List Option

/-! ## The arguments that the shell passes -/

/-- The argument that a named child of a command stands for, if it is not an
assignment in front of the command. -/
def argvWord (src : Text) (child : Node) : Option Text :=
  if child.kind = "variable_assignment" then none
  else some (removeQuotes .plain (child.utf8Text src))

/-- The kinds of a word. -/
def wordKinds : List String :=
  ["word", "string", "raw_string", "translated_string", "ansi_c_string", "number", "concatenation",
   "expansion", "simple_expansion", "command_substitution", "process_substitution",
   "arithmetic_expansion", "brace_expression"]

/-- What stands behind the target of a redirect. -/
def behindTarget (redirect : Node) : List Node :=
  (redirect.namedChildren.filter fun child => child.kind ≠ "file_descriptor").drop 1

/-- The words that a child of a command, or a redirect behind it, adds to the command. -/
def argNodes (child : Node) : List Node :=
  if child.kind = "file_redirect" then behindTarget child
  else if child.kind = "heredoc_redirect" then
    -- words and redirects can follow the delimiter, up to the end of the line
    child.namedChildren.flatMap fun n =>
      if n.kind = "file_redirect" then behindTarget n
      else if n.kind ∈ wordKinds then [n] else []
  else if child.kind = "herestring_redirect" then []
  else [child]

def childArgv (src : Text) (child : Node) : List Text := (argNodes child).filterMap (argvWord src)

def redirectKinds : List String := ["file_redirect", "heredoc_redirect", "herestring_redirect"]

/-- The command that a statement redirects: the last one in front of the redirects. -/
def redirectedCommand (statement : Node) : Option Node :=
  (statement.namedChildren.find? fun child => child.kind ∉ redirectKinds).bind fun body =>
    body.walk.find? fun n => n.isNamed && n.kind == "command"

/-- The redirects behind a command, the innermost statement first. -/
def Tree.redirectsOf (tree : Tree) (cmd : Node) : List Node :=
  (tree.root.walk.reverse.filter fun statement =>
    statement.kind == "redirected_statement" && (redirectedCommand statement).any fun n =>
      n.startByte == cmd.startByte && n.endByte == cmd.endByte).flatMap fun statement =>
        statement.namedChildren.filter fun child => child.kind ∈ redirectKinds

/-- The arguments that stand behind the redirects of a command. -/
def redirectedArgv (src : Text) (tree : Tree) (cmd : Node) : List Text :=
  (tree.redirectsOf cmd).flatMap (childArgv src)

def argvOf (src : Text) (tree : Tree) (cmd : Node) : List Text :=
  cmd.namedChildren.flatMap (childArgv src) ++ redirectedArgv src tree cmd

/-- A child of a command is what its kind says it is. -/
structure CorrectChild (src : Text) (child : Node) : Prop where
  /-- A command name is the one word in it. -/
  name : child.kind = "command_name" → ∀ word ∈ child.namedChildren.head?,
    word.utf8Text src = child.utf8Text src
  /-- Quotes are closed inside a word. -/
  word : child.kind ∈ ["command_name", "word", "number", "concatenation"] →
    closed .plain (child.utf8Text src) = true
  /-- A string without expansions is its content between double quotes. -/
  string : child.kind = "string" → ∀ q content q', child.children = [q, content, q'] →
    child.utf8Text src = '"' :: content.utf8Text src ++ ['"'] ∧
      closedDouble (content.utf8Text src) = true
  /-- A raw string has no single quote inside. -/
  rawString : child.kind = "raw_string" →
    ∃ body, child.utf8Text src = '\'' :: body ++ ['\''] ∧ '\'' ∉ body

/-- The tree is a correct parse of the script, as far as the words of its
commands go. -/
def Tree.Correct (src : Text) (tree : Tree) : Prop :=
  ∀ cmd ∈ commandNodes tree, ∀ child ∈ cmd.namedChildren, CorrectChild src child

/-- The child is spelt as the argument that it stands for, but for the quotes
around a whole word. -/
def LiteralSpelling (src : Text) (child : Node) : Prop :=
  if child.kind = "variable_assignment" ∨ child.kind = "raw_string" then True
  else if child.kind = "string" then
    ∀ content ∈ child.children[1]?, keepsBackslashes (content.utf8Text src) = true
  else unquoted (child.utf8Text src) = true

/-- The words of a command are spelt literally, and none stands behind a redirect. -/
def Literal (src : Text) (tree : Tree) (cmd : Node) : Prop :=
  (∀ child ∈ cmd.namedChildren, LiteralSpelling src child) ∧ redirectedArgv src tree cmd = []

/-! ## One word -/

theorem stripSingleQuotes_quoted (body : Text) :
    stripSingleQuotes ('\'' :: body ++ ['\'']) = some body := by
  simp [stripSingleQuotes]

variable {src : Text} {tree : Tree}

theorem childArgv_of_pieces {child : Node} {pieces : List Piece}
    (h : childPieces src child = some pieces) : childArgv src child = (argvWord src child).toList := by
  have hkind : child.kind ≠ "file_redirect" ∧ child.kind ≠ "heredoc_redirect" ∧
      child.kind ≠ "herestring_redirect" := by
    refine ⟨?_, ?_, ?_⟩ <;> intro hkind <;> simp [childPieces, hkind] at h
  rw [childArgv, argNodes, if_neg hkind.1, if_neg hkind.2.1, if_neg hkind.2.2, filterMap_cons]
  cases argvWord src child <;> rfl

/-- What a child adds to the words is its argument exactly when it is spelt
literally. In any case it adds as many words as arguments. -/
theorem childPieces_spec {child : Node} {pieces : List Piece} (hcorrect : CorrectChild src child)
    (h : childPieces src child = some pieces) :
    pieces.length = (childArgv src child).length ∧
      (pieces.map (·.text) = childArgv src child ↔ LiteralSpelling src child) := by
  rw [childArgv_of_pieces h]
  unfold childPieces at h
  split at h
  · rename_i hkind
    cases h
    simp [argvWord, LiteralSpelling, hkind]
  rename_i hassignment
  simp only [argvWord, hassignment, if_false, toList_some, length_singleton]
  have spelt : ∀ piece : Piece, piece.text = child.utf8Text src →
      closed .plain (child.utf8Text src) = true →
      ([piece].map (·.text) = [removeQuotes .plain (child.utf8Text src)] ↔
        unquoted (child.utf8Text src) = true) := by
    intro piece htext hclosed
    rw [← removeQuotes_eq_self hclosed, map_singleton, htext, List.cons.injEq]
    simp [eq_comm]
  split at h
  · -- the name of the command
    rename_i hkind
    unfold commandNamePiece at h
    cases hwords : child.namedChildren with
    | nil => simp [hwords] at h
    | cons word rest =>
      rw [hwords] at h
      simp only at h
      split at h
      · cases h
        have hsame := hcorrect.name hkind word (by simp [hwords])
        have hclosed := hcorrect.word (by simp [hkind])
        refine ⟨rfl, ?_⟩
        rw [spelt _ hsame hclosed]
        simp [LiteralSpelling, hkind]
      · cases h
  split at h
  · rename_i hkind
    cases h
    have hclosed := hcorrect.word (by rcases hkind with hkind | hkind <;> simp [hkind])
    refine ⟨rfl, ?_⟩
    rw [spelt _ rfl hclosed]
    rcases hkind with hkind | hkind <;> simp [LiteralSpelling, hkind]
  split at h
  · -- between double quotes
    rename_i hkind
    unfold stringPiece at h
    split at h
    · rename_i q content q' hchildren
      obtain ⟨htext, hclosed⟩ := hcorrect.string hkind q content q' hchildren
      split at h
      · cases h
        rw [htext, removeQuotes_double hclosed]
        refine ⟨rfl, ?_⟩
        simp only [map_singleton, List.cons.injEq, and_true]
        rw [eq_comm, removeDouble_eq_self]
        simp [LiteralSpelling, hkind, hchildren]
      · cases h
    · cases h
  split at h
  · -- between single quotes
    rename_i hkind
    obtain ⟨body, htext, hbody⟩ := hcorrect.rawString hkind
    rw [rawStringPiece, htext, stripSingleQuotes_quoted] at h
    cases h
    rw [htext, removeQuotes_single hbody]
    exact ⟨rfl, by simp [LiteralSpelling, hkind]⟩
  split at h
  · rename_i hkind
    cases h
    have hclosed := hcorrect.word (by simp [hkind])
    refine ⟨rfl, ?_⟩
    rw [spelt _ rfl hclosed]
    simp [LiteralSpelling, hkind]
  · cases h

/-! ## One command -/

theorem piecesOf_spec {children : List Node} {pieces : List Piece}
    (hcorrect : ∀ child ∈ children, CorrectChild src child) (h : piecesOf src children = some pieces) :
    pieces.length = (children.flatMap (childArgv src)).length ∧
      (pieces.map (·.text) = children.flatMap (childArgv src) ↔
        ∀ child ∈ children, LiteralSpelling src child) := by
  induction children generalizing pieces with
  | nil =>
    cases h
    simp
  | cons child rest ih =>
    rw [piecesOf] at h
    split at h
    · cases h
    rename_i first hfirst
    obtain ⟨others, hothers, rfl⟩ := map_eq_some_iff.mp h
    obtain ⟨hlength, hhead⟩ := childPieces_spec (hcorrect child mem_cons_self) hfirst
    obtain ⟨hlengths, htail⟩ :=
      ih (fun child hmem => hcorrect child (mem_cons_of_mem _ hmem)) hothers
    rw [flatMap_cons, map_append]
    constructor
    · rw [length_append, length_append, hlength, hlengths]
    · rw [forall_mem_cons, ← hhead, ← htail]
      constructor
      · -- as many words as arguments, so the lists agree piece by piece
        intro heq
        exact append_inj heq (by rw [length_map, hlength])
      · intro ⟨hfirst, hrest⟩
        rw [hfirst, hrest]

theorem parsePlainCommand_spec {cmd : Node} {parsed : PlainCommand}
    (hcorrect : ∀ child ∈ cmd.namedChildren, CorrectChild src child)
    (h : parsePlainCommandFromNode src cmd = some parsed) :
    parsed.words = argvOf src tree cmd ↔ Literal src tree cmd := by
  unfold parsePlainCommandFromNode at h
  split at h
  · cases h
  · obtain ⟨pieces, hpieces, rfl⟩ := map_eq_some_iff.mp h
    obtain ⟨hlength, hspelt⟩ := piecesOf_spec hcorrect hpieces
    rw [argvOf, Literal, ← hspelt]
    constructor
    · intro heq
      -- there are as many words as arguments in front of the redirects
      have hall := congrArg List.length heq
      rw [length_map, hlength, length_append] at hall
      have hnone := length_eq_zero_iff.mp (show (redirectedArgv src tree cmd).length = 0 by omega)
      rw [hnone, append_nil] at heq
      exact ⟨heq, hnone⟩
    · rintro ⟨heq, hnone⟩
      rw [hnone, append_nil]
      exact heq

/-! ## A whole script -/

theorem mapM_parse_spec {nodes : List Node} {commands : List PlainCommand}
    (hcorrect : ∀ cmd ∈ nodes, ∀ child ∈ cmd.namedChildren, CorrectChild src child)
    (h : nodes.mapM (parsePlainCommandFromNode src) = some commands) :
    commands.map (·.words) = nodes.map (argvOf src tree) ↔
      ∀ cmd ∈ nodes, Literal src tree cmd := by
  induction nodes generalizing commands with
  | nil =>
    cases h
    simp
  | cons cmd nodes ih =>
    rw [mapM_cons] at h
    simp only [bind_eq_bind, bind_eq_some_iff, Option.pure_def,
      some.injEq] at h
    obtain ⟨parsed, hparsed, rest, hrest, rfl⟩ := h
    have hcmd : parsed.words = argvOf src tree cmd ↔ Literal src tree cmd :=
      parsePlainCommand_spec (hcorrect cmd mem_cons_self) hparsed
    have htail := ih (fun cmd hmem => hcorrect cmd (mem_cons_of_mem _ hmem)) hrest
    rw [map_cons, map_cons, List.cons.injEq, hcmd, htail, forall_mem_cons]

/-- For every script that decomposes, over a correct parse: the words of all
its commands are the arguments that the shell passes exactly when every word
of every command is spelt literally and none stands behind a redirect. -/
theorem words_eq_argv_iff (tryParseShell : Text → Option Tree) {script : Text} {tree : Tree}
    {commands : List PlainCommand} (hparse : tryParseShell script = some tree)
    (hcorrect : tree.Correct script)
    (hcommands : allCommandsFromScript tryParseShell script = some commands) :
    commands.map (·.words) = (commandNodes tree).map (argvOf script tree) ↔
      ∀ cmd ∈ commandNodes tree, Literal script tree cmd := by
  simp only [allCommandsFromScript, hparse, tryParseWordOnlyCommandsSequence] at hcommands
  split at hcommands
  · cases hcommands
  split at hcommands
  · exact mapM_parse_spec hcorrect hcommands
  · cases hcommands

/-- A script of five characters as the grammar sees it, when it is a name of
three characters and a word of one. -/
def twoWordTree : Tree where
  hasError := false
  root := .mk "program" true 0 5 [.mk "command" true 0 5
    [.mk "command_name" true 0 3 [.mk "word" true 0 3 []], .mk "word" true 4 5 []]]

theorem twoWordTree_correct (hname : closed .plain (src.take 3) = true)
    (hword : closed .plain ((src.drop 4).take 1) = true) : twoWordTree.Correct src := by
  have hnodes : commandNodes twoWordTree = [.mk "command" true 0 5
      [.mk "command_name" true 0 3 [.mk "word" true 0 3 []], .mk "word" true 4 5 []]] := rfl
  intro cmd hcmd child hchild
  rw [hnodes, mem_singleton] at hcmd
  subst hcmd
  have hchildren : child = .mk "command_name" true 0 3 [.mk "word" true 0 3 []] ∨
      child = .mk "word" true 4 5 [] := by
    simpa [Node.children] using mem_of_mem_filter hchild
  rcases hchildren with rfl | rfl
  · refine ⟨?_, fun _ => hname, ?_, ?_⟩
    · intro _ word hword
      cases hword
      rfl
    · simp [Node.kind]
    · simp [Node.kind]
  · refine ⟨?_, fun _ => hword, ?_, ?_⟩ <;> simp [Node.kind]

/-- `git x` is spelt literally, and its words are its arguments. -/
theorem words_eq_argv_git :
    ([⟨["git".toList, "x".toList], 0, 5⟩] : List PlainCommand).map (·.words) =
        (commandNodes twoWordTree).map (argvOf "git x".toList twoWordTree) ↔
      ∀ cmd ∈ commandNodes twoWordTree, Literal "git x".toList twoWordTree cmd :=
  words_eq_argv_iff (fun _ => some twoWordTree) rfl
    (twoWordTree_correct (by decide) (by decide)) (by decide)

/-- In `r\m x` the shell runs `rm`, and the rules see `r\m`. -/
theorem escaped_name_differs :
    twoWordTree.Correct "r\\m x".toList ∧
      allCommandsFromScript (fun _ => some twoWordTree) "r\\m x".toList =
        some [⟨["r\\m".toList, "x".toList], 0, 5⟩] ∧
      (commandNodes twoWordTree).map (argvOf "r\\m x".toList twoWordTree) =
        [["rm".toList, "x".toList]] :=
  ⟨twoWordTree_correct (by decide) (by decide), by decide, by decide⟩

/-- `rm >o -rf /`, of which the rules see `rm`. -/
example :
    let tree : Tree := ⟨.mk "program" true 0 11 [.mk "redirected_statement" true 0 11
      [.mk "command" true 0 2 [.mk "command_name" true 0 2 [.mk "word" true 0 2 []]],
        .mk "file_redirect" true 3 11 [.mk ">" false 3 4 [], .mk "word" true 4 5 [],
          .mk "word" true 6 9 [], .mk "word" true 10 11 []]]], false⟩
    allCommandsFromScript (fun _ => some tree) "rm >o -rf /".toList =
        some [⟨["rm".toList], 0, 2⟩] ∧
      (commandNodes tree).map (argvOf "rm >o -rf /".toList tree) =
        [["rm".toList, "-rf".toList, "/".toList]] := by decide

end GrokBuild.Permission
