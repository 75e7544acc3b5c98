import GrokBuild.Lib.Str

/-!
# Permissions: the commands of a script

How `bash_command_splitting.rs` walks the tree that the bash grammar gives
for a script. The tree is data here: the parser itself is not part of the
repository. Offsets into the source count characters where the program
counts bytes; they are only compared and used to slice.
-/

namespace GrokBuild.Permission

open TextLines Str

/-- A node of the tree: `kind`, `is_named`, `start_byte`, `end_byte` and the
children. -/
inductive Node where
  | mk (kind : String) (named : Bool) (startByte endByte : Nat) (children : List Node)

namespace Node

def kind : Node → String
  | .mk kind .. => kind

def isNamed : Node → Bool
  | .mk _ named .. => named

def startByte : Node → Nat
  | .mk _ _ start .. => start

def endByte : Node → Nat
  | .mk _ _ _ stop _ => stop

def children : Node → List Node
  | .mk _ _ _ _ children => children

def namedChildren (n : Node) : List Node := n.children.filter isNamed

/-- `utf8_text`. -/
def utf8Text (src : Text) (n : Node) : Text :=
  (src.drop n.startByte).take (n.endByte - n.startByte)

mutual

/-- The nodes in the order in which the loop of
`try_parse_word_only_commands_sequence` takes them off its stack: a node,
then its last child with all below it, and so on. -/
def walk : Node → List Node
  | .mk kind named start stop children => .mk kind named start stop children :: walkAll children

def walkAll : List Node → List Node
  | [] => []
  | child :: rest => walkAll rest ++ walk child

end

end Node

/-- A tree with the `has_error` flag of its root. -/
structure Tree where
  root : Node
  hasError : Bool

def allowedKinds : List String :=
  ["program", "list", "pipeline", "command", "command_name", "word", "string",
   "string_content", "raw_string", "number", "concatenation", "variable_assignment",
   "variable_name", "redirected_statement", "file_redirect", "file_descriptor", "comment",
   "heredoc_redirect", "heredoc_start", "heredoc_body", "heredoc_content", "heredoc_end"]

def allowedPunctTokens : List String :=
  ["&&", "||", ";", "|", "\"", "'", "=", ">", ">>", "<", "<<", ">&", "&>", "&>>"]

/-- One turn of the walk: is the node let through? -/
def nodeAllowed (n : Node) : Bool :=
  if n.isNamed then allowedKinds.contains n.kind
  else if (n.kind.toList.any fun c => "&;|".toList.contains c)
      && !allowedPunctTokens.contains n.kind then false
  else allowedPunctTokens.contains n.kind || (trim n.kind.toList).isEmpty

structure PlainCommand where
  words : List Text
  spanStart : Nat
  spanEnd : Nat
  deriving DecidableEq

/-- A word of a command with the span that is highlighted for it. -/
structure Piece where
  text : Text
  spanStart : Nat
  spanEnd : Nat
  deriving DecidableEq

/-- The whole node as it is spelt. -/
def Piece.spelt (src : Text) (n : Node) : Piece := ⟨n.utf8Text src, n.startByte, n.endByte⟩

/-- The `command_name` arm: its first named child, when that is a word. -/
def commandNamePiece (src : Text) (child : Node) : Option Piece :=
  match child.namedChildren with
  | [] => none
  | word :: _ => if word.kind = "word" then some (.spelt src word) else none

/-- The `string` arm: only a quote, plain content and a quote. -/
def stringPiece (src : Text) (child : Node) : Option Piece :=
  match child.children with
  | [open_, content, close] =>
    if open_.kind = "\"" ∧ content.kind = "string_content" ∧ close.kind = "\"" then
      some ⟨content.utf8Text src, child.startByte, child.endByte⟩
    else none
  | _ => none

/-- `strip_prefix('\'')` and then `strip_suffix('\'')`. -/
def stripSingleQuotes (text : Text) : Option Text :=
  match text with
  | '\'' :: rest => if rest.getLast? = some '\'' then some rest.dropLast else none
  | _ => none

/-- The `raw_string` arm. -/
def rawStringPiece (src : Text) (child : Node) : Option Piece :=
  (stripSingleQuotes (child.utf8Text src)).map fun s => ⟨s, child.startByte, child.endByte⟩

/-- What one named child of a `command` adds to its words; nothing at all
for a node that a plain command cannot have. -/
def childPieces (src : Text) (child : Node) : Option (List Piece) :=
  if child.kind = "variable_assignment" then some []
  else if child.kind = "command_name" then (commandNamePiece src child).map ([·])
  else if child.kind = "word" ∨ child.kind = "number" then some [.spelt src child]
  else if child.kind = "string" then (stringPiece src child).map ([·])
  else if child.kind = "raw_string" then (rawStringPiece src child).map ([·])
  else if child.kind = "concatenation" then some [.spelt src child]
  else none

/-- The loop of `parse_plain_command_from_node`. -/
def piecesOf (src : Text) : List Node → Option (List Piece)
  | [] => some []
  | child :: rest =>
    match childPieces src child with
    | none => none
    | some pieces => (piecesOf src rest).map (pieces ++ ·)

def parsePlainCommandFromNode (src : Text) (cmd : Node) : Option PlainCommand :=
  if cmd.kind ≠ "command" then none
  else (piecesOf src cmd.namedChildren).map fun pieces =>
    { words := pieces.map (·.text)
      spanStart := (pieces.head?.map (·.spanStart)).getD cmd.startByte
      spanEnd := (pieces.getLast?.map (·.spanEnd)).getD cmd.endByte }

/-- The `command` nodes of a tree in the order of the source. -/
def commandNodes (tree : Tree) : List Node :=
  (tree.root.walk.filter fun n => n.isNamed && n.kind == "command").insertionSort
    fun a b => a.startByte ≤ b.startByte

def tryParseWordOnlyCommandsSequence (tree : Tree) (src : Text) : Option (List PlainCommand) :=
  if tree.hasError then none
  else if tree.root.walk.all nodeAllowed then
    (commandNodes tree).mapM (parsePlainCommandFromNode src)
  else none

/-- `all_commands_from_script`, for the given `try_parse_shell`. -/
def allCommandsFromScript (tryParseShell : Text → Option Tree) (script : Text) :
    Option (List PlainCommand) :=
  match tryParseShell script with
  | none => none
  | some tree => tryParseWordOnlyCommandsSequence tree script

end GrokBuild.Permission
