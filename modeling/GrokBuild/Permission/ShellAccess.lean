import Mathlib.Data.List.Sort
import GrokBuild.Permission.Policy

/-!
# Permissions: the files that a shell command touches

`shell_access.rs`: the readers, writers and redirects of a script, the words
they are given, and the gate that asks about a path that a rule restricts. The
file system and the grammar come from outside. As in `Parse`, offsets count
characters, and a node keeps no link to its parent: a walk carries the nodes
above it (`Place`).
-/

namespace GrokBuild.Permission

open TextLines Str

/-! ## Places in the tree -/

/-- A node, its next sibling, and the nodes above it with theirs, innermost first. -/
structure Place where
  node : Node
  next : Option Node
  above : List (Node × Option Node)

namespace Node

mutual

/-- The nodes in the order of the stack that each of the walks keeps. -/
def places : Node → Option Node → List (Node × Option Node) → List Place
  | .mk kind named start stop children, next, above =>
    ⟨.mk kind named start stop children, next, above⟩ ::
      placesAll children ((.mk kind named start stop children, next) :: above)

def placesAll : List Node → List (Node × Option Node) → List Place
  | [], _ => []
  | child :: rest, above => placesAll rest above ++ places child rest.head? above

end

end Node

/-- Every node of a tree. -/
def Tree.places (tree : Tree) : List Place := tree.root.places none []

structure ExecutionScope where
  start : Nat
  stop : Nat
  deriving DecidableEq

def ExecutionScope.contains (s t : ExecutionScope) : Bool := s.start ≤ t.start && s.stop ≥ t.stop

def shellProgramName (word : Text) : Text := basename word

/-- `as_bytes()` starts with an ASCII letter and a colon, or whatever test stands for the letter. -/
def hasColonAfter (test : Char → Bool) : Text → Bool
  | c :: ':' :: _ => test c
  | _ => false

structure ShellInvocation where
  startByte : Nat
  scope : ExecutionScope
  words : List ShellWord
  wrapperWords : List Text

/-- `unwrap_invocation_checked`: what is peeled off, and the words that are left. -/
def unwrapInvocationChecked (inv : ShellInvocation) : Peel × List ShellWord :=
  let norm := normalizeCommandWords inv.wrapperWords
  (norm, inv.words.drop (inv.wrapperWords.length - norm.words.length))

/-! ## Which words are files -/

def isAbsoluteShellPath (path : Text) : Bool :=
  startsWith path "/" || startsWith path "~/" || hasColonAfter (fun c => c.utf8Size == 1) path

/-- `trim_matches(['"', '\''])` -/
def trimQuotes (path : Text) : Text :=
  let isQuote := fun c => c == '"' || c == '\''
  ((path.dropWhile isQuote).reverse.dropWhile isQuote).reverse

def normalizeShellPathRaw (path : Text) : Text :=
  let p := (trimQuotes path).map fun c => if c = '\\' then '/' else c
  match stripPrefix p "/c/" with
  | some rest => "C:/".toList ++ rest
  | none => p

/-- The loop of `lexical_normalize`; `out` has the last segment first. -/
def collapseSegments (absolute : Bool) : List Text → List Text → List Text
  | out, [] => out.reverse
  | out, segment :: rest =>
    if segment = [] ∨ segment = ".".toList then collapseSegments absolute out rest
    else if segment = "..".toList then
      match out with
      | last :: above =>
        if last ≠ "..".toList then collapseSegments absolute above rest
        else if absolute then collapseSegments absolute out rest
        else collapseSegments absolute (segment :: out) rest
      | [] => if absolute then collapseSegments absolute out rest
          else collapseSegments absolute (segment :: out) rest
    else collapseSegments absolute (segment :: out) rest

def lexicalNormalize (path : Text) : Text :=
  let drive := if hasColonAfter (fun c => c.utf8Size == 1) path then path.take 2 else []
  let rest := path.drop drive.length
  let absolute := startsWith rest "/"
  let body := ['/'].intercalate (collapseSegments absolute [] (rest.splitOn '/'))
  drive ++ (if absolute then ['/'] else []) ++ body

def normalizeShellPath (path : Text) : Text := lexicalNormalize (normalizeShellPathRaw path)

/-- `Path::join`. -/
def joinPath (a b : Text) : Text :=
  if startsWith b "/" then b
  else if a = [] ∨ a.getLast? = some '/' then a ++ b
  else a ++ '/' :: b

namespace FileSystem

variable (fs : FileSystem)

end FileSystem

/-- What a part of the check adds to the decision, in order, and whether it forces an Ask. -/
structure Outcome where
  decisions : List (Option GateDecision)
  forcedAsk : Bool

namespace Outcome

def none : Outcome := ⟨[], false⟩

def ask : Outcome := ⟨[], true⟩

def append (a b : Outcome) : Outcome := ⟨a.decisions ++ b.decisions, a.forcedAsk || b.forcedAsk⟩

def all : List Outcome → Outcome
  | [] => none
  | o :: rest => o.append (all rest)

end Outcome

namespace CompiledPolicy

variable {ext : Externals} (policy : CompiledPolicy ext) (fs : FileSystem) (cwd : Text)

/-- The operand in the working directory of the session. -/
def absolutePath (token : Text) : Text :=
  let path := normalizeShellPath token
  if isAbsoluteShellPath path then path else normalizeShellPath (joinPath cwd path)

end CompiledPolicy

end GrokBuild.Permission
