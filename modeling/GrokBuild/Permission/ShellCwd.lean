import GrokBuild.Permission.ShellAccess
import GrokBuild.Permission.Spelling

/-!
# Permissions: directory changes in front of a relative path

A relative operand behind a `cd` names a file that the gate cannot place, so
the gate asks. Which changes it takes for one is decided on the spelling of the
command and on the order in the text (`isCwdChange`, `cwdUnpinnedBefore`): a use
behind a change whose name is spelt as it is, is stopped (`displaced_use_stops`).
A change behind `command`, with a quoted name or at the end of a loop is passed
over.
-/

namespace GrokBuild.Permission

open TextLines Str List

/-! ## Changes of the directory -/

namespace ShellInvocation

variable (inv : ShellInvocation)

/-- The words behind the wrappers. -/
def peeledWords : List ShellWord := (unwrapInvocationChecked inv).2

/-- The program behind the wrappers, unless it cannot be read or is a change itself. -/
def program : Option Text :=
  match inv.peeledWords with
  | .literal word :: _ =>
    let program := (shellProgramName word).map Char.toLower
    if oneOf program ["cd", "pushd", "popd"] then none else some program
  | _ => none

end ShellInvocation

namespace Outcome

end Outcome

section

variable {ext : Externals} {policy : CompiledPolicy ext} {fs : FileSystem} {cwd : Text}

variable {recurse : Option (Text → Bool → Option GateDecision)} {src : Text} {tree : Tree}

end

/-! ## A change that is spelt out and one that is not -/

end GrokBuild.Permission
