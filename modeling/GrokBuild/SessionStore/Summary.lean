import GrokBuild.Lib.LineLog
import GrokBuild.Lib.Register
import GrokBuild.Lib.Str

/-!
# Session storage: the summary

`persistence.rs` and `storage/summary_write.rs`: the summary of a session and
the partial updates that its writers apply to it under a lock.
-/

namespace GrokBuild.SessionStore

open TextLines Str LineLog Register

/-- A `usize`. -/
abbrev Usize := { n : Nat // n ≤ usizeMax }

theorem one_le_usizeMax : 1 ≤ usizeMax := by decide

def Usize.saturatingAdd (a b : Usize) : Usize := ⟨Str.saturatingAdd a b, min_le_right _ _⟩

/-- `DateTime<Utc>`, in nanoseconds since the epoch. -/
abbrev DateTime := Int

inductive ReasoningEffort where
  | none | minimal | low | medium | high | xhigh | max
  deriving DecidableEq

structure Info where
  id : Text
  cwd : Text
  deriving DecidableEq

structure PendingCwdSwitchReminder where
  cwdGeneration : Nat
  previousCwd : Text
  destinationCwd : Text
  content : Text
  destinationProjectInstructions : Option Text
  deriving DecidableEq

structure Summary where
  info : Info
  cwdGeneration : Nat := 0
  previousCwd : Option Text := none
  pendingCwdSwitchReminder : Option PendingCwdSwitchReminder := none
  cwdSwitchBookkeepingGeneration : Nat := 0
  sessionSummary : Text
  createdAt : DateTime
  updatedAt : DateTime
  numMessages : Usize
  numChatMessages : Usize
  currentModelId : Text
  parentSessionId : Option Text := none
  forkedAt : Option DateTime := none
  collectionId : Option Text := none
  nextTraceTurn : Nat := 0
  chatFormatVersion : Nat := 0
  promptDisplayCwd : Option Text := none
  sessionKind : Option Text := none
  forkContextSource : Option Text := none
  forkParentPromptId : Option Text := none
  inheritedPrefixLen : Option Nat := none
  hidden : Option Bool := none
  sourceWorkspaceDir : Option Text := none
  gitRootDir : Option Text := none
  gitRemotes : List Text := []
  headCommit : Option Text := none
  headBranch : Option Text := none
  requestId : Option Text := none
  grokHome : Option Text := none
  lastActiveAt : Option DateTime := none
  generatedTitle : Option Text := none
  titleIsManual : Bool := false
  worktreeLabel : Option Text := none
  agentName : Option Text := none
  sandboxProfile : Option Text := none
  reasoningEffort : Option ReasoningEffort := none
  deriving DecidableEq

inductive CounterOp where
  | increment (n : Usize)
  | set (n : Usize)
  deriving DecidableEq

def CounterOp.apply : CounterOp → Usize → Usize
  | .increment n, current => current.saturatingAdd n
  | .set n, _ => n

structure ModelPatch where
  modelId : Text
  agentName : Option Text
  reasoningEffort : Option (Option ReasoningEffort)
  deriving DecidableEq

structure GitHeadPatch where
  commit : Option Text
  branch : Option Text
  deriving DecidableEq

structure TraceTurnPatch where
  nextTraceTurn : Nat
  requestId : Option Text
  deriving DecidableEq

structure SummaryPatch where
  recordActivity : Bool := false
  messages : Option CounterOp := none
  chatMessages : Option CounterOp := none
  chatFormatVersion : Option Nat := none
  traceTurn : Option TraceTurnPatch := none
  model : Option ModelPatch := none
  gitHead : Option GitHeadPatch := none
  collectionId : Option Text := none
  generatedTitle : Option Text := none
  generatedTitleIfAbsent : Option Text := none
  cwdSwitchBookkeepingGeneration : Option Nat := none
  deriving DecidableEq

namespace Summary

def displayTitle (s : Summary) : Text :=
  ((s.generatedTitle.map trim).filter (· ≠ [])).getD s.sessionSummary

def setTitle (s : Summary) (title : Text) : Summary :=
  { s with
    generatedTitle := some title
    sessionSummary := if s.sessionSummary = [] then title else s.sessionSummary }

/-! The parts of `apply_patch`, in its order. An assignment under a condition
is an assignment of a value that depends on the condition. -/

def applyActivity (s : Summary) (recordActivity : Bool) (now : DateTime) : Summary :=
  { s with
    lastActiveAt :=
      if recordActivity then some ((s.lastActiveAt.map (max · now)).getD now)
      else s.lastActiveAt }

/-- A counter behind one part of a patch. -/
def countWith (op : Option CounterOp) (n : Usize) : Usize :=
  match op with
  | none => n
  | some op => op.apply n

def applyCounters (s : Summary) (messages chatMessages : Option CounterOp) : Summary :=
  { s with
    numMessages := countWith messages s.numMessages
    numChatMessages := countWith chatMessages s.numChatMessages }

def applyChatFormatVersion (s : Summary) (version : Option Nat) : Summary :=
  { s with
    chatFormatVersion :=
      match version with
      | none => s.chatFormatVersion
      | some version => max s.chatFormatVersion version }

/-- Does the patch raise the generation? -/
def raises (s : Summary) : Option Nat → Bool
  | none => false
  | some generation => generation > s.cwdSwitchBookkeepingGeneration

/-- A patch without a chat counter of its own repairs a line that was not
counted. -/
def applyGeneration (s : Summary) (generation : Option Nat) (chatMessages : Option CounterOp) :
    Summary :=
  { s with
    cwdSwitchBookkeepingGeneration :=
      if s.raises generation then generation.getD 0 else s.cwdSwitchBookkeepingGeneration
    numChatMessages :=
      if s.raises generation ∧ chatMessages = none then
        s.numChatMessages.saturatingAdd ⟨1, by decide⟩
      else s.numChatMessages }

/-- The turn and the request id that is paired with it. -/
def trace (s : Summary) : Ranked Nat Text := ⟨s.nextTraceTurn, s.requestId⟩

/-- The turn and the request id behind one part of a patch. -/
def traceWith (s : Summary) : Option TraceTurnPatch → Ranked Nat Text
  | none => s.trace
  | some turn =>
    if turn.nextTraceTurn ≥ s.nextTraceTurn then
      ⟨turn.nextTraceTurn, turn.requestId.or s.requestId⟩
    else s.trace

def applyTraceTurn (s : Summary) (turn : Option TraceTurnPatch) : Summary :=
  { s with nextTraceTurn := (s.traceWith turn).rank, requestId := (s.traceWith turn).value }

def applyModel (s : Summary) (model : Option ModelPatch) : Summary :=
  { s with
    currentModelId := (model.map (·.modelId)).getD s.currentModelId
    agentName := (model.bind (·.agentName)).or s.agentName
    reasoningEffort := (model.bind (·.reasoningEffort)).getD s.reasoningEffort }

def applyGitHead (s : Summary) (head : Option GitHeadPatch) : Summary :=
  { s with
    headCommit := (head.map (·.commit)).getD s.headCommit
    headBranch := (head.map (·.branch)).getD s.headBranch }

def applyCollectionId (s : Summary) (id : Option Text) : Summary :=
  { s with collectionId := id.or s.collectionId }

/-- The rules for titles; says whether an automatic title was taken. -/
def applyTitle (s : Summary) : (manual automatic : Option Text) → Summary × Bool
  | some title, _ => ({ s.setTitle title with titleIsManual := true }, false)
  | none, some title =>
    if trim s.displayTitle = [] then ({ s.setTitle title with titleIsManual := false }, true)
    else (s, false)
  | none, none => (s, false)

/-- `apply_patch` in front of the rules for titles. -/
def applyFields (s : Summary) (patch : SummaryPatch) (now : DateTime) : Summary :=
  let s := s.applyActivity patch.recordActivity now
  let s := s.applyCounters patch.messages patch.chatMessages
  let s := s.applyChatFormatVersion patch.chatFormatVersion
  let s := s.applyGeneration patch.cwdSwitchBookkeepingGeneration patch.chatMessages
  let s := s.applyTraceTurn patch.traceTurn
  let s := s.applyModel patch.model
  let s := s.applyGitHead patch.gitHead
  s.applyCollectionId patch.collectionId

def setUpdatedAt (s : Summary) (now : DateTime) : Summary := { s with updatedAt := now }

def applyPatch (s : Summary) (patch : SummaryPatch) (now : DateTime) : Summary × Bool :=
  let (s, absentTitleApplied) :=
    (s.applyFields patch now).applyTitle patch.generatedTitle patch.generatedTitleIfAbsent
  (s.setUpdatedAt now, absentTitleApplied)

end Summary

/-! ## The file -/

/-- How the step of a call under the lock goes: a fault of `open_lock_file`,
`lock_exclusive`, the read or the write, or none. -/
inductive Fault where
  | none | lock | read | write
  deriving DecidableEq

/-- `summary.json`, if it exists. -/
abbrev Disk := Option Bytes

def readSummary (codec : Codec Summary) (disk : Disk) : Option Summary :=
  match disk with
  | none => none
  | some bytes => if bytes = [] then none else codec.decode bytes

/-- `read_modify_write`: `none` is an error. A write that fails leaves the
file, for it writes beside it and renames. -/
def readModifyWrite (codec : Codec Summary) (disk : Disk) (patch : SummaryPatch) (now : DateTime)
    (fault : Fault) : Option Bool × Disk :=
  if fault = .read then (none, disk)
  else match readSummary codec disk with
    | none => (none, disk)
    | some summary =>
      let (summary, absentTitleApplied) := summary.applyPatch patch now
      if fault = .write then (none, disk)
      else (some absentTitleApplied, some (codec.encode summary))

def applyPatchLocked (codec : Codec Summary) (disk : Disk) (patch : SummaryPatch) (now : DateTime)
    (fault : Fault) : Option Bool × Disk :=
  if fault = .lock then (none, disk) else readModifyWrite codec disk patch now fault

end GrokBuild.SessionStore
