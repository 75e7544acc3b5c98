import Mathlib.Logic.Relation
import GrokBuild.HunkTracker.Mutations
import GrokBuild.HunkTracker.Actions

/-!
# Hunk tracker: the command loop

`handle_command`, the coalescing of queued commands into one batch, and the
states an actor can reach. The loop of `run` handles a command on its own,
or, when the command can be coalesced, together with everything queued
behind it; `Step` has one constructor for each.
-/

namespace GrokBuild.HunkTracker

open TextLines Str EditScript

namespace Actor

/-! ## Snapshots -/

def takeSnapshot (a : Actor) : HunkTrackerSnapshot where
  fileStates := a.fileStates
  turnIndex := a.turnIndex
  sessionStats := a.sessionStats

def restoreSnapshot (a : Actor) (s : HunkTrackerSnapshot) : Actor :=
  { a with fileStates := s.fileStates, turnIndex := s.turnIndex, sessionStats := s.sessionStats }

/-! ## One command -/

/-- A query changes nothing; a snapshot leaves the actor's hands. -/
def handleQuery (a : Actor) : Query → Actor
  | .snapshotState => { a with snapshots := a.snapshots ++ [a.takeSnapshot] }
  | _ => a

/-- `handle_command`. Results of actions go to the reply channel. -/
def handleCommand (D : LineDiff) (env : Env) (a : Actor) : HunkTrackerCommand → Actor
  | .recordAgentWrite path content promptIndex previousContent =>
    a.recordAgentWrite D env path content promptIndex previousContent
  | .handleFileChange path => a.handleFileChange D env path
  | .handleFileDeleted path => a.handleFileDeleted D env path
  | .refreshGitDirtyCache => a.refreshGitDirtyCache D env none
  | .resetBaseline path => a.resetBaseline path
  | .setMode mode => a.setMode D env mode
  | .hunkAction hunkId action => (a.applyHunkAction D env hunkId action).1
  | .fileAction path action => (a.applyFileAction D env path action).1
  | .allAction action => (a.applyAllAction D env action).1
  | .turnAction promptIndex action => (a.applyTurnAction D env promptIndex action).1
  | .query q => a.handleQuery q
  | .resetStats => { a with sessionStats := {} }
  | .refreshAllBaselines => a.refreshAllBaselines D env
  | .restoreState snapshot => a.restoreSnapshot snapshot

/-- Commands one by one, in order. -/
def handleCommands (D : LineDiff) (env : Env) (a : Actor) (cmds : List HunkTrackerCommand) :
    Actor :=
  cmds.foldl (fun a c => a.handleCommand D env c) a

end Actor

/-! ## Coalescing -/

inductive CoalescedPathAction where
  | changed
  | deleted
  | deletedThenChanged
  deriving DecidableEq, Repr

structure CoalescedBatch where
  fileActions : AList (fun _ : PathBuf => CoalescedPathAction)
  refreshAll : Bool
  refreshDirty : Bool
  otherCommands : List HunkTrackerCommand

namespace CoalescedBatch

def new : CoalescedBatch where
  fileActions := ∅
  refreshAll := false
  refreshDirty := false
  otherCommands := []

/-- A change after the actions seen so far. -/
def thenChanged : Option CoalescedPathAction → CoalescedPathAction
  | none => .changed
  | some .deleted => .deletedThenChanged
  | some other => other

def add (b : CoalescedBatch) : HunkTrackerCommand → CoalescedBatch
  | .handleFileChange path =>
    { b with fileActions := b.fileActions.insert path (thenChanged (b.fileActions.lookup path)) }
  | .handleFileDeleted path => { b with fileActions := b.fileActions.insert path .deleted }
  | .refreshAllBaselines => { b with refreshAll := true }
  | .refreshGitDirtyCache => { b with refreshDirty := true }
  | cmd => { b with otherCommands := b.otherCommands ++ [cmd] }

def drainAndCoalesce (queue : List HunkTrackerCommand) : CoalescedBatch :=
  queue.foldl add new

/-- The paths of a batch whose last notification is a deletion, and the
other ones. -/
def deletedPaths (b : CoalescedBatch) (env : Env) : List PathBuf :=
  (env.order b.fileActions.keys).filter fun p => b.fileActions.lookup p = some .deleted

def changedPaths (b : CoalescedBatch) (env : Env) : List PathBuf :=
  (env.order b.fileActions.keys).filter fun p => b.fileActions.lookup p ≠ some .deleted

end CoalescedBatch

def isCoalescable : HunkTrackerCommand → Bool
  | .handleFileChange _ => true
  | .handleFileDeleted _ => true
  | .refreshAllBaselines => true
  | .refreshGitDirtyCache => true
  | _ => false

namespace Actor

/-- One path of a batch that also refreshes all baselines. Tracked files
are left to the refresh, except that a deletion is handled first; the
second component collects the paths the refresh is to skip. -/
def handleBeforeRefresh (D : LineDiff) (env : Env) (b : CoalescedBatch)
    (s : Actor × List PathBuf) (p : PathBuf) : Actor × List PathBuf :=
  if b.fileActions.lookup p = some .deleted then
    match s.1.file p with
    | none => s
    | some _ => (s.1.handleFileDeleted D env p, s.2)
  else
    match s.1.file p with
    | none => (s.1.handleFileChange D env p, p :: s.2)
    | some _ => s

/-- The file notifications and refreshes of a batch. -/
def handleNotifications (D : LineDiff) (env : Env) (a : Actor) (b : CoalescedBatch) :
    Actor :=
  let a := if b.refreshDirty = true ∧ b.refreshAll = false then a.refreshGitDirtyCache D env none
    else a
  if b.refreshAll then
    let s := (env.order b.fileActions.keys).foldl (handleBeforeRefresh D env b) (a, [])
    s.1.refreshAllBaselinesExcept D env s.2
  else
    ((b.deletedPaths env).foldl (fun a p => a.handleFileDeleted D env p) a).handleFileChangesBatch
      D env (b.changedPaths env)

/-- `handle_coalesced_batch`: the notifications, then all other commands in
order. -/
def handleCoalescedBatch (D : LineDiff) (env : Env) (a : Actor) (b : CoalescedBatch) :
    Actor :=
  (a.handleNotifications D env b).handleCommands D env b.otherCommands

/-! ## Runs -/

/-- Commands a client can send: a snapshot is restored only after it was
taken. -/
def Allowed (a : Actor) : HunkTrackerCommand → Prop
  | .restoreState snapshot => snapshot ∈ a.snapshots
  | _ => True

/-- Every command of a queue is allowed when its turn comes. -/
def AllowedSeq (D : LineDiff) (env : Env) : Actor → List HunkTrackerCommand → Prop
  | _, [] => True
  | a, cmd :: cmds => a.Allowed cmd ∧ AllowedSeq D env (a.handleCommand D env cmd) cmds

/-- One turn of the loop of `run`, in any environment. -/
inductive Step (D : LineDiff) : Actor → Actor → Prop where
  | command (env : Env) (a : Actor) (cmd : HunkTrackerCommand) (allowed : a.Allowed cmd) :
      Step D a (a.handleCommand D env cmd)
  | batch (env : Env) (a : Actor) (queue : List HunkTrackerCommand)
      (allowed : AllowedSeq D env (a.handleNotifications D env (.drainAndCoalesce queue))
        (CoalescedBatch.drainAndCoalesce queue).otherCommands) :
      Step D a (a.handleCoalescedBatch D env (.drainAndCoalesce queue))

/-- The states of a tracker that was started empty. -/
def Reachable (D : LineDiff) (a : Actor) : Prop :=
  ∃ workingDir mode, Relation.ReflTransGen (Step D) (Actor.new workingDir mode) a

/-- A client is handed a snapshot of another tracker, whose ids are all below
`n`. Ids are unique, so this tracker gives out none of them. -/
def handed (a : Actor) (s : HunkTrackerSnapshot) (n : Nat) : Actor :=
  { a with snapshots := a.snapshots ++ [s], nextId := max a.nextId n }

/-- The states of trackers whose clients restore each other's snapshots too,
as a session does that is killed and loaded again. -/
inductive ReachableAcross (D : LineDiff) : Actor → Prop where
  | new (workingDir : PathBuf) (mode : TrackingMode) : ReachableAcross D (Actor.new workingDir mode)
  | step {a a' : Actor} (h : ReachableAcross D a) (hs : Step D a a') : ReachableAcross D a'
  | handed {a b : Actor} (h : ReachableAcross D a) (hb : ReachableAcross D b)
      {s : HunkTrackerSnapshot} (hs : s ∈ b.snapshots) : ReachableAcross D (a.handed s b.nextId)

end Actor

end GrokBuild.HunkTracker
