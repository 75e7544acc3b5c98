import GrokBuild.Scheduler.Actor

/-!
# The scheduler: the coordinator

`task/coordinator.rs`, as far as the loops go: which children it has, which
task they are tagged with, and what it answers; and the system that it makes
with the scheduler, their channels between them.

A spawn carries the task of which it is an iteration or a descendant. The
code does not know it; only the statements read this `origin`.
-/

namespace GrokBuild.Scheduler

open TextLines

structure SpawnCommand where
  request : SubagentRequest
  /-- `result_tx` belongs to a guard of the scheduler. -/
  fromScheduler : Bool
  origin : Option Text
  deriving DecidableEq

inductive Command
  | spawn (command : SpawnCommand)
  | query (subagentId parentSessionId : Text) (ticket : Nat)
  | loopUnitActive (taskId : Text) (ticket : Nat)
  deriving DecidableEq

def Command.ofEvent : SubagentEvent → Command
  | .query subagentId parentSessionId ticket => .query subagentId parentSessionId ticket
  | .loopUnitActive taskId ticket => .loopUnitActive taskId ticket
  | .spawn request => .spawn ⟨request, true, request.loopTaskId⟩

structure PendingChild where
  command : SpawnCommand
  cancelled : Bool
  deriving DecidableEq

structure ActiveChild where
  command : SpawnCommand
  cancelled : Bool
  childSessionId : Text
  deriving DecidableEq

structure Coordinator where
  pending : List PendingChild
  active : List ActiveChild
  /-- The ids of the completed children. -/
  completed : List Text
  spawnBlockedSessions : List Text
  deriving DecidableEq

/-- What goes back on `result_tx`: the id, and whether there is an error. -/
structure SubagentResult where
  subagentId : Text
  failed : Bool
  deriving DecidableEq

namespace Coordinator

def new : Coordinator := ⟨[], [], [], []⟩

/-- The children that are pending or active. -/
def live (c : Coordinator) : List SpawnCommand :=
  c.pending.map (·.command) ++ c.active.map (·.command)

/-- What a child spawned by a child of the coordinator takes over from it. -/
def reparent (spawner : ActiveChild) (command : SpawnCommand) : SpawnCommand :=
  let parent := spawner.command.request
  { command with
    request := { command.request with
      parentSessionId := parent.parentSessionId
      surfaceCompletion := false
      owner := match command.request.owner, parent.owner with
        | .task, .workflow runId => .workflow runId
        | owner, _ => owner
      loopTaskId := command.request.loopTaskId.or parent.loopTaskId } }

/-- The checks behind the reparenting; the error is of a refused spawn. -/
def enqueue (c : Coordinator) (command : SpawnCommand) : Coordinator × Option SubagentResult :=
  let id := command.request.id
  if command.request.owner = .task ∧ command.request.parentSessionId ∈ c.spawnBlockedSessions then
    (c, some ⟨id, true⟩)
  else if c.live.any (·.request.id = id) ∨ id ∈ c.completed then (c, some ⟨id, true⟩)
  else ({ c with pending := c.pending ++ [⟨command, false⟩] }, none)

/-- `handle_command` on a spawn. -/
def spawn (c : Coordinator) (command : SpawnCommand) : Coordinator × Option SubagentResult :=
  match c.active.find? (·.childSessionId = command.request.parentSessionId) with
  | some spawner =>
    if spawner.cancelled then (c, some ⟨command.request.id, true⟩)
    else c.enqueue (reparent spawner command)
  | none => c.enqueue command

def loopUnitActive (c : Coordinator) (taskId : Text) : Bool :=
  c.live.any (·.request.loopTaskId = some taskId)

def started (c : Coordinator) (id childSessionId : Text) : Coordinator :=
  match c.pending.find? (·.command.request.id = id) with
  | none => c
  | some child =>
    if child.cancelled then c
    else { c with
      pending := c.pending.filter (·.command.request.id ≠ id)
      active := c.active ++ [⟨child.command, false, childSessionId⟩] }

/-- `finish_child`; what it sends on `result_tx` is for the child's caller. -/
def finishChild (c : Coordinator) (id : Text) : Coordinator :=
  if c.live.any (·.request.id = id) then
    { c with
      pending := c.pending.filter (·.command.request.id ≠ id)
      active := c.active.filter (·.command.request.id ≠ id)
      completed := id :: c.completed }
  else c

/-- A cancellation of one child, whatever brings it about. -/
def cancelOne (c : Coordinator) (id : Text) : Coordinator :=
  { c with
    pending := c.pending.map fun child =>
      if child.command.request.id = id then { child with cancelled := true } else child
    active := c.active.map fun child =>
      if child.command.request.id = id then { child with cancelled := true } else child }

end Coordinator

/-! ## The system -/

/-- An answer to `LoopUnitActive` on its way back. The statements read the
coordinator that gave it. -/
structure Answer where
  ticket : Nat
  isActive : Bool
  seen : Coordinator

structure System where
  actor : SchedulerActor
  inbox : List Command
  coordinator : Coordinator
  answers : List Answer
  /-- The results on their way to the guards. -/
  results : List SubagentResult
  /-- The child sessions that were started, the last one first, with their origins. -/
  sessions : List (Text × Option Text)
  /-- The tasks that iterations were spawned for. -/
  spawned : List Text

inductive Action
  /-- The scheduler makes a step on an input that is none of the next two. -/
  | schedule (env : Env) (input : Input)
  | answer (index : Nat) (env : Env)
  | report (index : Nat) (env : Env)
  /-- The coordinator handles its next command. -/
  | handle
  /-- A session, a child's or not, spawns a subagent. -/
  | nest (request : SubagentRequest)
  | started (id childSessionId : Text)
  | finish (id : Text) (failed : Bool)
  | cancelOne (id : Text)
  | block (sessionId : Text)
  | admitAgain (sessionId : Text)
  | evict (id : Text)

namespace System

def new (generation : Uuid) (tasks : List ScheduledTask) : System :=
  ⟨.new generation tasks, [], .new, [], [], [], []⟩

/-- The task of which an event spawns an iteration. -/
def spawnedTask : SubagentEvent → Option Text
  | .spawn request => request.loopTaskId
  | _ => none

/-- The scheduler makes a step, and what it sends is put into the inbox. -/
def schedule (s : System) (env : Env) (input : Input) : Option System := do
  let (actor, output) ← s.actor.step env input
  some { s with
    actor
    inbox := s.inbox ++ output.events.map Command.ofEvent
    spawned := s.spawned ++ output.events.filterMap spawnedTask }

/-- The results that go to guards of the scheduler. -/
def resultFor (command : SpawnCommand) (result : Option SubagentResult) : List SubagentResult :=
  if command.fromScheduler then result.toList else []

def handle (s : System) : System :=
  match s.inbox with
  | [] => s
  | .spawn command :: inbox =>
    let (coordinator, result) := s.coordinator.spawn command
    { s with inbox, coordinator, results := s.results ++ resultFor command result }
  -- A query may be answered by anything at any time: no fire is let through by its answer.
  | .query .. :: inbox => { s with inbox }
  | .loopUnitActive taskId ticket :: inbox =>
    { s with
      inbox
      answers := s.answers ++ [⟨ticket, s.coordinator.loopUnitActive taskId, s.coordinator⟩] }

/-- The origin of what a session spawns. -/
def originOf (s : System) (sessionId : Text) : Option Text :=
  (s.sessions.find? (·.1 = sessionId)).bind (·.2)

def start (s : System) (id childSessionId : Text) : System :=
  match s.coordinator.pending.find? (·.command.request.id = id) with
  | none => s
  | some child =>
    if child.cancelled then s
    else { s with
      coordinator := s.coordinator.started id childSessionId
      sessions := (childSessionId, child.command.origin) :: s.sessions }

def finish (s : System) (id : Text) (failed : Bool) : System :=
  { s with
    coordinator := s.coordinator.finishChild id
    results := s.results ++
      (s.coordinator.live.filter fun command => command.fromScheduler ∧ command.request.id = id).map
        fun command => ⟨command.request.id, failed⟩ }

def step (s : System) : Action → Option System
  | .schedule _ (.unitAnswered _ (some _)) => some s
  | .schedule _ (.reported ..) => some s
  | .schedule env input => s.schedule env input
  | .answer index env => do
    let answer ← s.answers[index]?
    { s with answers := s.answers.eraseIdx index }.schedule env
      (.unitAnswered answer.ticket (some answer.isActive))
  | .report index env => do
    let result ← s.results[index]?
    { s with results := s.results.eraseIdx index }.schedule env
      (.reported result.subagentId result.failed)
  | .handle => some s.handle
  -- Only the scheduler sets `loop_task_id`.
  | .nest request => some { s with inbox := s.inbox ++
      [.spawn ⟨{ request with loopTaskId := none }, false, s.originOf request.parentSessionId⟩] }
  | .started id childSessionId => some (s.start id childSessionId)
  | .finish id failed => some (s.finish id failed)
  | .cancelOne id => some { s with coordinator := s.coordinator.cancelOne id }
  | .block sessionId => some { s with coordinator := { s.coordinator with
      spawnBlockedSessions := sessionId :: s.coordinator.spawnBlockedSessions } }
  | .admitAgain sessionId => some { s with coordinator := { s.coordinator with
      spawnBlockedSessions := s.coordinator.spawnBlockedSessions.filter (· ≠ sessionId) } }
  | .evict id => some { s with coordinator := { s.coordinator with
      completed := s.coordinator.completed.filter (· ≠ id) } }

/-- A run of the system. -/
def run (s : System) (actions : List Action) : Option System := actions.foldlM step s

end System

end GrokBuild.Scheduler
