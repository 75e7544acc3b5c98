import GrokBuild.Scheduler.Timeline

/-!
# The scheduler: the actor

`actor.rs`. The actor waits in the middle of a fire and of a removal; where it
waits is its `Stage`, and what it waits for comes as an input. A command that
comes while it waits stays in its queue, so it is no step.
-/

namespace GrokBuild.Scheduler

open TextLines Str

def maxScheduledTasks : Nat := 50

def loopFreshChainEvery : UInt32 := 10

inductive SchedulerError
  | taskLimitReached (limit : Nat)
  | taskNotFound (id : Text)
  | persistence
  | notification
  | noDurableNotificationConsumer
  | removalPending (taskId : Text)
  | cancelled
  | timeout
  deriving DecidableEq

/-! ## Tasks -/

/-- `Duration::seconds(interval_secs as i64)` behind the last fire. -/
def ScheduledTask.nextFireAt (task : ScheduledTask) : DateTime :=
  task.lastFiredAt.getD task.createdAt + task.intervalSecs.toInt64.toInt * 1000000000

def ScheduledTask.isExpired (task : ScheduledTask) (now : DateTime) : Bool :=
  task.expiresAt.any fun exp => exp ≤ now

def countOf (n : UInt64) (one many : String) : Text :=
  if n = 1 then "every 1 ".toList ++ one.toList
  else "every ".toList ++ decimal n.toNat ++ [' '] ++ many.toList

def intervalToHuman (secs : UInt64) : Text :=
  if secs % 86400 = 0 then countOf (secs / 86400) "day" "days"
  else if secs % 3600 = 0 then countOf (secs / 3600) "hour" "hours"
  else if secs % 60 = 0 then countOf (secs / 60) "minute" "minutes"
  else countOf secs "second" "seconds"

def truncateChars (s : Text) (maxChars : Nat) : Text :=
  if s.length ≤ maxChars then s else s.take maxChars ++ ['…']

def formatLoopIterationPrompt (prompt taskId humanSchedule : Text)
    (priorIterationSummary : Option Text) : Text :=
  let prior := match priorIterationSummary with
    | some s => "\nYour previous iteration ended with:\n".toList ++ s ++ ['\n']
    | none => []
  "<system-reminder>\nScheduled task ".toList ++ taskId ++ " (".toList ++ humanSchedule ++
    "). Earlier iterations, if any, appear above.\n".toList ++
    "Run the task below. End with a short status: what changed or needs attention. ".toList ++
    "The status is relayed to the main agent.\n".toList ++ prior ++
    "</system-reminder>\n\n".toList ++ prompt

def taskCreatedPayload (task : ScheduledTask) : Notification :=
  .created task.id task.prompt (intervalToHuman task.intervalSecs) task.nextFireAt

/-- `iter_mut().find(p)`, and a change of what is found. -/
def modifyFirst {α : Type} (p : α → Bool) (f : α → α) : List α → List α
  | [] => []
  | x :: xs => if p x then f x :: xs else x :: modifyFirst p f xs

/-! ## Subagents -/

inductive SubagentOwner
  | task
  | workflow (runId : Text)
  deriving DecidableEq

structure SubagentRequest where
  id : Text
  prompt : Text
  description : Text
  parentSessionId : Text
  resumeFrom : Option Text
  loopTaskId : Option Text
  surfaceCompletion : Bool
  owner : SubagentOwner
  deriving DecidableEq

inductive SubagentSnapshotStatus
  | initializing
  | running
  | completed (output : Text)
  | failed
  | cancelled
  deriving DecidableEq

def SubagentSnapshotStatus.output : SubagentSnapshotStatus → Option Text
  | .completed output => some output
  | _ => none

/-- What the scheduler sends to the coordinator. A ticket names the channel of
the answer. -/
inductive SubagentEvent
  | query (subagentId parentSessionId : Text) (ticket : Nat)
  | loopUnitActive (taskId : Text) (ticket : Nat)
  | spawn (request : SubagentRequest)
  deriving DecidableEq

/-! ## The actor -/

structure PendingDurableRemoval where
  taskId : Text
  reserved : Reserved
  deriving DecidableEq

/-- The locals of `fire_next_task` for a fire in the background. -/
structure Fire where
  taskId : Text
  prompt : Text
  humanSchedule : Text
  lastSubagentId : Option Text
  iterationsSinceFresh : UInt32
  chainResetPending : Bool
  nextFireAt : Option DateTime
  parentSessionId : Text
  reserved : Reserved
  deriving DecidableEq

inductive Stage
  | starting
  | idle
  | removalSave
  | removalAck
  | expirySave (idx : Nat) (expiredTask : ScheduledTask) (reserved : Reserved)
  | expiryAck (taskId : Text) (reserved : Reserved)
  | querying (fire : Fire) (ticket : Nat)
  | asking (fire : Fire) (prevSnapshot : Option SubagentSnapshotStatus) (ticket : Nat)
  | stopped
  deriving DecidableEq

structure SchedulerActor where
  tasks : List ScheduledTask
  timeline : Timeline
  pendingRemoval : Option PendingDurableRemoval
  blockedExpiries : List Text
  stage : Stage
  tickets : Nat
  deriving DecidableEq

inductive ExpiryPersistenceOutcome
  | committed
  | notCommitted
  | unknown (error : SchedulerError)
  deriving DecidableEq

/-- What the actor reads of the world while it makes a step. -/
structure Env where
  now : DateTime
  newGeneration : Uuid
  subagentId : Text
  /-- `durable_targets() != None`, as it is first read and as it is read again. -/
  durableTargets : Bool
  stillDurable : Bool
  backgroundLoops : Bool
  /-- The session id, when it and the event sender are there. -/
  session : Option Text
  channelOpen : Bool

inductive Input
  | start
  | create (task : ScheduledTask)
  | update (id : Text) (prompt : Option Text) (intervalSecs : Option UInt64) (stamp : DateTime)
  | delete (id : Text)
  | list
  | timer
  | removalSaved (result : Except SchedulerError Unit)
  | expirySaved (outcome : ExpiryPersistenceOutcome)
  | acknowledged (result : Except SchedulerError Unit)
  /-- The answer, or `none` when it is lost, late, or the actor is cancelled. -/
  | queried (ticket : Nat) (answer : Option (Option SubagentSnapshotStatus))
  | unitAnswered (ticket : Nat) (answer : Option Bool)
  /-- The guard of a spawned iteration gets its result. -/
  | reported (subagentId : Text) (failed : Bool)
  | cancel

inductive Reply
  | created (result : Except SchedulerError ScheduledTask)
  | updated (result : Except SchedulerError ScheduledTask)
  | deleted (result : Except SchedulerError Bool)
  | listed (version : SchedulerVersion) (tasks : List ScheduledTask)

structure Output where
  events : List SubagentEvent
  reply : Option Reply

def Output.none : Output := ⟨[], .none⟩

def Output.replied (reply : Reply) : Output := ⟨[], some reply⟩

namespace SchedulerActor

def new (generation : Uuid) (tasks : List ScheduledTask) : SchedulerActor :=
  ⟨tasks, ⟨SchedulerClock.new generation, [], 0, []⟩, none, [], .starting, 0⟩

def announceExistingTasks (a : SchedulerActor) (now : DateTime) : SchedulerActor :=
  let announced := a.tasks.filter fun task => task.recurring || now < task.nextFireAt
  { a with
    timeline := announced.foldl (fun tl task => tl.reannounce (taskCreatedPayload task)) a.timeline
    stage := .idle }

/-! ### Commands -/

def create (a : SchedulerActor) (env : Env) (task : ScheduledTask) :
    Option (SchedulerActor × Output) :=
  match a.pendingRemoval with
  | some pending => some (a, .replied (.created (.error (.removalPending pending.taskId))))
  | none =>
    if a.tasks.length ≥ maxScheduledTasks then
      some (a, .replied (.created (.error (.taskLimitReached maxScheduledTasks))))
    else do
      let (reserved, tl) ← a.timeline.prepare 1 env.newGeneration
      let (_, tl) ← tl.commitAndSend reserved (taskCreatedPayload task)
      some ({ a with tasks := a.tasks ++ [task], timeline := tl },
        .replied (.created (.ok task)))

/-- A new prompt is a new job; the anchor is kept. -/
def patchPrompt (prompt : Option Text) (task : ScheduledTask) : ScheduledTask :=
  match prompt with
  | some prompt =>
    if prompt ≠ task.prompt then
      { task with chainResetPending := true, iterationsSinceFresh := 0, prompt }
    else { task with prompt }
  | none => task

def patchInterval (now stamp : DateTime) (intervalSecs : Option UInt64) (task : ScheduledTask) :
    ScheduledTask :=
  match intervalSecs with
  | some intervalSecs =>
    let task := { task with intervalSecs }
    if task.nextFireAt ≤ now then { task with lastFiredAt := some stamp } else task
  | none => task

/-- The changes that an update makes to its task. -/
def patch (now stamp : DateTime) (prompt : Option Text) (intervalSecs : Option UInt64)
    (task : ScheduledTask) : ScheduledTask :=
  patchInterval now stamp intervalSecs (patchPrompt prompt task)

def update (a : SchedulerActor) (env : Env) (id : Text) (prompt : Option Text)
    (intervalSecs : Option UInt64) (stamp : DateTime) : Option (SchedulerActor × Output) :=
  match a.pendingRemoval with
  | some pending => some (a, .replied (.updated (.error (.removalPending pending.taskId))))
  | none =>
    match a.tasks.find? (·.id = id) with
    | none => some (a, .replied (.updated (.error (.taskNotFound id))))
    | some task => do
      let (reserved, tl) ← a.timeline.prepare 1 env.newGeneration
      let updated := patch env.now stamp prompt intervalSecs task
      let (_, tl) ← tl.commitAndSend reserved (taskCreatedPayload updated)
      some ({ a with
        tasks := modifyFirst (·.id = id) (patch env.now stamp prompt intervalSecs) a.tasks
        timeline := tl }, .replied (.updated (.ok updated)))

def completePendingRemoval (a : SchedulerActor) (durableTargets : Bool) :
    SchedulerActor × Output :=
  if durableTargets then ({ a with stage := .removalSave }, .none)
  else ({ a with pendingRemoval := none },
    .replied (.deleted (.error .noDurableNotificationConsumer)))

def delete (a : SchedulerActor) (env : Env) (id : Text) : Option (SchedulerActor × Output) :=
  match a.pendingRemoval with
  | some pending =>
    if pending.taskId = id then some (a.completePendingRemoval env.durableTargets)
    else some (a, .replied (.deleted (.error (.removalPending pending.taskId))))
  | none =>
    match a.tasks.findIdx? (·.id = id) with
    | none => some (a, .replied (.deleted (.ok false)))
    | some index =>
      if env.durableTargets then do
        let (reserved, tl) ← a.timeline.prepare 1 env.newGeneration
        some (completePendingRemoval { a with
          tasks := a.tasks.eraseIdx index
          timeline := tl
          pendingRemoval := some ⟨id, reserved⟩ } env.stillDurable)
      else some (a, .replied (.deleted (.error .noDurableNotificationConsumer)))

/-- `persist_resources` of a removal is over. -/
def removalSaved (a : SchedulerActor) (result : Except SchedulerError Unit) :
    Option (SchedulerActor × Output) :=
  match result with
  | .error error => some ({ a with stage := .idle }, .replied (.deleted (.error error)))
  | .ok () => do
    let pending ← a.pendingRemoval
    let tl ← a.timeline.publish pending.reserved (.removed pending.taskId)
    some ({ a with timeline := tl, stage := .removalAck }, .none)

def removalAcknowledged (a : SchedulerActor) (result : Except SchedulerError Unit) :
    Option (SchedulerActor × Output) :=
  match result with
  | .error error => some ({ a with stage := .idle }, .replied (.deleted (.error error)))
  | .ok () => do
    let pending ← a.pendingRemoval
    let (_, _, tl) ← a.timeline.commit pending.reserved
    some ({ a with timeline := tl, pendingRemoval := none, stage := .idle },
      .replied (.deleted (.ok true)))

/-! ### Fires -/

def isDue (a : SchedulerActor) (now : DateTime) (task : ScheduledTask) : Bool :=
  task.nextFireAt ≤ now && !a.blockedExpiries.contains task.id

/-- A skipped fire: its reservation is dropped, and the task is announced with
the version of the clock. -/
def skipped (a : SchedulerActor) (fire : Fire) : SchedulerActor × Output :=
  match a.tasks.find? (·.id = fire.taskId) with
  | some task => ({ a with
      timeline := a.timeline.reannounce (taskCreatedPayload task)
      stage := .idle }, .none)
  | none => ({ a with stage := .idle }, .none)

/-- The end of a fire in the background, `subagentId` being what it spawned. -/
def fired (a : SchedulerActor) (fire : Fire) (subagentId : Option Text)
    (events : List SubagentEvent) : Option (SchedulerActor × Output) := do
  let (_, tl) ← a.timeline.commitAndSend fire.reserved
    (.fired fire.taskId fire.prompt fire.humanSchedule fire.nextFireAt subagentId)
  some ({ a with timeline := tl, stage := .idle }, ⟨events, none⟩)

/-- What the next iteration resumes, what it is told of the last one, and how
long the chain then is. -/
def chain (fire : Fire) (prevCompletedOutput : Option Text) :
    Option Text × Option Text × UInt32 :=
  if fire.chainResetPending then (none, none, 1)
  else if loopFreshChainEvery ≤ fire.iterationsSinceFresh ||
      !(prevCompletedOutput.isSome && fire.lastSubagentId.isSome) then
    (none, prevCompletedOutput.map (truncateChars · 600), 1)
  else (fire.lastSubagentId, none, fire.iterationsSinceFresh + 1)

/-- The request of the next iteration. -/
def iteration (fire : Fire) (subagentId : Text) (resumeFrom priorSummary : Option Text) :
    SubagentRequest where
  id := subagentId
  prompt := formatLoopIterationPrompt fire.prompt fire.taskId fire.humanSchedule priorSummary
  description := "loop: ".toList ++ truncateChars ((lines fire.prompt).headD fire.prompt) 60 ++
    " (".toList ++ fire.humanSchedule ++ [')']
  parentSessionId := fire.parentSessionId
  resumeFrom
  loopTaskId := some fire.taskId
  surfaceCompletion := true
  owner := .task

def anchor (lastSubagentId : Option Text) (iterationsSinceFresh : UInt32)
    (chainResetPending : Bool) (task : ScheduledTask) : ScheduledTask :=
  { task with lastSubagentId, iterationsSinceFresh, chainResetPending }

/-- `fire_as_loop_subagent`, from where the guards have let it pass. -/
def launch (a : SchedulerActor) (env : Env) (fire : Fire)
    (prevSnapshot : Option SubagentSnapshotStatus) : Option (SchedulerActor × Output) :=
  let (resumeFrom, priorSummary, next) :=
    chain fire (prevSnapshot.bind SubagentSnapshotStatus.output)
  if a.tasks.any (·.id = fire.taskId) then
    let tasks := modifyFirst (·.id = fire.taskId) (anchor (some env.subagentId) next false) a.tasks
    if env.channelOpen then
      fired { a with tasks } fire (some env.subagentId)
        [.spawn (iteration fire env.subagentId resumeFrom priorSummary)]
    else
      fired { a with
        tasks := modifyFirst (·.id = fire.taskId) (anchor fire.lastSubagentId
          fire.iterationsSinceFresh fire.chainResetPending) tasks } fire none []
  else some (a.skipped fire)

/-- `fire_as_loop_subagent`, to its first wait. -/
def fireAsLoopSubagent (a : SchedulerActor) (env : Env) (fire : Fire) :
    Option (SchedulerActor × Output) :=
  match fire.lastSubagentId with
  | some prevId =>
    if env.channelOpen then
      some ({ a with stage := .querying fire a.tickets, tickets := a.tickets + 1 },
        ⟨[.query prevId fire.parentSessionId a.tickets], none⟩)
    else some (a.skipped fire)
  | none => a.launch env fire none

def queried (a : SchedulerActor) (env : Env) (fire : Fire)
    (answer : Option (Option SubagentSnapshotStatus)) : Option (SchedulerActor × Output) :=
  match answer with
  | none | some (some .initializing) | some (some .running) => some (a.skipped fire)
  | some prevSnapshot =>
    if env.channelOpen then
      some ({ a with stage := .asking fire prevSnapshot a.tickets, tickets := a.tickets + 1 },
        ⟨[.loopUnitActive fire.taskId a.tickets], none⟩)
    else some (a.skipped fire)

def unitAnswered (a : SchedulerActor) (env : Env) (fire : Fire)
    (prevSnapshot : Option SubagentSnapshotStatus) (answer : Option Bool) :
    Option (SchedulerActor × Output) :=
  match answer with
  | some false => a.launch env fire prevSnapshot
  | _ => some (a.skipped fire)

/-- The durable branch of an expiry, to its first wait. -/
def expireDurably (a : SchedulerActor) (env : Env) (idx : Nat) (task : ScheduledTask) :
    Option (SchedulerActor × Output) :=
  if env.durableTargets then do
    let (reserved, tl) ← a.timeline.prepare 1 env.newGeneration
    some ({ a with
      tasks := a.tasks.eraseIdx idx
      timeline := tl
      stage := .expirySave idx task reserved }, .none)
  else some ({ a with blockedExpiries := task.id :: a.blockedExpiries }, .none)

def expirySaved (a : SchedulerActor) (idx : Nat) (expiredTask : ScheduledTask)
    (reserved : Reserved) (outcome : ExpiryPersistenceOutcome) :
    Option (SchedulerActor × Output) :=
  match outcome with
  | .committed => do
    let tl ← a.timeline.publish reserved (.removed expiredTask.id)
    some ({ a with timeline := tl, stage := .expiryAck expiredTask.id reserved }, .none)
  | .notCommitted => some ({ a with
      tasks := a.tasks.insertIdx idx expiredTask
      blockedExpiries := expiredTask.id :: a.blockedExpiries
      stage := .idle }, .none)
  | .unknown _ => some ({ a with stage := .idle }, .none)

def expiryAcknowledged (a : SchedulerActor) (reserved : Reserved)
    (result : Except SchedulerError Unit) : Option (SchedulerActor × Output) :=
  match result with
  | .error _ => some ({ a with stage := .idle }, .none)
  | .ok () => do
    let (_, _, tl) ← a.timeline.commit reserved
    some ({ a with timeline := tl, stage := .idle }, .none)

/-- The branch of an expiry that waits for nothing. -/
def expire (a : SchedulerActor) (env : Env) (idx : Nat) (task : ScheduledTask) :
    Option (SchedulerActor × Output) := do
  let (reserved, tl) ← a.timeline.prepare 1 env.newGeneration
  let (_, tl) ← tl.commitAndSend reserved (.removed task.id)
  some ({ a with tasks := a.tasks.eraseIdx idx, timeline := tl }, .none)

/-- A one-shot task fires, and is removed. -/
def fireOneShot (a : SchedulerActor) (env : Env) (idx : Nat) (task : ScheduledTask) :
    Option (SchedulerActor × Output) := do
  let (reserved, tl) ← a.timeline.prepare 2 env.newGeneration
  let (reserved, tl) ← tl.commitAndSend reserved
    (.fired task.id task.prompt (intervalToHuman task.intervalSecs) none none)
  let (_, tl) ← tl.commitAndSend reserved (.removed task.id)
  some ({ a with tasks := a.tasks.eraseIdx idx, timeline := tl }, .none)

/-- A recurring task fires, in the background if it may and can. -/
def fireRecurring (a : SchedulerActor) (env : Env) (idx : Nat) (task : ScheduledTask) :
    Option (SchedulerActor × Output) := do
  let (reserved, tl) ← a.timeline.prepare 1 env.newGeneration
  let advanced := { task with lastFiredAt := some env.now }
  let fire : Fire := {
    taskId := task.id
    prompt := task.prompt
    humanSchedule := intervalToHuman task.intervalSecs
    lastSubagentId := task.lastSubagentId
    iterationsSinceFresh := task.iterationsSinceFresh
    chainResetPending := task.chainResetPending
    nextFireAt := some advanced.nextFireAt
    parentSessionId := env.session.getD []
    reserved }
  let a := { a with tasks := a.tasks.set idx advanced, timeline := tl }
  if !task.foreground && env.backgroundLoops && env.session.isSome then
    a.fireAsLoopSubagent env fire
  else a.fired fire none []

def fireNextTask (a : SchedulerActor) (env : Env) : Option (SchedulerActor × Output) :=
  match a.tasks.findIdx? (a.isDue env.now) with
  | none => some (a, .none)
  | some idx => do
    let task ← a.tasks[idx]?
    if task.recurring && task.isExpired env.now then
      if task.durable then a.expireDurably env idx task else a.expire env idx task
    else if task.recurring then a.fireRecurring env idx task
    else a.fireOneShot env idx task

/-! ### Reports and the end -/

def reported (a : SchedulerActor) (subagentId : Text) (failed : Bool) : SchedulerActor :=
  if failed then
    let clear (task : ScheduledTask) : ScheduledTask :=
      { task with lastSubagentId := none, iterationsSinceFresh := 0 }
    { a with tasks := modifyFirst (·.lastSubagentId = some subagentId) clear a.tasks }
  else a

/-- Every task is removed with a version of one reservation. -/
def removeAll (tl : Timeline) (reserved : Reserved) : List ScheduledTask → Option Timeline
  | [] => some tl
  | task :: tasks => do
    let (reserved, tl) ← tl.commitAndSend reserved (.removed task.id)
    removeAll tl reserved tasks

def shutdown (a : SchedulerActor) (env : Env) : Option (SchedulerActor × Output) :=
  if a.tasks.isEmpty then some ({ a with stage := .stopped }, .none)
  else do
    let (reserved, tl) ← a.timeline.prepare a.tasks.length env.newGeneration
    let tl ← removeAll tl reserved a.tasks
    some ({ a with timeline := tl, stage := .stopped }, .none)

/-- One step of the actor; `none` is a failed assertion. -/
def step (a : SchedulerActor) (env : Env) (input : Input) : Option (SchedulerActor × Output) :=
  match a.stage, input with
  | _, .reported subagentId failed => some (a.reported subagentId failed, .none)
  | .starting, .start => some (a.announceExistingTasks env.now, .none)
  | .idle, .create task => a.create env task
  | .idle, .update id prompt intervalSecs stamp => a.update env id prompt intervalSecs stamp
  | .idle, .delete id => a.delete env id
  | .idle, .list => some (a, .replied (.listed a.timeline.clock.version a.tasks))
  | .idle, .timer => if a.pendingRemoval.isNone then a.fireNextTask env else some (a, .none)
  | .idle, .cancel => a.shutdown env
  | .removalSave, .removalSaved result => a.removalSaved result
  | .removalAck, .acknowledged result => a.removalAcknowledged result
  | .expirySave idx task reserved, .expirySaved outcome => a.expirySaved idx task reserved outcome
  | .expiryAck _ reserved, .acknowledged result => a.expiryAcknowledged reserved result
  | .querying fire ticket, .queried ticket' answer =>
    if ticket = ticket' then a.queried env fire answer else some (a, .none)
  | .asking fire prevSnapshot ticket, .unitAnswered ticket' answer =>
    if ticket = ticket' then a.unitAnswered env fire prevSnapshot answer else some (a, .none)
  | _, _ => some (a, .none)

/-- A run of the actor. -/
def run (a : SchedulerActor) (inputs : List (Env × Input)) : Option SchedulerActor :=
  inputs.foldlM (fun a (env, input) => (a.step env input).map (·.1)) a

end SchedulerActor

end GrokBuild.Scheduler
