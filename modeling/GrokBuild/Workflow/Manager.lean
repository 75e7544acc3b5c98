import GrokBuild.Workflow.Crash
import GrokBuild.Workflow.Tracker

/-!
# Workflows: the manager and its executors

`manager.rs`, with the executors, host services and watchers that it starts,
one step at a time. Of an executor the steps are the ones that reach the
journal or the agent account: which calls a script makes, what the host
answers and how an executor ends comes from outside. A run is known by a
number, and so is an executor.
-/

namespace GrokBuild.Workflow

open TextLines Str LineLog

/-- `WORKFLOW_MAX_ACTIVE_RUNS_PER_SESSION`. -/
def maxActiveRuns : Nat := 4

/-! ## Executors -/

/-- Where an executor is in its script. -/
inductive Phase where
  | script
  /-- It waits for the answer to `ReserveAgentCalls`. -/
  | reserving (count : Nat)
  /-- The host service has reserved, and writes the manifest. -/
  | persisting (count : Nat)
  /-- The reserved agents run. -/
  | agents (count : Nat)
  /-- This many results are still to be recorded. -/
  | recording (count : Nat)
  /-- It waits for the answer to `ReleaseAgentCalls`, and then ends. -/
  | releasing (count : Nat) (outcome : RunOutcome)
  | ended (outcome : RunOutcome)

/-- How far the watcher of an executor is. -/
inductive Watch where
  | waiting
  /-- The tracker has the outcome; the manifest is being written. -/
  | updated
  /-- The done signal is sent. -/
  | done
  deriving DecidableEq

/-- An executor with its host service and its watcher. -/
structure Exec where
  runId : Nat
  epoch : Nat
  journal : Journal
  cancel : Bool
  pauseIntent : Bool
  phase : Phase
  /-- Reserved, and neither journaled nor released. -/
  reserved : Nat
  watch : Watch

/-- From its start until its done signal. -/
def Exec.live (x : Exec) : Prop := x.watch ≠ .done

inductive ExecAct where
  /-- A live call other than an agent, answered and recorded; `refusal` is
  the text of the error if the journal does not take it. -/
  | record (seq : Nat) (kind hash : Text) (result : Json) (now : Nat) (write : Write)
      (refusal : Text)
  /-- The script ends, or an error ends it. -/
  | finish (outcome : RunOutcome)
  | reserve (count : Nat)
  /-- The host service takes the reservation. -/
  | serveReserve
  /-- Its `persist_now`. -/
  | persistReserve (ok : Bool)
  /-- The host service is cancelled: it answers so, or it is gone already. -/
  | refuse (gone : Option Text)
  /-- The answers are in, and are recorded. -/
  | answer
  | recordAgent (seq : Nat) (hash : Text) (result : Json) (now : Nat) (write : Write)
      (refusal : Text)
  /-- A quota error, which the script can catch. -/
  | lose
  /-- An error that ends the run while agents are reserved. -/
  | abort (error : Text)
  /-- A cancelled agent, or one out of budget, on its own or in a panel: release all of them. -/
  | giveBack (outcome : RunOutcome)
  | serveRelease
  /-- The watcher updates the tracker, with the children drained or not. -/
  | settle (drained : Bool)
  /-- Its `persist_ack`, and the done signal. -/
  | persistAck (error : Option Text)

/-- What an executor works on: its run in the tracker, the file of its
journal, and itself. -/
structure Station where
  run : Option TrackedRun
  disk : Disk
  exec : Exec

namespace Station

def goto (w : Station) (phase : Phase) : Station := { w with exec := { w.exec with phase := phase } }

/-- `Ctx::record`: an error ends the run. `agents` says how many reserved
agents the entry accounts for. -/
def write (codec : Codec JournalEntry) (w : Station) (entry : JournalEntry) (write : Write)
    (refusal : Text) (next : Phase) (agents : Nat) : Station :=
  match w.exec.journal.record codec entry.seq entry.kind entry.reqHash entry.result entry.atMs
    w.disk write with
  | (.ok journal, disk) =>
    { w with
      disk := disk
      exec := { w.exec with
        journal := journal
        phase := next
        reserved := w.exec.reserved - agents } }
  | (.error _, disk) => { w.goto (.ended (.failed refusal)) with disk := disk }

/-- The outcomes behind which agents are released; a panel fails with the first
reply that was dropped, and releases them all when a later one was cancelled. -/
def gaveBack : RunOutcome → Bool
  | .budgetExceeded _ | .cancelled | .failed _ => true
  | _ => false

def quotaExceeded (requested maximum : Nat) : RunOutcome :=
  .budgetExceeded (quotaMessage "workflow agent budget exceeded: requested " requested maximum)

def cleanupFailed : Text :=
  "workflow cleanup timed out or could not be acknowledged; start a new run".toList

def notPersisted (error : Text) : Text :=
  "workflow terminal state could not be persisted: ".toList ++ error
    ++ "; start a new run".toList

/-- The update of the tracker by the watcher; another epoch is left alone. -/
def settled (x : Exec) (outcome : RunOutcome) (drained : Bool) (run : TrackedRun) :
    Option TrackedRun :=
  if run.executionEpoch ≠ x.epoch then none
  else if !drained then some (run.interrupt cleanupFailed)
  else match x.pauseIntent, outcome with
    | true, .cancelled => some run.pauseUser
    | true, .paused _ _ => some run.pauseUser
    | _, _ => some (run.applyOutcome outcome)

/-- One step of an executor, its host service or its watcher. -/
def step (codec : Codec JournalEntry) (w : Station) (act : ExecAct) : Station :=
  match act, w.exec.phase with
  | .record seq kind hash result now write refusal, .script =>
    if kind = spawnAgent then w
    else w.write codec ⟨seq, kind, hash, result, now⟩ write refusal .script 0
  | .finish outcome, .script => w.goto (.ended outcome)
  | .reserve count, .script => if count = 0 then w else w.goto (.reserving count)
  | .serveReserve, .reserving count =>
    match w.run with
    | none => w.goto (.ended (quotaExceeded count 0))
    | some run =>
      match run.reserveAgents count with
      | .error (requested, maximum) => w.goto (.ended (quotaExceeded requested maximum))
      | .ok run =>
        { w with
          run := some run
          exec := { w.exec with
            phase := .persisting count
            reserved := w.exec.reserved + count } }
  | .persistReserve ok, .persisting count =>
    if ok then w.goto (.agents count)
    else
      -- taken back; the script can catch the error
      { w with
        run := w.run.map (·.releaseAgents count)
        exec := { w.exec with
          phase := .script
          reserved := w.exec.reserved - count } }
  | .refuse gone, .reserving _ =>
    if w.exec.cancel then w.goto (.ended (gone.elim .cancelled .failed)) else w
  | .refuse _, .releasing _ outcome =>
    if w.exec.cancel then w.goto (.ended outcome) else w
  | .answer, .agents count => w.goto (.recording count)
  | .recordAgent seq hash result now write refusal, .recording (count + 1) =>
    w.write codec ⟨seq, spawnAgent, hash, result, now⟩ write refusal
      (if count = 0 then .script else .recording count) 1
  -- of `agent` only: in a panel the item becomes a null and is recorded
  | .lose, .agents 1 => w.goto .script
  | .abort error, .agents _ => w.goto (.ended (.failed error))
  | .giveBack outcome, .agents count =>
    if gaveBack outcome then w.goto (.releasing count outcome) else w
  | .serveRelease, .releasing count outcome =>
    { w with
      run := w.run.map (·.releaseAgents count)
      exec := { w.exec with
        phase := .ended outcome
        reserved := w.exec.reserved - count } }
  | .settle drained, .ended outcome =>
    match w.exec.watch with
    | .waiting =>
      match w.run.bind (settled w.exec outcome drained) with
      | some run => { w with run := some run, exec := { w.exec with watch := .updated } }
      -- nothing was updated, and nothing is written
      | none => { w with exec := { w.exec with watch := .done } }
    | _ => w
  | .persistAck error, .ended _ =>
    match w.exec.watch with
    | .updated =>
      { w with
        run := match error with
          | none => w.run
          | some error => w.run.map (·.interrupt (notPersisted error))
        exec := { w.exec with watch := .done } }
    | _ => w
  | _, _ => w

end Station

/-! ## The manager -/

/-- A resume that has loaded the journal. -/
structure Loaded where
  runId : Nat
  journal : Journal
  agentBudget : Option AgentBudget

/-- What the manager, behind its lock, is in the middle of. -/
inductive Stage where
  | idle
  | loaded (l : Loaded)
  /-- `cancel_all_and_drain` waits for these. -/
  | draining (pending : List (Nat × Nat))

/-- The manager with the tracker, the files and all executors. Of an
`ActiveRun` and of a retiring run the number of the executor is enough. -/
structure System where
  runs : Nat → Option TrackedRun
  disks : Nat → Disk
  execs : Nat → Option Exec
  active : List (Nat × Nat)
  retiring : List (Nat × Nat)
  /-- Dropped by a drain that did not wait any longer. -/
  abandoned : List (Nat × Nat)
  stage : Stage
  nextRun : Nat
  nextExec : Nat

inductive Step where
  /-- `launch` of a new run; it may fail at the store. -/
  | launch (agentBudget : Option AgentBudget) (registered persisted : Bool)
  /-- `launch` with `resume_run_id`, as far as the journal is loaded. -/
  | load (runId : Nat) (agentBudget : Option AgentBudget) (sourcesMatch : Bool)
  /-- The rest of it. -/
  | resume (persisted : Bool)
  | pause (runId : Nat)
  | cancel (runId : Nat)
  | drain
  | drainEnd (timedOut : List (Nat × Nat))
  | exec (id : Nat) (act : ExecAct)

namespace System

def start : System := ⟨fun _ => none, fun _ => none, fun _ => none, [], [], [], .idle, 0, 0⟩

/-- `done.try_recv`: the signal has come. -/
def fired (s : System) (handle : Nat × Nat) : Bool :=
  match s.execs handle.2 with
  | some x => x.watch = .done
  | none => true

def isTerminal (s : System) (runId : Nat) : Bool := (s.runs runId).any (·.status.isTerminal)

/-- `reap_terminal_runs`. -/
def reap (s : System) : System :=
  let retiring := s.retiring ++ s.active.filter fun h => s.isTerminal h.1
  { s with
    active := s.active.filter fun h => !s.isTerminal h.1
    retiring := retiring.filter fun h => !s.fired h }

def full (s : System) : Bool := s.active.length + s.retiring.length ≥ maxActiveRuns

def setRun (s : System) (runId : Nat) (run : Option TrackedRun) : System :=
  { s with runs := Function.update s.runs runId run }

def updateExec (s : System) (id : Nat) (f : Exec → Exec) : System :=
  { s with execs := Function.update s.execs id ((s.execs id).map f) }

/-- The executor that `launch` starts, put into `active`. -/
def spawn (s : System) (runId epoch : Nat) (journal : Journal) : System :=
  { s with
    execs := Function.update s.execs s.nextExec
      (some ⟨runId, epoch, journal, false, false, .script, 0, .waiting⟩)
    active := s.active.filter (·.1 ≠ runId) ++ [(runId, s.nextExec)]
    nextExec := s.nextExec + 1 }

/-- Cancel these executors, as runs to pause or not. -/
def signal (s : System) (handles : List (Nat × Nat)) (pauses : Bool) : System :=
  handles.foldl (fun s h => s.updateExec h.2 fun x =>
    { x with cancel := true, pauseIntent := x.pauseIntent || pauses }) s

/-- `active.remove`, at most one, and `retiring.push`. -/
def retire (s : System) (runId : Nat) : System :=
  { s with
    active := s.active.filter (·.1 ≠ runId)
    retiring := s.retiring ++ s.active.filter (·.1 = runId) }

def isActive (s : System) (runId : Nat) : Bool := s.active.any (·.1 = runId)

def persistenceFailed : Text :=
  "workflow state persistence failed before resume; start a new run".toList

def shutdownTimedOut : Text :=
  ("session shutdown timed out before workflow cleanup completed; " ++
    "the run cannot resume").toList

section

variable (codec : Codec JournalEntry) (sessionDir : Bool)

/-- `launch` without a run to resume. -/
def launch (s : System) (agentBudget : Option AgentBudget) (registered persisted : Bool) : System :=
  let s := s.reap
  if s.full || !registered then s
  else
    let id := s.nextRun
    let s := { s with nextRun := s.nextRun + 1 }
    if persisted then
      (s.setRun id (some (.start (agentBudget.getD defaultAgentBudget).1))).spawn id 0
        (.new sessionDir)
    else s

/-- `Journal::load`, or a new journal where there are no files. -/
def loadJournal (disk : Disk) : Except JournalError Journal × Disk :=
  if sessionDir then Journal.load codec disk else (.ok (.new false), disk)

/-- The journal for a run to resume: a failed run is tried again behind the
host error that it failed with. -/
def openJournal (run : TrackedRun) (disk : Disk) : Option Journal × Disk :=
  match loadJournal codec sessionDir disk with
  | (.error _, disk) => (none, disk)
  | (.ok journal, disk) =>
    if run.status = .failed then
      match journal.pruneTrailingHostError (run.pauseMessage.getD []) disk with
      | (.error _, disk) => (none, disk)
      | (.ok (_, journal), disk) => (some journal, disk)
    else (some journal, disk)

/-- The checks of `launch` on the run to resume. -/
def mayResume (run : TrackedRun) : Bool :=
  run.status.isResumable && !(run.status = .budgetLimited && run.agentsUsed ≥ maxAgentBudget)

/-- `launch` of a run to resume, up to the journal. -/
def load (s : System) (runId : Nat) (agentBudget : Option AgentBudget) (sourcesMatch : Bool) :
    System :=
  let s := s.reap
  match s.runs runId with
  | none => s
  | some run =>
    if s.full || !mayResume run || !sourcesMatch then s
    else
      let (journal, disk) := openJournal codec sessionDir run (s.disks runId)
      let s := { s with disks := Function.update s.disks runId disk }
      match journal with
      | none => s
      | some journal => { s with stage := .loaded ⟨runId, journal, agentBudget⟩ }

/-- The rest: the account is set to the journal, and the run is resumed. -/
def resume (s : System) (l : Loaded) (persisted : Bool) : System :=
  let s := { s with stage := .idle }
  match s.runs l.runId with
  | none => s
  | some run =>
    let run := run.reconcileAgentsUsed l.journal.agentReservationCount
    match run.resume (l.agentBudget.map (·.1)) with
    | none => s.setRun l.runId (some run)
    | some run =>
      -- whether an executor of the run is still at work is not asked
      if persisted then
        (s.setRun l.runId (some run)).spawn l.runId run.executionEpoch l.journal
      else s.setRun l.runId (some (run.interrupt persistenceFailed))

end

def pause (s : System) (runId : Nat) : System :=
  if s.isTerminal runId then s.retire runId
  else if !s.isActive runId then s
  else
    let s := (s.signal (s.active.filter (·.1 = runId)) true).retire runId
    s.setRun runId ((s.runs runId).map (·.pauseUser))

def cancel (s : System) (runId : Nat) : System :=
  if s.isTerminal runId then s.retire runId
  else
    let s := (s.signal (s.active.filter (·.1 = runId)) false).retire runId
    s.setRun runId ((s.runs runId).map (·.applyOutcome .cancelled))

/-- The first half of `cancel_all_and_drain`. -/
def drain (s : System) : System :=
  { s.signal s.active false with
    active := []
    retiring := []
    stage := .draining (s.active ++ s.retiring) }

/-- What a drain does to a run that it did not wait for. -/
def giveUp (s : System) (handle : Nat × Nat) : System :=
  match s.runs handle.1 with
  | none => s
  | some run =>
    if run.status.isTerminal || run.status.isPaused then s
    else s.setRun handle.1 (some (run.interrupt shutdownTimedOut))

/-- The second half: all others have sent their signals. -/
def drainEnd (s : System) (pending timedOut : List (Nat × Nat)) : System :=
  if timedOut ⊆ pending ∧ ∀ h ∈ pending, h ∈ timedOut ∨ s.fired h then
    { timedOut.foldl giveUp s with stage := .idle, abandoned := s.abandoned ++ timedOut }
  else s

/-- A step of an executor. -/
def execStep (codec : Codec JournalEntry) (s : System) (id : Nat) (act : ExecAct) : System :=
  match s.execs id with
  | none => s
  | some x =>
    let w := Station.step codec ⟨s.runs x.runId, s.disks x.runId, x⟩ act
    { s with
      runs := Function.update s.runs x.runId w.run
      disks := Function.update s.disks x.runId w.disk
      execs := Function.update s.execs id (some w.exec) }

/-- The manager goes on only where its lock lets it. -/
def step (codec : Codec JournalEntry) (sessionDir : Bool) (s : System) (st : Step) : System :=
  match st, s.stage with
  | .launch agentBudget registered persisted, .idle =>
    s.launch sessionDir agentBudget registered persisted
  | .load runId agentBudget sourcesMatch, .idle =>
    s.load codec sessionDir runId agentBudget sourcesMatch
  | .resume persisted, .loaded l => s.resume l persisted
  | .pause runId, .idle => s.pause runId
  | .cancel runId, .idle => s.cancel runId
  | .drain, .idle => s.drain
  | .drainEnd timedOut, .draining pending => s.drainEnd pending timedOut
  | .exec id act, _ => s.execStep codec id act
  | _, _ => s

def run (codec : Codec JournalEntry) (sessionDir : Bool) (steps : List Step) : System :=
  steps.foldl (step codec sessionDir) start

end System

end GrokBuild.Workflow
