import GrokBuild.Workflow.Journal

/-!
# Workflows: the engine

The host functions of `engine.rs`, over a script that is a strategy: from the
results and catchable errors it has seen, it chooses its next call or ends.
What the host answers, when the run is cancelled and how the writes of the
journal go comes from outside, as an `Env` for each call. Function arguments
are taken as the JSON they are hashed as.
-/

namespace GrokBuild.Workflow

open TextLines Str LineLog

def maxParallel : Nat := 1024

/-! ## What the host answers -/

inductive HostError where
  | agentCallQuotaExceeded (requested maximum : Nat)
  | budgetExceeded
  | cancelled
  | unsupported (message : Text)
  | failed (message : Text)

structure AgentResult where
  agentId : Text
  success : Bool
  output : Json
  cancelled : Bool
  tokensUsed : Nat
  durationMs : Nat

def AgentResult.toJson (r : AgentResult) : Json :=
  .object [("agent_id".toList, .string r.agentId), ("success".toList, .bool r.success),
    ("output".toList, r.output), ("cancelled".toList, .bool r.cancelled),
    ("tokens_used".toList, .number (decimal r.tokensUsed)),
    ("duration_ms".toList, .number (decimal r.durationMs))]

structure BudgetState where
  total : Option Nat
  spent : Nat
  reserved : Nat
  remaining : Option Nat

/-- An optional number as JSON. -/
def Json.ofOption : Option Nat → Json
  | none => .null
  | some n => .number (decimal n)

def BudgetState.toJson (b : BudgetState) : Json :=
  .object [("total".toList, .ofOption b.total), ("spent".toList, .number (decimal b.spent)),
    ("reserved".toList, .number (decimal b.reserved)),
    ("remaining".toList, .ofOption b.remaining)]

/-- The host functions that are one `host_call`. -/
inductive HostKind where
  | budget
  | renderTemplate
  | writeScratchFile
  | readScratchFile
  | gitDiffSince
  deriving DecidableEq, Repr

def HostKind.name : HostKind → Text
  | .budget => "budget".toList
  | .renderTemplate => "render_template".toList
  | .writeScratchFile => "write_scratch_file".toList
  | .readScratchFile => "read_scratch_file".toList
  | .gitDiffSince => "git_diff_since".toList

def spawnAgent : Text := "spawn_agent".toList

/-- What happens around one call: whether the run was cancelled before it,
the answers of the host, the clock and the writes of the journal. -/
structure Env where
  cancelled : Bool
  reserve : Except HostError Unit
  agent : Nat → Except HostError AgentResult
  budget : Except HostError BudgetState
  text : Except HostError Text
  now : Nat → Nat
  write : Nat → Write

/-- The answer to a `host_call` as a journal value. -/
def Env.reply (env : Env) : HostKind → Except HostError Json
  | .budget => env.budget.map BudgetState.toJson
  | _ => env.text.map Json.string

/-- `WorkflowHostRequest`; the ones without an answer are all alike here. -/
inductive Request where
  | reserveAgentCalls (count : Nat)
  | releaseAgentCalls (count : Nat)
  | spawnAgent (opts : Json)
  | host (kind : HostKind) (payload : Json)
  | emit (replayed : Bool)

/-! ## How a call ends -/

inductive PauseKind where
  | user
  | backOff
  | noProgress
  | verification
  | infra
  deriving DecidableEq, Repr

/-- `PauseKind::from_str`. -/
def PauseKind.parse (s : Text) : Option PauseKind :=
  if s = "user".toList then some .user
  else if s = "back_off".toList ∨ s = "backoff".toList then some .backOff
  else if s = "no_progress".toList then some .noProgress
  else if s = "verification".toList ∨ s = "blocked".toList then some .verification
  else if s = "infra".toList then some .infra
  else none

def unknownPauseKind (s : Text) : Text := "unknown pause kind: ".toList ++ s

/-- Why a run ends with a fatal error. -/
inductive FatalCause where
  | journal (error : JournalError)
  | tooManyHostCalls
  | droppedReply
  | unknownTerminal

inductive ControlToken where
  | complete (value : Json)
  | pause (kind : PauseKind) (message : Text)
  | budget (message : Text)
  | cancelled
  | fatal (cause : FatalCause)

/-- What a script sees of a call: a result or an error that it can catch. -/
inductive Seen where
  | unit
  | value (v : Json)
  | values (vs : List Json)
  | error (message : Text)

/-- `ScriptResult`: seen by the script, or the end of the run. -/
inductive CallEnd where
  | seen (s : Seen)
  | ended (token : ControlToken)

/-- `is_resumable_unjournaled_terminal`. -/
def CallEnd.resumableTerminal : CallEnd → Bool
  | .ended .cancelled => true
  | .ended (.budget _) => true
  | _ => false

def budgetExceededMessage : Text := "workflow agent budget exceeded".toList

/-- The message of a quota error, behind what it is about. -/
def quotaMessage (what : String) (requested maximum : Nat) : Text :=
  what.toList ++ decimal requested ++ ", maximum ".toList ++ decimal maximum

/-! ## Journal values -/

def hostErrorSentinel (message : Text) : Json := .object [(hostErrorKey, .string message)]

/-- `replay_host_error`: the message of a journaled error. -/
def replayHostError (recorded : Json) : Option Text := (recorded.get hostErrorKey).bind Json.asStr

def hostTerminalKey : Text := "__xai_workflow_parallel_terminal".toList

def terminalBudget : Text := "budget_exceeded".toList

def terminalCancelled : Text := "cancelled".toList

def terminalDroppedReply : Text := "dropped_reply".toList

def hostTerminalSentinel (kind : Text) : Json := .object [(hostTerminalKey, .string kind)]

def hostTerminalError (kind : Text) : ControlToken :=
  if kind = terminalBudget then .budget budgetExceededMessage
  else if kind = terminalCancelled then .cancelled
  else if kind = terminalDroppedReply then .fatal .droppedReply
  else .fatal .unknownTerminal

/-! ## The context of a run -/

structure Ctx where
  journal : Journal
  disk : Disk
  seq : Nat

namespace Ctx

/-- `next_seq`, by `reserve_seqs`. -/
def nextSeq (ctx : Ctx) : Except FatalCause (Nat × Ctx) :=
  if ctx.seq + 1 > maxHostCalls then .error .tooManyHostCalls
  else .ok (ctx.seq, { ctx with seq := ctx.seq + 1 })

def record (codec : Codec JournalEntry) (ctx : Ctx) (seq : Nat) (kind hash : Text) (value : Json)
    (now : Nat) (write : Write) : Except JournalError Ctx :=
  match ctx.journal.record codec seq kind hash value now ctx.disk write with
  | (.ok journal, disk) => .ok { ctx with journal := journal, disk := disk }
  | (.error e, _) => .error e

def replaying (ctx : Ctx) : Bool := ctx.journal.covers ctx.seq

end Ctx

/-- What a call leaves: the context, the requests it sent, and its end. -/
structure Called where
  ctx : Ctx
  requests : List Request
  callEnd : CallEnd

/-! ## The host functions -/

section Calls

variable (codec : Codec JournalEntry) (requestHash : Text → Json → Text)

/-- Record a value and return what the script sees of it. -/
def recordSeen (ctx : Ctx) (seq : Nat) (kind hash : Text) (value : Json) (seen : Seen) (now : Nat)
    (write : Write) (requests : List Request) : Called :=
  match ctx.record codec seq kind hash value now write with
  | .ok ctx => ⟨ctx, requests, .seen seen⟩
  | .error e => ⟨ctx, requests, .ended (.fatal (.journal e))⟩

def hostCall (env : Env) (ctx : Ctx) (kind : Text) (payload : Json) (request : Request)
    (reply : Except HostError Json) : Called :=
  let hash := requestHash kind payload
  match ctx.nextSeq with
  | .error cause => ⟨ctx, [], .ended (.fatal cause)⟩
  | .ok (seq, ctx) =>
    match ctx.journal.replay seq kind hash with
    | .error e => ⟨ctx, [], .ended (.fatal (.journal e))⟩
    | .ok (some recorded) =>
      match replayHostError recorded with
      | some message => ⟨ctx, [], .seen (.error message)⟩
      | none => ⟨ctx, [], .seen (.value recorded)⟩
    | .ok none =>
      match reply with
      | .ok v => recordSeen codec ctx seq kind hash v (.value v) (env.now 0) (env.write 0) [request]
      | .error (.agentCallQuotaExceeded requested maximum) =>
        -- seen by the script and not journaled, and the number is used up
        ⟨ctx, [request], .seen (.error
          (quotaMessage "workflow agent-call quota exceeded: requested " requested maximum))⟩
      | .error .budgetExceeded => ⟨ctx, [request], .ended (.budget budgetExceededMessage)⟩
      | .error .cancelled => ⟨ctx, [request], .ended .cancelled⟩
      | .error (.unsupported message) =>
        recordSeen codec ctx seq kind hash (hostErrorSentinel message) (.error message)
          (env.now 0) (env.write 0) [request]
      | .error (.failed message) =>
        recordSeen codec ctx seq kind hash (hostErrorSentinel message) (.error message)
          (env.now 0) (env.write 0) [request]

/-- `reserve_agent_calls`, for the given answer: the requests sent and how it
fails. -/
def reserveAgentCalls (env : Env) (count : Nat) : List Request × Option CallEnd :=
  if count = 0 then ([], none)
  else
    ([.reserveAgentCalls count],
      match env.reserve with
      | .ok () => none
      | .error (.agentCallQuotaExceeded requested maximum) =>
        some (.ended (.budget
          (quotaMessage "workflow agent budget exceeded: requested " requested maximum)))
      | .error .cancelled => some (.ended .cancelled)
      | .error .budgetExceeded => some (.ended (.budget budgetExceededMessage))
      -- the script can catch these, and no number is used up
      | .error (.unsupported message) => some (.seen (.error message))
      | .error (.failed message) => some (.seen (.error message)))

def releaseAgentCalls (count : Nat) : List Request :=
  if count = 0 then [] else [.releaseAgentCalls count]

def spawnAgentCall (env : Env) (ctx : Ctx) (opts : Json) : Called :=
  let call := hostCall codec requestHash env ctx spawnAgent opts (.spawnAgent opts)
    ((env.agent 0).map AgentResult.toJson)
  match ctx.journal.replay ctx.seq spawnAgent (requestHash spawnAgent opts) with
  | .error e => ⟨ctx, [], .ended (.fatal (.journal e))⟩
  -- a replayed agent is not reserved again
  | .ok (some _) => call
  | .ok none =>
    match reserveAgentCalls env 1 with
    | (requests, some failure) => ⟨ctx, requests, failure⟩
    | (requests, none) =>
      { call with
        requests := requests ++ call.requests
          ++ if call.callEnd.resumableTerminal then releaseAgentCalls 1 else [] }

/-! ### `parallel` -/

/-- The loop that counts the live items of a panel. -/
def countLive (journal : Journal) : Nat → List Json → Except JournalError Nat
  | _, [] => .ok 0
  | seq, opts :: rest =>
    match journal.replay seq spawnAgent (requestHash spawnAgent opts) with
    | .error e => .error e
    | .ok recorded =>
      match countLive journal (seq + 1) rest with
      | .error e => .error e
      | .ok live => .ok (if recorded.isSome then live else live + 1)

/-- `PendingAgent`, with the answer that will come. -/
inductive PendingAgent where
  | replayed (value : Json)
  | live (seq : Nat) (hash : Text) (reply : Except HostError AgentResult)

/-- The loop that starts the items of a panel, from item `i` on. -/
def startPanel (env : Env) :
    Nat → Ctx → List Json → Ctx × List Request × Except FatalCause (List PendingAgent)
  | _, ctx, [] => (ctx, [], .ok [])
  | i, ctx, opts :: rest =>
    match ctx.nextSeq with
    | .error cause => (ctx, [], .error cause)
    | .ok (seq, ctx) =>
      let hash := requestHash spawnAgent opts
      match ctx.journal.replay seq spawnAgent hash with
      | .error e => (ctx, [], .error (.journal e))
      | .ok recorded =>
        let (ctx, requests, pending) := startPanel env (i + 1) ctx rest
        match recorded with
        | some value => (ctx, requests, pending.map (.replayed value :: ·))
        | none =>
          (ctx, .spawnAgent opts :: requests, pending.map (.live seq hash (env.agent i) :: ·))

/-- What the loop over the answers of a panel has found. -/
structure Panel where
  resolved : List (Option (Nat × Text) × Json)
  terminalKind : Option Text
  terminalError : Option Text
  resumable : Bool

def Panel.start : Panel := ⟨[], none, none, false⟩

/-- `terminal_kind.get_or_insert`. -/
def Panel.note (p : Panel) (kind : Text) : Panel :=
  { p with terminalKind := some (p.terminalKind.getD kind) }

def Panel.push (p : Panel) (live : Option (Nat × Text)) (value : Json) : Panel :=
  { p with resolved := p.resolved ++ [(live, value)] }

/-- One item in the loop over the answers. -/
def Panel.resolve (p : Panel) : PendingAgent → Panel
  | .replayed value =>
    match value.get hostTerminalKey with
    | some marker =>
      let kind := marker.asStr.getD "unknown".toList
      let p := p.note kind
      if kind = terminalBudget ∨ kind = terminalCancelled then { p with resumable := true } else p
    | none =>
      match replayHostError value with
      | some message => { p with terminalError := some (p.terminalError.getD message) }
      | none => p.push none value
  | .live seq hash reply =>
    match reply with
    | .ok result => p.push (some (seq, hash)) result.toJson
    | .error .budgetExceeded =>
      { (p.note terminalBudget).push (some (seq, hash)) (hostTerminalSentinel terminalBudget) with
        resumable := true }
    | .error .cancelled =>
      { (p.note terminalCancelled).push (some (seq, hash))
          (hostTerminalSentinel terminalCancelled) with
        resumable := true }
    -- an item that failed is a null among the results
    | .error (.agentCallQuotaExceeded _ _) => p.push (some (seq, hash)) .null
    | .error (.unsupported _) => p.push (some (seq, hash)) .null
    | .error (.failed _) => p.push (some (seq, hash)) .null

/-- The loop that records a panel, up to the first error. -/
def recordPanel (env : Env) :
    Nat → Ctx → List (Option (Nat × Text) × Json) → Ctx × Option JournalError
  | _, ctx, [] => (ctx, none)
  | i, ctx, (none, _) :: rest => recordPanel env i ctx rest
  | i, ctx, (some (seq, hash), value) :: rest =>
    match ctx.record codec seq spawnAgent hash value (env.now i) (env.write i) with
    | .ok ctx => recordPanel env (i + 1) ctx rest
    | .error e => (ctx, some e)

/-- The end of `parallel`, behind the answers. -/
def finishPanel (env : Env) (ctx : Ctx) (live : Nat) (requests : List Request) (p : Panel) :
    Called :=
  -- a panel that will be run again leaves nothing in the journal
  let (ctx, failure) := if p.resumable then (ctx, none) else recordPanel codec env 0 ctx p.resolved
  let requests := requests ++ if p.resumable then releaseAgentCalls live else []
  match p.terminalKind, p.terminalError, failure with
  | some kind, _, _ => ⟨ctx, requests, .ended (hostTerminalError kind)⟩
  | none, some message, _ => ⟨ctx, requests, .seen (.error message)⟩
  | none, none, some e => ⟨ctx, requests, .ended (.fatal (.journal e))⟩
  | none, none, none => ⟨ctx, requests, .seen (.values (p.resolved.map (·.2)))⟩

/-- The message for a panel with too many items. -/
def tooManyItems (count : Nat) : Text :=
  "parallel() accepts at most ".toList ++ decimal maxParallel
    ++ " items per call (got ".toList ++ decimal count ++ ")".toList

/-- `parallel`. -/
def parallelCall (env : Env) (ctx : Ctx) (items : List Json) : Called :=
  if items.length > maxParallel then ⟨ctx, [], .seen (.error (tooManyItems items.length))⟩
  else match countLive requestHash ctx.journal ctx.seq items with
    | .error e => ⟨ctx, [], .ended (.fatal (.journal e))⟩
    | .ok live =>
      match reserveAgentCalls env live with
      | (requests, some failure) => ⟨ctx, requests, failure⟩
      | (requests, none) =>
        match startPanel requestHash env 0 ctx items with
        | (ctx, sent, .error cause) => ⟨ctx, requests ++ sent, .ended (.fatal cause)⟩
        | (ctx, sent, .ok pending) =>
          finishPanel codec env ctx live (requests ++ sent) (pending.foldl Panel.resolve .start)

/-! ### The others -/

/-- The payload of `await_user`. -/
def awaitPayload (kind message : Text) : Json :=
  .object [("kind".toList, .string kind), ("message".toList, .string message)]

def awaitUser : Text := "await_user".toList

/-- `await_user`. -/
def awaitUserCall (env : Env) (ctx : Ctx) (kind message : Text) : Called :=
  match PauseKind.parse kind with
  | none => ⟨ctx, [], .seen (.error (unknownPauseKind kind))⟩
  | some parsed =>
    let hash := requestHash awaitUser (awaitPayload kind message)
    match ctx.nextSeq with
    | .error cause => ⟨ctx, [], .ended (.fatal cause)⟩
    | .ok (seq, ctx) =>
      match ctx.journal.replay seq awaitUser hash with
      | .error e => ⟨ctx, [], .ended (.fatal (.journal e))⟩
      | .ok (some _) => ⟨ctx, [], .seen .unit⟩
      | .ok none =>
        match ctx.record codec seq awaitUser hash .null (env.now 0) (env.write 0) with
        -- journaled in front of the pause: a resumed run goes on behind it
        | .ok ctx => ⟨ctx, [], .ended (.pause parsed message)⟩
        | .error e => ⟨ctx, [], .ended (.fatal (.journal e))⟩

/-- A host function with its arguments. -/
inductive HostCall where
  | agent (opts : Json)
  | parallel (items : List Json)
  | host (kind : HostKind) (payload : Json)
  | awaitUser (kind message : Text)
  /-- `phase`, `log`, `print` and `telemetry_event`. -/
  | emit
  | pause (kind message : Text)
  | complete (value : Json)

/-- The host functions as `register_host_fns` registers them. -/
def HostCall.run (env : Env) (ctx : Ctx) : HostCall → Called
  | .agent opts => spawnAgentCall codec requestHash env ctx opts
  | .parallel items => parallelCall codec requestHash env ctx items
  | .host kind payload =>
    hostCall codec requestHash env ctx kind.name payload (.host kind payload) (env.reply kind)
  | .awaitUser kind message => awaitUserCall codec requestHash env ctx kind message
  | .emit => ⟨ctx, [.emit ctx.replaying], .seen .unit⟩
  | .pause kind message =>
    match PauseKind.parse kind with
    | none => ⟨ctx, [], .seen (.error (unknownPauseKind kind))⟩
    | some parsed => ⟨ctx, [], .ended (.pause parsed message)⟩
  | .complete value => ⟨ctx, [], .ended (.complete value)⟩

end Calls

/-! ## Runs -/

/-- What a script does next: call a host function, return, or fail with an
error that it does not catch. -/
inductive Move where
  | call (c : HostCall)
  | finish (value : Json)
  | fail (message : Text)

/-- A script as a strategy over what it has seen. -/
abbrev Script := List Seen → Move

/-- `WorkflowOutcome`; a failure is fatal or an error of the script. -/
inductive WorkflowOutcome where
  | completed (result : Json)
  | paused (kind : PauseKind) (message : Text)
  | budgetExceeded (message : Text)
  | cancelled
  | failed (cause : FatalCause)
  | scriptFailed (message : Text)

/-- `outcome_from_error` on a control token. -/
def ControlToken.outcome : ControlToken → WorkflowOutcome
  | .complete value => .completed value
  | .pause kind message => .paused kind message
  | .budget message => .budgetExceeded message
  | .cancelled => .cancelled
  | .fatal cause => .failed cause

/-- A call as it was made, with the sequence number in front of it. -/
structure Exchange where
  call : HostCall
  seq : Nat
  requests : List Request

/-- A run up to some point. -/
structure Run where
  ctx : Ctx
  seen : List Seen
  trace : List Exchange
  outcome : Option WorkflowOutcome

namespace Run

variable (codec : Codec JournalEntry) (requestHash : Text → Json → Text) (script : Script)

def start (journal : Journal) (disk : Disk) : Run := ⟨⟨journal, disk, 0⟩, [], [], none⟩

/-- The next call of the script, or its end. A cancelled run ends in front of
the call (`on_progress`). -/
def step (r : Run) (env : Env) : Run :=
  match r.outcome with
  | some _ => r
  | none =>
    if env.cancelled then { r with outcome := some .cancelled }
    else match script r.seen with
      | .finish value => { r with outcome := some (.completed value) }
      | .fail message => { r with outcome := some (.scriptFailed message) }
      | .call c =>
        let called := c.run codec requestHash env r.ctx
        let trace := r.trace ++ [⟨c, r.ctx.seq, called.requests⟩]
        match called.callEnd with
        | .seen s => ⟨called.ctx, r.seen ++ [s], trace, none⟩
        | .ended token => ⟨called.ctx, r.seen, trace, some token.outcome⟩

/-- `run_workflow`, for as many calls as there are environments. -/
def exec (journal : Journal) (disk : Disk) (envs : List Env) : Run :=
  envs.foldl (step codec requestHash script) (start journal disk)

end Run

end GrokBuild.Workflow
