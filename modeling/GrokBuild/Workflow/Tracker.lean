import GrokBuild.Workflow.Engine

/-!
# Workflows: the tracker

`tracker.rs`: what the tracker holds of a run, as far as launching, pausing
and the agent budget read it.
-/

namespace GrokBuild.Workflow

open TextLines Str

inductive WorkflowRunStatus where
  | active
  | userPaused
  | backOffPaused
  | noProgressPaused
  | infraPaused
  | blocked
  | budgetLimited
  | interrupted
  | complete
  | failed
  | cancelled
  deriving DecidableEq, Repr

namespace WorkflowRunStatus

def isTerminal : WorkflowRunStatus → Bool
  | .interrupted | .complete | .failed | .cancelled => true
  | _ => false

def isPaused : WorkflowRunStatus → Bool
  | .userPaused | .backOffPaused | .noProgressPaused | .infraPaused | .blocked
  | .budgetLimited => true
  | _ => false

def isResumable (s : WorkflowRunStatus) : Bool := s.isPaused || s == .failed

def fromPause : PauseKind → WorkflowRunStatus
  | .user => .userPaused
  | .backOff => .backOffPaused
  | .noProgress => .noProgressPaused
  | .verification => .blocked
  | .infra => .infraPaused

end WorkflowRunStatus

/-- `WorkflowOutcome` as the manager reads it: a failure is its text. -/
inductive RunOutcome where
  | completed (result : Json)
  | paused (kind : PauseKind) (message : Text)
  | budgetExceeded (message : Text)
  | cancelled
  | failed (error : Text)

def maxAgentBudget : Nat := 1024

/-- A budget that `WorkflowToolInput::validate` lets through. -/
abbrev AgentBudget := { n : Nat // 0 < n ∧ n ≤ maxAgentBudget }

def defaultAgentBudget : AgentBudget := ⟨128, by decide⟩

/-- The longest prefix of whole characters within the size. -/
def truncateStr : Text → Nat → Text
  | [], _ => []
  | c :: s, maxBytes =>
    if c.utf8Size ≤ maxBytes then c :: truncateStr s (maxBytes - c.utf8Size) else []

def cappedPauseMessage (message : Text) : Text := truncateStr message (4 * 1024)

/-- `TrackedRun` with its state. -/
structure TrackedRun where
  status : WorkflowRunStatus
  agentBudget : Option Nat
  agentsUsed : Nat
  pauseMessage : Option Text
  executionEpoch : Nat

namespace TrackedRun

/-- `start_run`. -/
def start (agentBudget : Nat) : TrackedRun := ⟨.active, some agentBudget, 0, none, 0⟩

/-- The `candidate_budget` of `resume_run`. -/
def candidateBudget (run : TrackedRun) : Option Nat → Option Nat
  | some raised => some (max raised (run.agentBudget.getD 0))
  | none => run.agentBudget

/-- `resume_run`. -/
def resume (run : TrackedRun) (newAgentBudget : Option Nat) : Option TrackedRun :=
  if !run.status.isResumable then none
  else
    let candidate := run.candidateBudget newAgentBudget
    let raised := newAgentBudget.any (run.agentBudget.getD 0 < ·)
    if run.status = .budgetLimited ∧ (!raised ∨ candidate.any (· ≤ run.agentsUsed)) then none
    else some { run with
      agentBudget := candidate.orElse fun _ => run.agentBudget
      status := .active
      pauseMessage := none
      executionEpoch := (run.executionEpoch + 1) % 2 ^ 64 }

/-- `reserve_agents`; an error is what was asked for, and the limit. -/
def reserveAgents (run : TrackedRun) (count : Nat) : Except (Nat × Nat) TrackedRun :=
  let requested := saturatingAdd run.agentsUsed count
  match run.agentBudget with
  | some limit =>
    if requested > limit then .error (requested, limit)
    else .ok { run with agentsUsed := requested }
  | none => .ok { run with agentsUsed := requested }

def releaseAgents (run : TrackedRun) (count : Nat) : TrackedRun :=
  { run with agentsUsed := run.agentsUsed - count }

def reconcileAgentsUsed (run : TrackedRun) (used : Nat) : TrackedRun :=
  { run with agentsUsed := used }

/-- `pause_user`, without a message. -/
def pauseUser (run : TrackedRun) : TrackedRun :=
  if run.status ≠ .active then run
  else { run with status := .userPaused, pauseMessage := none }

def interrupt (run : TrackedRun) (message : Text) : TrackedRun :=
  { run with status := .interrupted, pauseMessage := some (cappedPauseMessage message) }

/-- What a run that is out of budget is told. -/
def budgetHint (used : Nat) : Text :=
  if used ≥ maxAgentBudget then
    ("finished work is kept, but this run reached the maximum agent budget and " ++
      "cannot be resumed; start a new run").toList
  else
    ("finished work is kept; resume the run with a higher absolute agent budget " ++
      "to continue").toList

def applyOutcome (run : TrackedRun) (outcome : RunOutcome) : TrackedRun :=
  match run.status with
  | .interrupted | .failed | .cancelled => run
  | _ =>
    match outcome with
    | .completed _ => { run with status := .complete }
    | .paused kind message =>
      { run with
        status := .fromPause kind
        pauseMessage := some (cappedPauseMessage message) }
    | .budgetExceeded message =>
      { run with
        status := .budgetLimited
        pauseMessage := some (cappedPauseMessage
          (message ++ " — ".toList ++ budgetHint run.agentsUsed)) }
    | .cancelled => { run with status := .cancelled }
    | .failed error =>
      { run with status := .failed, pauseMessage := some (cappedPauseMessage error) }

/-! ## The account of a run -/

/-- The run is within a budget that was let through. -/
structure WithinBudget (run : TrackedRun) : Prop where
  budget : ∃ limit : Nat, run.agentBudget = some limit ∧ limit ≤ maxAgentBudget ∧
    run.agentsUsed ≤ limit

/-- The account is the same. -/
def SameAccount (run run' : TrackedRun) : Prop :=
  run'.agentBudget = run.agentBudget ∧ run'.agentsUsed = run.agentsUsed

theorem sameAccount_pauseUser (run : TrackedRun) : run.SameAccount run.pauseUser := by
  unfold pauseUser
  split <;> exact ⟨rfl, rfl⟩

theorem sameAccount_interrupt (run : TrackedRun) (message : Text) :
    run.SameAccount (run.interrupt message) := ⟨rfl, rfl⟩

theorem sameAccount_applyOutcome (run : TrackedRun) (outcome : RunOutcome) :
    run.SameAccount (run.applyOutcome outcome) := by
  unfold applyOutcome
  split
  · exact ⟨rfl, rfl⟩
  · exact ⟨rfl, rfl⟩
  · exact ⟨rfl, rfl⟩
  · cases outcome <;> exact ⟨rfl, rfl⟩
variable {run run' : TrackedRun}

theorem WithinBudget.same (h : run.WithinBudget)
    (hsame : run.SameAccount run') : run'.WithinBudget := by
  obtain ⟨limit, hlimit, hmax, hused⟩ := h.budget
  exact ⟨limit, by rw [hsame.1, hlimit], hmax, by rw [hsame.2]; exact hused⟩

theorem withinBudget_start (b : AgentBudget) : (start b).WithinBudget :=
  ⟨b, rfl, b.2.2, Nat.zero_le _⟩

theorem WithinBudget.lower {run : TrackedRun} (h : run.WithinBudget) {used : Nat}
    (hle : used ≤ run.agentsUsed) : WithinBudget { run with agentsUsed := used } := by
  obtain ⟨limit, hlimit, hmax, hused⟩ := h.budget
  exact ⟨limit, hlimit, hmax, hle.trans hused⟩

theorem WithinBudget.reserve (h : run.WithinBudget) {count : Nat}
    (hreserve : run.reserveAgents count = .ok run') :
    run'.WithinBudget ∧ run'.agentsUsed = run.agentsUsed + count := by
  obtain ⟨limit, hlimit, hmax, hused⟩ := h.budget
  have hsmall : maxAgentBudget < usizeMax := by decide
  simp only [reserveAgents, hlimit] at hreserve
  split at hreserve
  · cases hreserve
  · next hfits =>
    cases hreserve
    -- the sum is within the limit, and so it is not saturated
    have hsum : saturatingAdd run.agentsUsed count = run.agentsUsed + count := by
      unfold saturatingAdd at hfits ⊢
      omega
    exact ⟨⟨limit, rfl, hmax, Nat.le_of_not_lt hfits⟩, hsum⟩

theorem WithinBudget.resume (h : run.WithinBudget)
    {newAgentBudget : Option AgentBudget}
    (hresume : run.resume (newAgentBudget.map (·.1)) = some run') :
    run'.WithinBudget ∧ run'.agentsUsed = run.agentsUsed := by
  obtain ⟨limit, hlimit, hmax, hused⟩ := h.budget
  unfold TrackedRun.resume at hresume
  split at hresume
  · cases hresume
  · simp only at hresume
    split at hresume
    · cases hresume
    · cases hresume
      cases newAgentBudget with
      | none => exact ⟨⟨limit, by simp [candidateBudget, hlimit], hmax, hused⟩, rfl⟩
      | some raised =>
        refine ⟨⟨max raised.1 limit, by simp [candidateBudget, hlimit], ?_, ?_⟩, rfl⟩
        · exact max_le raised.2.2 hmax
        · exact hused.trans (le_max_right _ _)

end TrackedRun

end GrokBuild.Workflow
