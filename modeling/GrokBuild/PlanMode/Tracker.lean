import GrokBuild.Lib.Lines

/-!
# Plan mode: the tracker

`plan_mode.rs`: the lifecycle of plan mode in a session, with the flags that
say what the model still has to be told, and the reminders it is told with.
A tracker's methods return what the code returns next to the new tracker.
-/

namespace GrokBuild.PlanMode

open TextLines

inductive PlanModeState where
  | inactive
  | pending
  | active
  | exitPending
  deriving DecidableEq, Repr

/-- A mid-turn activation reminder that waits for a safe point, with what a
withdrawal restores. -/
structure PendingActivation where
  text : Text
  priorWasPreviouslyActive : Bool
  deriving DecidableEq, Repr

structure PlanModeTracker where
  state : PlanModeState
  wasPreviouslyActive : Bool
  reminderCount : Nat
  pendingExitReminder : Bool
  awaitingPlanApproval : Bool
  pendingActivation : Option PendingActivation
  planFilePath : Text
  deriving DecidableEq, Repr

/-- `plan_mode.json`. -/
structure PlanModeSnapshot where
  state : PlanModeState
  wasPreviouslyActive : Bool
  reminderCount : Nat
  pendingExitReminder : Bool
  awaitingPlanApproval : Bool
  deriving DecidableEq, Repr

namespace PlanModeTracker

def planFileIn (sessionDir : Text) : Text := sessionDir ++ "/plan.md".toList

def new (sessionDir : Text) : PlanModeTracker where
  state := .inactive
  wasPreviouslyActive := false
  reminderCount := 0
  pendingExitReminder := false
  awaitingPlanApproval := false
  pendingActivation := none
  planFilePath := planFileIn sessionDir

/-- The states that wait for the client or for a turn do not survive a restart. -/
def fromSnapshot (sessionDir : Text) (snapshot : PlanModeSnapshot) : PlanModeTracker :=
  let snapshot :=
    match snapshot.state with
    | .pending => { snapshot with state := .inactive }
    | .exitPending => { snapshot with state := .inactive, pendingExitReminder := true }
    | .inactive | .active => snapshot
  { state := snapshot.state
    wasPreviouslyActive := snapshot.wasPreviouslyActive
    reminderCount := snapshot.reminderCount
    pendingExitReminder := snapshot.pendingExitReminder
    awaitingPlanApproval := snapshot.awaitingPlanApproval
    pendingActivation := none
    planFilePath := planFileIn sessionDir }

variable (t : PlanModeTracker)

def setAwaitingPlanApproval (awaiting : Bool) : PlanModeTracker :=
  { t with awaitingPlanApproval := awaiting }

def snapshot : PlanModeSnapshot where
  state := t.state
  wasPreviouslyActive := t.wasPreviouslyActive
  reminderCount := t.reminderCount
  pendingExitReminder := t.pendingExitReminder
  awaitingPlanApproval := t.awaitingPlanApproval

def isActive : Bool := t.state == .active

def shouldUseFullReminder : Bool := t.reminderCount % 2 == 0

def isReentry : Bool := t.wasPreviouslyActive && t.state == .pending

def enterPending : PlanModeTracker × Bool :=
  match t.state with
  | .inactive => ({ t with state := .pending, pendingExitReminder := false }, true)
  | .exitPending => ({ t with state := .active, pendingExitReminder := false }, true)
  | .pending | .active => (t, false)

def activate : PlanModeTracker × Bool :=
  if t.state ≠ .pending then (t, false)
  else ({ t with state := .active, wasPreviouslyActive := true, reminderCount := 0 }, true)

def activateMidTurn (renderedReminder : Text) : PlanModeTracker × Bool :=
  if t.state ≠ .pending then (t, false)
  else
    ({ t with
        state := .active
        wasPreviouslyActive := true
        reminderCount := 0
        pendingActivation := some ⟨renderedReminder, t.wasPreviouslyActive⟩ }, true)

def takePendingActivation : PlanModeTracker × Option Text :=
  ({ t with pendingActivation := none }, t.pendingActivation.map (·.text))

def activateFromTool : PlanModeTracker × Bool :=
  if t.state ≠ .inactive then (t, false)
  else
    ({ t with
        state := .active
        wasPreviouslyActive := true
        reminderCount := 0
        pendingExitReminder := false }, true)

def deactivateApproved : PlanModeTracker × Bool :=
  if t.state ≠ .active then (t, false)
  else
    ({ t with
        state := .inactive
        reminderCount := 0
        awaitingPlanApproval := false
        pendingActivation := none }, true)

def userExit (turnInFlight : Bool) : PlanModeTracker :=
  let taken := { t with awaitingPlanApproval := false, pendingActivation := none }
  match t.pendingActivation, t.state with
  -- a buffered activation is withdrawn: the model has not seen it
  | some pending, .active =>
    { taken with state := .inactive, wasPreviouslyActive := pending.priorWasPreviouslyActive }
  | _, .pending => { taken with state := .inactive }
  | none, .active =>
    if turnInFlight then { taken with state := .exitPending }
    else { taken with state := .inactive, pendingExitReminder := true }
  | _, .inactive | _, .exitPending => taken

def completeDeferredExit : PlanModeTracker :=
  if t.state ≠ .exitPending then t
  else { t with state := .inactive, pendingExitReminder := true }

def queueExitReminder : PlanModeTracker := { t with pendingExitReminder := true }

def recordReminderInjected : PlanModeTracker := { t with reminderCount := t.reminderCount + 1 }

def clearPendingExitReminder : PlanModeTracker := { t with pendingExitReminder := false }

def resetAfterCompaction : PlanModeTracker :=
  if t.state = .active then { t with reminderCount := 0, pendingActivation := none } else t

end PlanModeTracker

/-! ## The reminders -/

inductive ReminderTemplate where
  | full
  | sparse
  | reentry
  | exit
  deriving DecidableEq, Repr

/-- The template texts; in them, \x7b and \x7d stand for braces. -/
def ReminderTemplate.text : ReminderTemplate → String
  | .full =>
    "Plan mode is active. Do not make any edits or writes to the system.\n\n## Plan File:\n" ++
    "$\x7b%- if plan_has_content %\x7d\nA plan file exists at $\x7b\x7b plan_path \x7d\x7d. " ++
    "You can read it and make edits using the $\x7b\x7b tools.by_kind.edit \x7d\x7d tool.\n" ++
    "$\x7b%- else %\x7d\nNo plan written yet. Write your plan to $\x7b\x7b plan_path \x7d\x7d " ++
    "using the $\x7b\x7b tools.by_kind.edit \x7d\x7d tool.\n$\x7b%- endif %\x7d\n\n" ++
    "You should build your plan by writing to or editing this file. " ++
    "Note that this is the only file you are allowed to edit.\n\n" ++
    "Your turn should only end with either $\x7b\x7b tools.by_kind.ask_user \x7d\x7d to clarify " ++
    "requirements or $\x7b\x7b tools.by_kind.exit_plan \x7d\x7d to present your plan to the user."
  | .sparse =>
    "Plan mode is still active. Do not make any edits or writes to the system " ++
    "except for the plan file."
  | .reentry =>
    "## Returning to Plan Mode\n\n" ++
    "You are entering plan mode again after having previously exited it. " ++
    "A plan file exists at $\x7b\x7b plan_path \x7d\x7d from your previous planning session.\n\n" ++
    "Your turn should only end with either $\x7b\x7b tools.by_kind.ask_user \x7d\x7d to clarify " ++
    "requirements or $\x7b\x7b tools.by_kind.exit_plan \x7d\x7d to present your plan to the user."
  | .exit =>
    "You have exited plan mode. You can now make edits, run tools, and take actions."

/-- The template engine, on a template with placeholders, the plan's path and
whether the plan has content; it can fail. -/
abbrev Renderer := Text → Text → Bool → Option Text

/-- `render_with_extra`: a text without placeholders is its own rendering. -/
def renderPlanTemplate (renderer : Renderer) (template : ReminderTemplate) (planPath : Text)
    (planHasContent : Bool) : Option Text :=
  let text := template.text.toList
  if ¬ "$\x7b\x7b".toList <:+: text ∧ ¬ "$\x7b%".toList <:+: text then some text
  else renderer text planPath planHasContent

theorem renderPlanTemplate_exit (renderer : Renderer) (planPath : Text) (planHasContent : Bool) :
    renderPlanTemplate renderer .exit planPath planHasContent =
      some ReminderTemplate.exit.text.toList := by
  have hfree : ¬ "$\x7b\x7b".toList <:+: ReminderTemplate.exit.text.toList ∧
      ¬ "$\x7b%".toList <:+: ReminderTemplate.exit.text.toList := by
    decide +kernel
  rw [renderPlanTemplate, if_pos hfree]

end GrokBuild.PlanMode
