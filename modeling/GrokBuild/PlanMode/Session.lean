import GrokBuild.Lib.Guided
import GrokBuild.PlanMode.Tracker

/-!
# Plan mode: what the model is told

The places of a session that drive the tracker (`session_mode.rs`,
`session_setup.rs`, `turn_end.rs`, `tool_calls.rs`, `compaction.rs`,
`notification_bridge.rs`), in any order, with the plan-mode messages that
reach the model. A reminder is kept as its rendered text; the tag around it
is left out.
-/

namespace GrokBuild.PlanMode

open TextLines

inductive Told where
  | on
  | off
  deriving DecidableEq, Repr

/-- A message about plan mode that the model receives. -/
structure PlanMessage where
  tells : Told
  text : Text
  deriving DecidableEq, Repr

/-- The result of `enter_plan_mode`. -/
def enteredMessage : PlanMessage where
  tells := .on
  text := ("You have entered plan mode. You should now focus on exploring the codebase " ++
    "and creating an implementation plan.").toList

/-- The result of `exit_plan_mode`, with or without a plan. -/
def exitedMessage (planContent : Bool) : PlanMessage where
  tells := .off
  text :=
    if planContent then "Your plan has been approved. You can now start coding.".toList
    else "Plan mode exit approved. No plan content was found — you can proceed.".toList

/-- The answer to a call of the named tool whose plan the user abandons. -/
def abandonedMessage (functionName : Text) : PlanMessage where
  tells := .off
  text := ("The user chose to abandon the plan entirely (via the Abandon option in the plan " ++
      "approval dialog). Plan mode has been disabled. Do not call ").toList ++ functionName ++
    " again unless the user explicitly asks to re-enter plan mode.".toList

structure Session where
  tracker : PlanModeTracker
  /-- What the model was told about plan mode, oldest first. -/
  messages : List PlanMessage
  deriving DecidableEq, Repr

/-- What is not up to the session. On the compat harness the result of an
approved exit does not say that plan mode ended. -/
structure Setting where
  sessionDir : Text
  renderer : Renderer
  queueExitReminderOnApprovedExit : Bool

/-- What happens to a session, as far as plan mode goes. `planHasContent` is
what the plan file says when a reminder is rendered. -/
inductive Event where
  | toggleOn
  | activateMidTurn (planHasContent : Bool)
  | toggleOff (turnInFlight : Bool)
  | turnStart (planHasContent : Bool)
  | safePoint
  | enterTool
  | approvedExit (planContent : Bool)
  | abandonedExit (functionName : Text)
  | turnEnd
  | compactionReminder (planHasContent : Bool)
  | compactionEnd
  | awaitApproval (awaiting : Bool)
  | restart
  deriving DecidableEq, Repr

namespace Session

def start (sessionDir : Text) : Session where
  tracker := .new sessionDir
  messages := []

variable (setting : Setting) (s : Session)

/-- The last plan-mode message says so. -/
def told : Option Told := s.messages.getLast?.map (·.tells)

def update (t : PlanModeTracker) : Session := { s with tracker := t }

def push (message : PlanMessage) : Session := { s with messages := s.messages ++ [message] }

def render (template : ReminderTemplate) (planHasContent : Bool) : Option Text :=
  renderPlanTemplate setting.renderer template s.tracker.planFilePath planHasContent

/-- A rendered reminder is pushed and counted; a failed rendering changes nothing. -/
def remind (template : ReminderTemplate) (planHasContent : Bool) : Session :=
  match s.render setting template planHasContent with
  | some rendered => (s.push ⟨.on, rendered⟩).update s.tracker.recordReminderInjected
  | none => s

/-- `enter_pending`, from `handle_session_mode` and from `reconcile_plan_mode_with_prompt`. -/
def toggleOn : Session := s.update s.tracker.enterPending.1

/-- `user_exit`, from the same two places. -/
def toggleOff (turnInFlight : Bool) : Session :=
  if s.tracker.state ≠ .inactive then s.update (s.tracker.userExit turnInFlight) else s

/-- `plan_activation_template`. -/
def activationTemplate (isReentry : Bool) : ReminderTemplate :=
  if isReentry then .reentry else .full

def activatePlanModeMidTurn (planHasContent : Bool) : Session :=
  if s.tracker.state = .pending then
    match s.render setting (activationTemplate s.tracker.isReentry) planHasContent with
    | some rendered => s.update (s.tracker.activateMidTurn rendered).1
    | none => s.update s.tracker.activate.1
  else s

/-- The first two cases of `inject_plan_mode_reminders`. -/
def injectActive (planHasContent : Bool) : Session :=
  let perTurn (s : Session) :=
    if s.tracker.isActive then
      s.remind setting (if s.tracker.shouldUseFullReminder then .full else .sparse) planHasContent
    else s
  if s.tracker.state = .pending then
    let activated := s.update s.tracker.activate.1
    match s.render setting (activationTemplate s.tracker.isReentry) planHasContent with
    | some rendered =>
      (activated.push ⟨.on, rendered⟩).update activated.tracker.recordReminderInjected
    | none => perTurn activated
  else perTurn s

/-- Its third case. -/
def injectExit : Session :=
  if s.tracker.pendingExitReminder then
    let told :=
      match s.render setting .exit false with
      | some rendered => s.push ⟨.off, rendered⟩
      | none => s
    told.update told.tracker.clearPendingExitReminder
  else s

def injectPlanModeReminders (planHasContent : Bool) : Session :=
  (s.injectActive setting planHasContent).injectExit setting

/-- The first part of `flush_pending_skill_reminders`. -/
def flushPendingActivation : Session :=
  let taken := s.tracker.takePendingActivation
  match taken.2 with
  | some text => ((s.update taken.1).push ⟨.on, text⟩).update taken.1.recordReminderInjected
  | none => s.update taken.1

def enterPlanMode : Session := (s.update s.tracker.activateFromTool.1).push enteredMessage

/-- An approved `exit_plan_mode`: the tracker, then the tool's result. -/
def exitPlanMode (planContent : Bool) : Session :=
  let exited := s.tracker.deactivateApproved
  if setting.queueExitReminderOnApprovedExit then
    s.update (if exited.2 then exited.1.queueExitReminder else exited.1)
  else (s.update exited.1).push (exitedMessage planContent)

def abandonPlan (functionName : Text) : Session :=
  (s.update s.tracker.deactivateApproved.1).push (abandonedMessage functionName)

/-- The plan section of a compacted conversation. -/
def compactionReminder (planHasContent : Bool) : Session :=
  if s.tracker.isActive then
    match s.render setting .full planHasContent with
    | some rendered => s.push ⟨.on, rendered⟩
    | none => s
  else s

def restart : Session := s.update (.fromSnapshot setting.sessionDir s.tracker.snapshot)

def step : Event → Session
  | .toggleOn => s.toggleOn
  | .activateMidTurn planHasContent => s.activatePlanModeMidTurn setting planHasContent
  | .toggleOff turnInFlight => s.toggleOff turnInFlight
  | .turnStart planHasContent => s.injectPlanModeReminders setting planHasContent
  | .safePoint => s.flushPendingActivation
  | .enterTool => s.enterPlanMode
  | .approvedExit planContent => s.exitPlanMode setting planContent
  | .abandonedExit functionName => s.abandonPlan functionName
  | .turnEnd => s.update s.tracker.completeDeferredExit
  | .compactionReminder planHasContent => s.compactionReminder setting planHasContent
  | .compactionEnd => s.update s.tracker.resetAfterCompaction
  | .awaitApproval awaiting => s.update (s.tracker.setAwaitingPlanApproval awaiting)
  | .restart => s.restart setting

@[simp] theorem update_tracker (t : PlanModeTracker) : (s.update t).tracker = t := rfl

@[simp] theorem update_self : s.update s.tracker = s := rfl

@[simp] theorem update_messages (t : PlanModeTracker) : (s.update t).messages = s.messages := rfl

@[simp] theorem push_tracker (message : PlanMessage) : (s.push message).tracker = s.tracker := rfl

@[simp] theorem push_messages (message : PlanMessage) :
    (s.push message).messages = s.messages ++ [message] := rfl

@[simp] theorem told_update (t : PlanModeTracker) : (s.update t).told = s.told := rfl

@[simp] theorem told_push (message : PlanMessage) : (s.push message).told = some message.tells := by
  simp [told, push]

/-- Either the model is told that plan mode is on, or nothing happens. -/
theorem remind_cases (template : ReminderTemplate) (planHasContent : Bool) :
    (∃ rendered, s.remind setting template planHasContent =
      (s.push ⟨.on, rendered⟩).update s.tracker.recordReminderInjected) ∨
    s.remind setting template planHasContent = s := by
  unfold remind
  split
  next rendered _ => exact .inl ⟨rendered, rfl⟩
  next => exact .inr rfl

theorem injectExit_armed (h : s.tracker.pendingExitReminder = true) :
    s.injectExit setting =
      (s.push ⟨.off, ReminderTemplate.exit.text.toList⟩).update
        s.tracker.clearPendingExitReminder := by
  simp [injectExit, h, render, renderPlanTemplate_exit]

theorem injectExit_unarmed (h : s.tracker.pendingExitReminder = false) :
    s.injectExit setting = s := by
  simp [injectExit, h]

theorem injectActive_pending (h : s.tracker.state = .pending) (planHasContent : Bool) :
    (∃ rendered, s.injectActive setting planHasContent =
      ((s.update s.tracker.activate.1).push ⟨.on, rendered⟩).update
        s.tracker.activate.1.recordReminderInjected) ∨
    s.injectActive setting planHasContent = s.update s.tracker.activate.1 := by
  have hactive : (s.update s.tracker.activate.1).tracker.isActive = true := by
    simp [PlanModeTracker.activate, PlanModeTracker.isActive, h]
  unfold injectActive
  simp only [h, if_true]
  split
  next rendered _ => exact .inl ⟨rendered, rfl⟩
  next =>
    rw [if_pos hactive]
    exact (s.update s.tracker.activate.1).remind_cases setting _ _

theorem injectActive_active (h : s.tracker.state = .active) (planHasContent : Bool) :
    (∃ rendered, s.injectActive setting planHasContent =
      (s.push ⟨.on, rendered⟩).update s.tracker.recordReminderInjected) ∨
    s.injectActive setting planHasContent = s := by
  have hactive : s.tracker.isActive = true := by simp [PlanModeTracker.isActive, h]
  have hpending : ¬ s.tracker.state = .pending := by rw [h]; decide
  unfold injectActive
  simp only [hpending, if_false, hactive, if_true]
  exact s.remind_cases setting _ _

theorem injectActive_idle (hpending : s.tracker.state ≠ .pending)
    (hactive : s.tracker.state ≠ .active) (planHasContent : Bool) : s.injectActive setting planHasContent = s := by
  simp [injectActive, hpending, PlanModeTracker.isActive, hactive]

end Session

end GrokBuild.PlanMode
