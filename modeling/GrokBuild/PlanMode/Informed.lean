import GrokBuild.PlanMode.Session

/-!
# Plan mode: whether the model knows

The model is informed when an inactive tracker whose model last heard that
plan mode is on has the exit reminder armed, and when an active tracker that
neither buffers nor owes an activation reminder has a model that last heard
that plan mode is on. A step keeps this exactly when it heeds what the model
was told (`informed_step`); in a run of such steps it holds all along.
-/

namespace GrokBuild.PlanMode

open TextLines Guided

/-- A session with a note whether an activation reminder is due: the
activation came without one, or the buffered one was dropped, so that the
next turn start is to tell the model. -/
structure Run where
  session : Session
  due : Bool

/-- An activation that was under way is complete, and nothing is left of its reminder. -/
def ActivationLost (before after : PlanModeTracker) : Prop :=
  (before.state = .pending ∨ before.pendingActivation ≠ none) ∧
    after.state = .active ∧ after.pendingActivation = none

instance (before after : PlanModeTracker) : Decidable (ActivationLost before after) :=
  inferInstanceAs (Decidable (_ ∧ _ ∧ _))

theorem not_lost {before : PlanModeTracker} (hstate : before.state ≠ .pending)
    (hnone : before.pendingActivation = none) (after : PlanModeTracker) :
    ¬ ActivationLost before after := by
  rintro ⟨hpending | hbuffered, -⟩
  · exact hstate hpending
  · exact hbuffered hnone

namespace Run

def start (sessionDir : Text) : Run where
  session := .start sessionDir
  due := false

variable (setting : Setting) (r : Run)

/-- The model has been told in this step that plan mode is on. -/
def Heard (before after : Session) : Prop :=
  before.messages.length < after.messages.length ∧ after.told = some .on

instance (before after : Session) : Decidable (Heard before after) :=
  inferInstanceAs (Decidable (_ ∧ _))

def after (s : Session) : Run where
  session := s
  due :=
    if Heard r.session s then false
    else r.due || decide (ActivationLost r.session.tracker s.tracker)

def step (e : Event) : Run := r.after (r.session.step setting e)

end Run

/-- The two things that must not happen: plan mode is over, the model thinks
it is on and nothing will tell it; plan mode is on, nothing is to come, and
the model does not know. -/
structure Informed (r : Run) : Prop where
  inactive : r.session.tracker.state = .inactive → r.session.told = some .on →
    r.session.tracker.pendingExitReminder = true
  active : r.session.tracker.state = .active → r.session.tracker.pendingActivation = none →
    r.due = false → r.session.told = some .on

/-- Where a step can leave the model with a wrong idea. Toggling off while
pending, or while the activation reminder is still buffered, takes back what
this activation told the model, which is nothing: that is all right unless an
earlier plan mode told it and its exit reminder was dropped on the way in.
A restart does the same to a pending tracker. Toggling on again before a
deferred exit took place tells the model nothing either: an exit approved in
between has told it the contrary. -/
def Heeds (r : Run) : Event → Prop
  | .toggleOff _ =>
    r.session.told = some .on → r.session.tracker.state ≠ .pending ∧
      r.session.tracker.pendingActivation = none
  | .restart => r.session.told = some .on → r.session.tracker.state ≠ .pending
  | .toggleOn =>
    r.session.tracker.state = .exitPending → r.due = false → r.session.told = some .on
  | _ => True

instance (r : Run) (e : Event) : Decidable (Heeds r e) := by
  cases e <;> unfold Heeds <;> infer_instance

/-- The flags belong to their states. -/
structure Consistent (t : PlanModeTracker) : Prop where
  buffered : t.pendingActivation ≠ none → t.state = .active
  exit : t.pendingExitReminder = true → t.state = .inactive

namespace Consistent

variable {t : PlanModeTracker}

theorem new (sessionDir : Text) : Consistent (.new sessionDir) where
  buffered hbuffered := absurd rfl hbuffered
  exit hexit := by cases hexit

theorem buffer_none (h : Consistent t) (hstate : t.state ≠ .active) :
    t.pendingActivation = none := by
  by_contra hbuffered
  exact hstate (h.buffered hbuffered)

theorem exit_false (h : Consistent t) (hstate : t.state ≠ .inactive) :
    t.pendingExitReminder = false := by
  by_contra hexit
  exact hstate (h.exit (by simpa using hexit))

theorem fromSnapshot (h : Consistent t) (sessionDir : Text) : Consistent
    (.fromSnapshot sessionDir t.snapshot) where
  buffered hbuffered := absurd rfl hbuffered
  exit hexit := by
    have hexit' := h.exit
    revert hexit
    cases hstate : t.state <;> simp_all [PlanModeTracker.fromSnapshot, PlanModeTracker.snapshot]

theorem setAwaiting (h : Consistent t) (awaiting : Bool) : Consistent
    (t.setAwaitingPlanApproval awaiting) :=
  ⟨h.buffered, h.exit⟩

theorem recordReminder (h : Consistent t) : Consistent t.recordReminderInjected :=
  ⟨h.buffered, h.exit⟩

theorem clearExit (h : Consistent t) : Consistent t.clearPendingExitReminder where
  buffered := h.buffered
  exit hexit := by cases hexit

theorem enterPending (h : Consistent t) : Consistent t.enterPending.1 := by
  have hbuffer := h.buffer_none
  unfold PlanModeTracker.enterPending
  split
  case h_1 hstate =>
    exact ⟨fun hb => absurd (hbuffer (by simp [hstate])) hb, fun he => by cases he⟩
  case h_2 hstate => exact ⟨fun _ => rfl, fun he => by cases he⟩
  case h_3 | h_4 => exact h

theorem activate (h : Consistent t) : Consistent t.activate.1 := by
  unfold PlanModeTracker.activate
  split
  · exact h
  next hstate =>
    have hexit := h.exit_false (by simp_all)
    exact ⟨fun _ => rfl, fun he => by simp_all⟩

theorem activateMidTurn (h : Consistent t) (text : Text) : Consistent
    (t.activateMidTurn text).1 := by
  unfold PlanModeTracker.activateMidTurn
  split
  · exact h
  next hstate =>
    have hexit := h.exit_false (by simp_all)
    exact ⟨fun _ => rfl, fun he => by simp_all⟩

theorem takePending (h : Consistent t) : Consistent t.takePendingActivation.1 where
  buffered hbuffered := absurd rfl hbuffered
  exit := h.exit

theorem fromTool (h : Consistent t) : Consistent t.activateFromTool.1 := by
  unfold PlanModeTracker.activateFromTool
  split
  · exact h
  · exact ⟨fun _ => rfl, fun he => by cases he⟩

theorem deactivate (h : Consistent t) : Consistent t.deactivateApproved.1 := by
  unfold PlanModeTracker.deactivateApproved
  split
  · exact h
  · exact ⟨fun hb => absurd rfl hb, fun _ => rfl⟩

theorem queueExit (h : Consistent t) (hdeactivated : t.deactivateApproved.2 = true) :
    Consistent t.deactivateApproved.1.queueExitReminder := by
  have hbuffered := h.deactivate.buffered
  refine ⟨hbuffered, fun _ => ?_⟩
  unfold PlanModeTracker.deactivateApproved at hdeactivated ⊢
  split at hdeactivated
  · cases hdeactivated
  · simp_all [PlanModeTracker.queueExitReminder]

theorem userExit (h : Consistent t) (turnInFlight : Bool) : Consistent
    (t.userExit turnInFlight) := by
  have hexit := h.exit
  unfold PlanModeTracker.userExit
  split
  case h_1 => exact ⟨fun hb => absurd rfl hb, fun _ => rfl⟩
  case h_2 => exact ⟨fun hb => absurd rfl hb, fun _ => rfl⟩
  case h_3 hstate =>
    split
    · exact ⟨fun hb => absurd rfl hb, fun he => by simp_all⟩
    · exact ⟨fun hb => absurd rfl hb, fun _ => rfl⟩
  case h_4 | h_5 => exact ⟨fun hb => absurd rfl hb, hexit⟩

theorem completeDeferred (h : Consistent t) : Consistent t.completeDeferredExit := by
  unfold PlanModeTracker.completeDeferredExit
  split
  · exact h
  next hstate => exact ⟨fun hb => absurd (h.buffer_none (by simp_all)) hb, fun _ => rfl⟩

theorem resetCompaction (h : Consistent t) : Consistent t.resetAfterCompaction := by
  unfold PlanModeTracker.resetAfterCompaction
  split
  · exact ⟨fun hb => absurd rfl hb, h.exit⟩
  · exact h

end Consistent

/-- Every step keeps the flags with their states. -/
theorem Consistent.step {s : Session} (h : Consistent s.tracker) (setting : Setting) (e : Event) :
    Consistent (s.step setting e).tracker := by
  have hremind : ∀ (s : Session) template planHasContent, Consistent s.tracker →
      Consistent (s.remind setting template planHasContent).tracker := by
    intro s template planHasContent hs
    unfold Session.remind
    split
    · exact hs.recordReminder
    · exact hs
  cases e with
  | toggleOn => exact h.enterPending
  | activateMidTurn planHasContent =>
    show Consistent (s.activatePlanModeMidTurn setting planHasContent).tracker
    unfold Session.activatePlanModeMidTurn
    split
    · split
      · exact h.activateMidTurn _
      · exact h.activate
    · exact h
  | toggleOff turnInFlight =>
    show Consistent (s.toggleOff turnInFlight).tracker
    unfold Session.toggleOff
    split
    · exact h.userExit turnInFlight
    · exact h
  | turnStart planHasContent =>
    have hactive : Consistent (s.injectActive setting planHasContent).tracker := by
      unfold Session.injectActive
      dsimp only
      split
      · split
        · exact h.activate.recordReminder
        · split
          · exact hremind _ _ _ h.activate
          · exact h.activate
      · split
        · exact hremind _ _ _ h
        · exact h
    show Consistent ((s.injectActive setting planHasContent).injectExit setting).tracker
    unfold Session.injectExit
    split
    · split
      · exact hactive.clearExit
      · exact hactive.clearExit
    · exact hactive
  | safePoint =>
    show Consistent s.flushPendingActivation.tracker
    unfold Session.flushPendingActivation
    dsimp only
    split
    · exact h.takePending.recordReminder
    · exact h.takePending
  | enterTool => exact h.fromTool
  | approvedExit planContent =>
    show Consistent (s.exitPlanMode setting planContent).tracker
    unfold Session.exitPlanMode
    dsimp only
    split
    · split
      next hdeactivated => exact h.queueExit hdeactivated
      · exact h.deactivate
    · exact h.deactivate
  | abandonedExit functionName => exact h.deactivate
  | turnEnd => exact h.completeDeferred
  | compactionReminder planHasContent =>
    show Consistent (s.compactionReminder setting planHasContent).tracker
    unfold Session.compactionReminder
    split
    · split <;> exact h
    · exact h
  | compactionEnd => exact h.resetCompaction
  | awaitApproval awaiting => exact h.setAwaiting awaiting
  | restart => exact h.fromSnapshot _

/-! ## What a step does to what the model knows -/

section Steps

variable {r : Run}

theorem informed_update {t : PlanModeTracker} : Informed (r.after (r.session.update t)) ↔
    (t.state = .inactive → r.session.told = some .on → t.pendingExitReminder = true) ∧
    (t.state = .active → t.pendingActivation = none → r.due = false →
      ¬ ActivationLost r.session.tracker t → r.session.told = some .on) := by
  have hheard : ¬ Run.Heard r.session (r.session.update t) := fun h => absurd h.1 (Nat.lt_irrefl _)
  have hdue : (r.after (r.session.update t)).due = false ↔
      r.due = false ∧ ¬ ActivationLost r.session.tracker t := by
    simp only [Run.after, hheard, if_false, Bool.or_eq_false_iff, decide_eq_false_iff_not]
    rfl
  constructor
  · intro h
    exact ⟨h.inactive, fun hactive hbuffer hfalse hlost =>
      h.active hactive hbuffer (hdue.mpr ⟨hfalse, hlost⟩)⟩
  · intro h
    exact ⟨h.1, fun hactive hbuffer hfalse =>
      h.2 hactive hbuffer (hdue.mp hfalse).1 (hdue.mp hfalse).2⟩

theorem informed_on {s : Session} (htold : s.told = some .on) : Informed (r.after s) ↔
    (s.tracker.state = .inactive → s.tracker.pendingExitReminder = true) := by
  constructor
  · exact fun h hinactive => h.inactive hinactive htold
  · exact fun h => ⟨fun hinactive _ => h hinactive, fun _ _ _ => htold⟩

theorem informed_off {s : Session} (htold : s.told = some .off) (hstate :
    s.tracker.state ≠ .active) :
    Informed (r.after s) := by
  refine ⟨fun _ hon => ?_, fun hactive => absurd hactive hstate⟩
  have hon' : s.told = some .on := hon
  rw [htold] at hon'
  cases hon'

theorem Informed.quiet {t : PlanModeTracker} (h : Informed r) (hstate :
    t.state = r.session.tracker.state)
    (hexit : t.pendingExitReminder = r.session.tracker.pendingExitReminder)
    (hbuffer : t.pendingActivation = r.session.tracker.pendingActivation) :
    Informed (r.after (r.session.update t)) := by
  rw [informed_update, hstate, hexit, hbuffer]
  exact ⟨h.inactive, fun hactive hnone hdue _ => h.active hactive hnone hdue⟩

theorem informed_toggleOn (hc : Consistent r.session.tracker) (h : Informed r) : Informed
    (r.after r.session.toggleOn) ↔ Heeds r .toggleOn := by
  unfold Session.toggleOn Heeds
  cases hstate : r.session.tracker.state with
  | inactive => simp [hstate, informed_update, PlanModeTracker.enterPending]
  | exitPending =>
    have hnone := hc.buffer_none (by rw [hstate]; decide)
    have hlost := not_lost (by rw [hstate]; decide) hnone
    simp [hstate, informed_update, PlanModeTracker.enterPending, hnone, hlost]
  | pending | active =>
    have hkept : r.session.tracker.enterPending.1 = r.session.tracker := by
      simp [PlanModeTracker.enterPending, hstate]
    simpa [hkept] using h.quiet rfl rfl rfl

theorem informed_activateMidTurn (hc : Consistent r.session.tracker) (h : Informed r) (setting :
    Setting) (planHasContent : Bool) :
    Informed (r.after (r.session.activatePlanModeMidTurn setting planHasContent)) := by
  unfold Session.activatePlanModeMidTurn
  split
  next hpending =>
    split
    next rendered _ =>
      rw [informed_update]
      simp [PlanModeTracker.activateMidTurn, hpending]
    next =>
      -- without a reminder, the activation is lost to this turn
      have hnone := hc.buffer_none (by rw [hpending]; decide)
      rw [informed_update]
      simp [PlanModeTracker.activate, hpending, ActivationLost, hnone]
  next => exact h.quiet rfl rfl rfl

theorem informed_toggleOff (hc : Consistent r.session.tracker) (h : Informed r) (turnInFlight :
    Bool) :
    Informed (r.after (r.session.toggleOff turnInFlight)) ↔ Heeds r (.toggleOff turnInFlight) := by
  unfold Session.toggleOff Heeds
  cases hstate : r.session.tracker.state with
  | inactive =>
    have hnone := hc.buffer_none (by rw [hstate]; decide)
    simpa [hstate, hnone] using h.quiet rfl rfl rfl
  | pending =>
    have hexit := hc.exit_false (by rw [hstate]; decide)
    have hnone := hc.buffer_none (by rw [hstate]; decide)
    simp [hstate, hnone, informed_update, PlanModeTracker.userExit, hexit]
  | active =>
    have hexit := hc.exit_false (by rw [hstate]; decide)
    cases hbuffer : r.session.tracker.pendingActivation with
    | some pending => simp [hstate, hbuffer, informed_update, PlanModeTracker.userExit, hexit]
    | none =>
      cases turnInFlight <;>
        simp [hstate, hbuffer, informed_update, PlanModeTracker.userExit]
  | exitPending =>
    have hnone := hc.buffer_none (by rw [hstate]; decide)
    simp [hstate, hnone, informed_update, PlanModeTracker.userExit]

theorem informed_turnStart (hc : Consistent r.session.tracker) (h : Informed r) (setting : Setting)
    (planHasContent : Bool) :
    Informed (r.after (r.session.injectPlanModeReminders setting planHasContent)) := by
  unfold Session.injectPlanModeReminders
  cases hstate : r.session.tracker.state with
  | pending =>
    have hexit := hc.exit_false (by rw [hstate]; decide)
    have hexit' : r.session.tracker.activate.1.pendingExitReminder = false := by
      simp [PlanModeTracker.activate, hstate, hexit]
    have hactive : r.session.tracker.activate.1.state = .active := by
      simp [PlanModeTracker.activate, hstate]
    rcases r.session.injectActive_pending setting hstate planHasContent with
      ⟨rendered, hon⟩ | hsilent
    · rw [hon, Session.injectExit_unarmed, informed_on (by simp)]
      · intro hinactive
        have hinactive' : r.session.tracker.activate.1.state = .inactive := hinactive
        rw [hactive] at hinactive'
        cases hinactive'
      · exact hexit'
    · have hnone := hc.buffer_none (by rw [hstate]; decide)
      rw [hsilent, Session.injectExit_unarmed _ _ hexit', informed_update]
      simp [PlanModeTracker.activate, hstate, ActivationLost, hnone]
  | active =>
    have hexit := hc.exit_false (by rw [hstate]; decide)
    rcases r.session.injectActive_active setting hstate planHasContent with
      ⟨rendered, hon⟩ | hsilent
    · rw [hon, Session.injectExit_unarmed, informed_on (by simp)]
      · intro hinactive
        have hinactive' : r.session.tracker.state = .inactive := hinactive
        rw [hstate] at hinactive'
        cases hinactive'
      · exact hexit
    · rw [hsilent, Session.injectExit_unarmed _ _ hexit]
      exact h.quiet rfl rfl rfl
  | inactive | exitPending =>
    rw [Session.injectActive_idle _ _ (by rw [hstate]; decide) (by rw [hstate]; decide)]
    cases hexit : r.session.tracker.pendingExitReminder with
    | true =>
      rw [Session.injectExit_armed _ _ hexit]
      refine informed_off (by simp) ?_
      simp [PlanModeTracker.clearPendingExitReminder, hstate]
    | false =>
      rw [Session.injectExit_unarmed _ _ hexit]
      exact h.quiet rfl rfl rfl

theorem informed_safePoint (hc : Consistent r.session.tracker) (h : Informed r) : Informed
    (r.after r.session.flushPendingActivation) := by
  unfold Session.flushPendingActivation
  cases hbuffer : r.session.tracker.pendingActivation with
  | none =>
    simp only [PlanModeTracker.takePendingActivation, hbuffer, Option.map_none]
    exact h.quiet rfl rfl hbuffer.symm
  | some pending =>
    have hactive := hc.buffered (by simp [hbuffer])
    simp only [PlanModeTracker.takePendingActivation, hbuffer, Option.map_some]
    rw [informed_on (by simp)]
    simp [PlanModeTracker.recordReminderInjected, hactive]

theorem informed_enterTool : Informed (r.after r.session.enterPlanMode) := by
  unfold Session.enterPlanMode PlanModeTracker.activateFromTool
  rw [informed_on (by simp [enteredMessage])]
  by_cases hstate : r.session.tracker.state = .inactive <;> simp [hstate]

theorem informed_deactivate (message : PlanMessage) (htells : message.tells = .off) :
    Informed (r.after ((r.session.update r.session.tracker.deactivateApproved.1).push message)) := by
  refine informed_off (by simp [htells]) ?_
  by_cases hstate : r.session.tracker.state = .active <;>
    simp [PlanModeTracker.deactivateApproved, hstate]

theorem informed_approvedExit (h : Informed r) (setting : Setting) (planContent : Bool) :
    Informed (r.after (r.session.exitPlanMode setting planContent)) := by
  unfold Session.exitPlanMode
  dsimp only
  split
  next =>
    by_cases hstate : r.session.tracker.state = .active
    · rw [informed_update]
      simp [PlanModeTracker.deactivateApproved, hstate, PlanModeTracker.queueExitReminder]
    · have hkept : r.session.tracker.deactivateApproved = (r.session.tracker, false) := by
        simp [PlanModeTracker.deactivateApproved, hstate]
      rw [hkept]
      exact h.quiet rfl rfl rfl
  next => exact informed_deactivate _ rfl

theorem informed_turnEnd (h : Informed r) :
    Informed (r.after (r.session.update r.session.tracker.completeDeferredExit)) := by
  by_cases hstate : r.session.tracker.state = .exitPending
  · rw [informed_update]
    simp [PlanModeTracker.completeDeferredExit, hstate]
  · have hkept : r.session.tracker.completeDeferredExit = r.session.tracker := by
      simp [PlanModeTracker.completeDeferredExit, hstate]
    rw [hkept]
    exact h.quiet rfl rfl rfl

theorem informed_compactionReminder (h : Informed r) (setting : Setting) (planHasContent : Bool) :
    Informed (r.after (r.session.compactionReminder setting planHasContent)) := by
  unfold Session.compactionReminder
  split
  next hactive =>
    split
    · rw [informed_on (by simp)]
      intro hinactive
      have hinactive' : r.session.tracker.state = .inactive := hinactive
      simp [PlanModeTracker.isActive, hinactive'] at hactive
    · exact h.quiet rfl rfl rfl
  next => exact h.quiet rfl rfl rfl

/-- A compaction drops a buffered reminder: it is due from then on. -/
theorem informed_compactionEnd (h : Informed r) :
    Informed (r.after (r.session.update r.session.tracker.resetAfterCompaction)) := by
  by_cases hstate : r.session.tracker.state = .active
  · rw [informed_update]
    cases hbuffer : r.session.tracker.pendingActivation with
    | some pending => simp [PlanModeTracker.resetAfterCompaction, hstate, ActivationLost, hbuffer]
    | none =>
      simp only [PlanModeTracker.resetAfterCompaction, hstate, if_true]
      refine ⟨fun hinactive => ?_, fun _ _ hdue _ => h.active hstate hbuffer hdue⟩
      cases hinactive
  · have hkept : r.session.tracker.resetAfterCompaction = r.session.tracker := by
      simp [PlanModeTracker.resetAfterCompaction, hstate]
    rw [hkept]
    exact h.quiet rfl rfl rfl

theorem informed_restart (hc : Consistent r.session.tracker) (h : Informed r) (setting : Setting) :
    Informed (r.after (r.session.restart setting)) ↔ Heeds r .restart := by
  unfold Session.restart Heeds
  rw [informed_update]
  cases hstate : r.session.tracker.state with
  | inactive =>
    have hinactive := h.inactive hstate
    simpa [PlanModeTracker.fromSnapshot, PlanModeTracker.snapshot, hstate] using hinactive
  | pending =>
    have hexit := hc.exit_false (by rw [hstate]; decide)
    simp [PlanModeTracker.fromSnapshot, PlanModeTracker.snapshot, hstate, hexit]
  | active =>
    have hactive := h.active hstate
    cases hbuffer : r.session.tracker.pendingActivation with
    | some pending =>
      simp [PlanModeTracker.fromSnapshot, PlanModeTracker.snapshot, hstate, ActivationLost, hbuffer]
    | none =>
      have hlost := not_lost (by rw [hstate]; decide) hbuffer
      simpa [PlanModeTracker.fromSnapshot, PlanModeTracker.snapshot, hstate, hlost] using
        hactive hbuffer
  | exitPending =>
    simp [PlanModeTracker.fromSnapshot, PlanModeTracker.snapshot, hstate]

/-- A step keeps the model informed exactly when it heeds what the model was told. -/
theorem informed_step (hc : Consistent r.session.tracker) (h : Informed r) (setting : Setting) (e :
    Event) : Informed (r.step setting e) ↔ Heeds r e := by
  cases e with
  | toggleOn => exact informed_toggleOn hc h
  | toggleOff turnInFlight => exact informed_toggleOff hc h turnInFlight
  | restart => exact informed_restart hc h setting
  | activateMidTurn planHasContent =>
    exact iff_of_true (informed_activateMidTurn hc h setting planHasContent) trivial
  | turnStart planHasContent =>
    exact iff_of_true (informed_turnStart hc h setting planHasContent) trivial
  | safePoint => exact iff_of_true (informed_safePoint hc h) trivial
  | enterTool => exact iff_of_true (informed_enterTool) trivial
  | approvedExit planContent =>
    exact iff_of_true (informed_approvedExit h setting planContent) trivial
  | abandonedExit functionName => exact iff_of_true (informed_deactivate _ rfl) trivial
  | turnEnd => exact iff_of_true (informed_turnEnd h) trivial
  | compactionReminder planHasContent =>
    exact iff_of_true (informed_compactionReminder h setting planHasContent) trivial
  | compactionEnd => exact iff_of_true (informed_compactionEnd h) trivial
  | awaitApproval awaiting => exact iff_of_true (h.quiet rfl rfl rfl) trivial

end Steps

/-- A session's steps, with the flags in their states. -/
def Sane (r : Run) : Prop := Consistent r.session.tracker

theorem Sane.step {r : Run} (h : Sane r) (setting : Setting) (e : Event) :
    Sane (r.step setting e) :=
  Consistent.step h setting e

theorem informed_start (sessionDir : Text) : Informed (.start sessionDir) where
  inactive _ hon := by cases hon
  active hactive := by cases hactive

/-- A run keeps the model informed from its first state to its last exactly
when each of its steps heeds what the model was told. -/
theorem informed_throughout_iff (setting : Setting) (events : List Event) :
    Throughout (Run.step setting) Informed (.start setting.sessionDir) events ↔
      EachStep (Run.step setting) Heeds (.start setting.sessionDir) events :=
  throughout_iff_eachStep (show Sane (.start _) from Consistent.new _) (informed_start _)
    (fun _ e h => h.step setting e) (fun _ e hsane h => informed_step hsane h setting e)

/-! Plan mode is on and the model knows; then it is toggled off, on, and off
again between two turns. The last toggle finds the tracker pending, and the
exit reminder of the first is gone. -/

namespace Retoggled

def setting : Setting where
  sessionDir := "/s".toList
  renderer := fun text _ _ => some text
  queueExitReminderOnApprovedExit := false

def events : List Event :=
  [.toggleOn, .turnStart false, .turnEnd, .toggleOff false, .toggleOn, .toggleOff false]

def last : Run := events.foldl (Run.step setting) (.start setting.sessionDir)

/-- Whether or not a template has placeholders, it is rendered as it is. -/
theorem render_eq (s : Session) (template : ReminderTemplate) (planHasContent : Bool) :
    s.render setting template planHasContent = some template.text.toList := by
  show (if _ then _ else _) = _
  split <;> rfl

theorem turnStart_pending {s : Session} {planHasContent : Bool} (hstate : s.tracker.state = .pending)
    (hexit : s.tracker.activate.1.recordReminderInjected.pendingExitReminder = false) :
    s.injectPlanModeReminders setting planHasContent =
      ((s.update s.tracker.activate.1).push
        ⟨.on, (Session.activationTemplate s.tracker.isReentry).text.toList⟩).update
          s.tracker.activate.1.recordReminderInjected := by
  rw [Session.injectPlanModeReminders, Session.injectActive, if_pos hstate]
  simp only [render_eq]
  rw [Session.injectExit_unarmed]
  · rfl
  · exact hexit

end Retoggled

theorem retoggled_uninformed : ¬ ∀ (setting : Setting) (events : List Event),
    Throughout (Run.step setting) Informed (.start setting.sessionDir) events := by
  intro h
  have hinformed : Informed Retoggled.last := h Retoggled.setting Retoggled.events _ List.prefix_rfl
  have hstate : Retoggled.last.session.tracker.state = .inactive ∧
      Retoggled.last.session.told = some .on ∧
      Retoggled.last.session.tracker.pendingExitReminder = false := by
    rw [Retoggled.last, Retoggled.events]
    simp only [List.foldl_cons, List.foldl_nil, Run.step, Session.step, Run.after]
    rw [Retoggled.turnStart_pending rfl rfl]
    exact ⟨rfl, rfl, rfl⟩
  have harmed := hinformed.inactive hstate.1 hstate.2.1
  rw [hstate.2.2] at harmed
  cases harmed

end GrokBuild.PlanMode
