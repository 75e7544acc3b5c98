import GrokBuild.Scheduler.Actor

/-!
# The scheduler: versions in order

In every run of the actor no assertion of a reservation fails, and the
versions that it sends order its transitions.
-/

namespace GrokBuild.Scheduler

open TextLines Timeline List Option

namespace SchedulerActor

/-- The tasks, with the one that an expiry has taken out for now. -/
def taskCount (a : SchedulerActor) : Nat :=
  match a.stage with
  | .expirySave .. => a.tasks.length + 1
  | _ => a.tasks.length

/-- The reservation that the actor is in the middle of. -/
def Holds (a : SchedulerActor) (hold : Option Hold) : Prop :=
  match a.stage with
  | .starting => a.pendingRemoval = none ∧ hold = none
  | .idle =>
    match a.pendingRemoval with
    | none => hold = none
    | some pending => ∃ told, hold = some ⟨pending.reserved, told⟩ ∧
        (told = none ∨ told = some (.removed pending.taskId))
  | .removalSave => ∃ pending told, a.pendingRemoval = some pending ∧
      hold = some ⟨pending.reserved, told⟩ ∧
      (told = none ∨ told = some (.removed pending.taskId))
  | .removalAck => ∃ pending, a.pendingRemoval = some pending ∧
      hold = some ⟨pending.reserved, some (.removed pending.taskId)⟩
  | .expirySave _ _ reserved => a.pendingRemoval = none ∧ hold = some ⟨reserved, none⟩
  | .expiryAck taskId reserved =>
    a.pendingRemoval = none ∧ hold = some ⟨reserved, some (.removed taskId)⟩
  | .querying fire _ | .asking fire _ _ =>
    a.pendingRemoval = none ∧ hold = some ⟨fire.reserved, none⟩
  | .stopped => hold = none

structure Invariant (initial : SchedulerVersion) (seen : List Uuid) (a : SchedulerActor) :
    Prop where
  count : a.taskCount ≤ maxScheduledTasks
  kept : ∃ hold, a.Holds hold ∧ a.timeline.Kept initial seen hold

/-- The step was made, and keeps the invariant. -/
def Goes (initial : SchedulerVersion) (seen : List Uuid)
    (result : Option (SchedulerActor × Output)) : Prop :=
  ∃ a output, result = some (a, output) ∧ a.Invariant initial seen

variable {initial : SchedulerVersion} {seen : List Uuid} {a : SchedulerActor}

theorem Invariant.see (h : a.Invariant initial seen) (generation : Uuid) :
    a.Invariant initial (generation :: seen) :=
  ⟨h.count, h.kept.imp fun _ => And.imp_right (·.see generation)⟩

/-- At rest, with no removal pending, the actor holds no reservation. -/
theorem Invariant.free (h : a.Invariant initial seen) (hstage : a.stage = .idle)
    (hpending : a.pendingRemoval = none) : a.timeline.Kept initial seen none := by
  obtain ⟨hold, hholds, hkept⟩ := h.kept
  simp only [Holds, hstage, hpending] at hholds
  exact hholds ▸ hkept

theorem Invariant.length (h : a.Invariant initial seen) (hstage : a.stage = .idle) :
    a.tasks.length ≤ maxScheduledTasks := by
  simpa [taskCount, hstage] using h.count

theorem invariant_idle (hcount : a.tasks.length ≤ maxScheduledTasks) (hstage : a.stage = .idle)
    (hpending : a.pendingRemoval = none) (hkept : a.timeline.Kept initial seen none) :
    a.Invariant initial seen :=
  ⟨by simpa [taskCount, hstage] using hcount,
    none, by simp [Holds, hstage, hpending], hkept⟩

/-! ## Commands -/

theorem length_modifyFirst {α : Type} (p : α → Bool) (f : α → α) (xs : List α) :
    (modifyFirst p f xs).length = xs.length := by
  induction xs with
  | nil => rfl
  | cons x xs ih => unfold modifyFirst; split <;> simp [ih]

variable {env : Env}

theorem create_goes (h : a.Invariant initial seen) (hstage : a.stage = .idle)
    (hfresh : env.newGeneration ∉ seen) (task : ScheduledTask) :
    Goes initial (env.newGeneration :: seen) (a.create env task) := by
  unfold create
  cases hpending : a.pendingRemoval with
  | some pending => exact ⟨_, _, rfl, h.see _⟩
  | none =>
    by_cases hfull : a.tasks.length ≥ maxScheduledTasks
    · exact ⟨_, _, by rw [if_pos hfull], h.see _⟩
    · obtain ⟨reserved, tl, rest, tl', hprep, hcommit, hkept⟩ :=
        (h.free hstage hpending).transition hfresh (taskCreatedPayload task)
      simp only [if_neg hfull, hprep, hcommit, bind_eq_bind, bind_some]
      refine ⟨_, _, rfl, invariant_idle ?_ hstage rfl hkept⟩
      simp only [length_append, length_singleton]
      omega

theorem update_goes (h : a.Invariant initial seen) (hstage : a.stage = .idle)
    (hfresh : env.newGeneration ∉ seen) (id : Text) (prompt : Option Text)
    (intervalSecs : Option UInt64) (stamp : DateTime) :
    Goes initial (env.newGeneration :: seen) (a.update env id prompt intervalSecs stamp) := by
  unfold update
  cases hpending : a.pendingRemoval with
  | some pending => exact ⟨_, _, rfl, h.see _⟩
  | none =>
    cases a.tasks.find? (·.id = id) with
    | none => exact ⟨_, _, rfl, h.see _⟩
    | some task =>
      obtain ⟨reserved, tl, rest, tl', hprep, hcommit, hkept⟩ :=
        (h.free hstage hpending).transition hfresh
          (taskCreatedPayload (patch env.now stamp prompt intervalSecs task))
      simp only [hprep, hcommit, bind_eq_bind, bind_some]
      refine ⟨_, _, rfl, invariant_idle ?_ hstage rfl hkept⟩
      rw [length_modifyFirst]
      exact h.length hstage

theorem completePendingRemoval_goes (h : a.Invariant initial seen) (hstage : a.stage = .idle)
    {pending : PendingDurableRemoval} (hpending : a.pendingRemoval = some pending)
    (durableTargets : Bool) :
    Goes initial seen (some (a.completePendingRemoval durableTargets)) := by
  obtain ⟨hold, hholds, hkept⟩ := h.kept
  simp only [Holds, hstage, hpending] at hholds
  obtain ⟨told, rfl, htold⟩ := hholds
  unfold completePendingRemoval
  cases durableTargets with
  | true =>
    exact ⟨_, _, rfl, ⟨h.length hstage, _, ⟨pending, told, hpending, rfl, htold⟩, hkept⟩⟩
  | false =>
    refine ⟨_, _, rfl, invariant_idle (h.length hstage) hstage rfl (hkept.drop ?_)⟩
    rcases htold with rfl | rfl
    · simp
    · rintro _ ⟨⟩
      exact ⟨_, rfl⟩

theorem delete_goes (h : a.Invariant initial seen) (hstage : a.stage = .idle)
    (hfresh : env.newGeneration ∉ seen) (id : Text) :
    Goes initial (env.newGeneration :: seen) (a.delete env id) := by
  unfold delete
  cases hpending : a.pendingRemoval with
  | some pending =>
    by_cases hid : pending.taskId = id
    · simp only [if_pos hid]
      exact completePendingRemoval_goes (h.see _) hstage hpending _
    · simp only [if_neg hid]
      exact ⟨_, _, rfl, h.see _⟩
  | none =>
    cases a.tasks.findIdx? (·.id = id) with
    | none => exact ⟨_, _, rfl, h.see _⟩
    | some index =>
      by_cases hdurable : env.durableTargets = true
      · obtain ⟨reserved, tl, hprep, -, hheld⟩ :=
          (h.free hstage hpending).prepare hfresh 1 (Nat.le_refl 1) (by decide)
        simp only [if_pos hdurable, hprep, bind_eq_bind, bind_some]
        have hinv : Invariant initial (env.newGeneration :: seen) { a with
            tasks := a.tasks.eraseIdx index
            timeline := tl
            pendingRemoval := some ⟨id, reserved⟩ } := by
          refine ⟨?_, _, ?_, hheld⟩
          · have := h.length hstage
            have := length_eraseIdx_le a.tasks index
            simp only [taskCount, hstage]
            omega
          · simp only [Holds, hstage]
            exact ⟨none, rfl, .inl rfl⟩
        exact completePendingRemoval_goes hinv hstage rfl _
      · simp only [if_neg hdurable]
        exact ⟨_, _, rfl, h.see _⟩

theorem removalSaved_goes (h : a.Invariant initial seen) (hstage : a.stage = .removalSave)
    (result : Except SchedulerError Unit) : Goes initial seen (a.removalSaved result) := by
  obtain ⟨hold, hholds, hkept⟩ := h.kept
  have hcount : a.tasks.length ≤ maxScheduledTasks := by
    simpa [taskCount, hstage] using h.count
  simp only [Holds, hstage] at hholds
  obtain ⟨pending, told, hpending, rfl, htold⟩ := hholds
  unfold removalSaved
  cases result with
  | error error =>
    refine ⟨_, _, rfl, hcount, _, ?_, hkept⟩
    simp only [Holds, hpending]
    exact ⟨told, rfl, htold⟩
  | ok =>
    have hpublish := hkept.publish (.removed pending.taskId)
    simp only [hpending, bind_eq_bind, bind_some] at hpublish ⊢
    rw [hpublish]
    exact ⟨_, _, rfl, hcount, _, ⟨pending, rfl, rfl⟩, hkept.send htold⟩

theorem removalAcknowledged_goes (h : a.Invariant initial seen) (hstage : a.stage = .removalAck)
    (result : Except SchedulerError Unit) :
    Goes initial seen (a.removalAcknowledged result) := by
  obtain ⟨hold, hholds, hkept⟩ := h.kept
  have hcount : a.tasks.length ≤ maxScheduledTasks := by
    simpa [taskCount, hstage] using h.count
  simp only [Holds, hstage] at hholds
  obtain ⟨pending, hpending, rfl⟩ := hholds
  unfold removalAcknowledged
  cases result with
  | error error =>
    refine ⟨_, _, rfl, hcount, _, ?_, hkept⟩
    simp only [Holds, hpending]
    exact ⟨_, rfl, .inr rfl⟩
  | ok =>
    obtain ⟨rest, tl, hcommit, -, -, hdone⟩ := hkept.commit rfl
    simp only [hpending, bind_eq_bind, bind_some, hcommit]
    exact ⟨_, _, rfl, invariant_idle hcount rfl rfl hdone.done⟩

/-! ## Fires -/

/-- In the middle of a fire in the background. -/
def Firing (initial : SchedulerVersion) (seen : List Uuid) (a : SchedulerActor) (fire : Fire) :
    Prop :=
  a.tasks.length ≤ maxScheduledTasks ∧ a.pendingRemoval = none ∧
    a.timeline.Kept initial seen (some ⟨fire.reserved, none⟩)

variable {fire : Fire}

theorem skipped_goes (h : a.Firing initial seen fire) : Goes initial seen (some (a.skipped fire)) := by
  obtain ⟨hcount, hpending, hheld⟩ := h
  have hkept : a.timeline.Kept initial seen none := hheld.drop (by simp)
  unfold skipped
  cases a.tasks.find? (·.id = fire.taskId) with
  | some task =>
    exact ⟨_, _, rfl, invariant_idle hcount rfl hpending (hkept.reannounce _)⟩
  | none => exact ⟨_, _, rfl, invariant_idle hcount rfl hpending hkept⟩

theorem fired_goes (h : a.Firing initial seen fire) (subagentId : Option Text)
    (events : List SubagentEvent) : Goes initial seen (a.fired fire subagentId events) := by
  obtain ⟨hcount, hpending, hheld⟩ := h
  obtain ⟨rest, tl, hcommit, -, hdone⟩ := hheld.commitAndSend
    (.fired fire.taskId fire.prompt fire.humanSchedule fire.nextFireAt subagentId) (.inl rfl)
  unfold fired
  simp only [hcommit, bind_eq_bind, bind_some]
  exact ⟨_, _, rfl, invariant_idle hcount rfl hpending hdone.done⟩

theorem launch_goes (h : a.Firing initial seen fire) (env : Env)
    (prevSnapshot : Option SubagentSnapshotStatus) :
    Goes initial seen (a.launch env fire prevSnapshot) := by
  unfold launch
  obtain ⟨hcount, hpending, hheld⟩ := id h
  obtain ⟨resumeFrom, priorSummary, next⟩ := chain fire (prevSnapshot.bind (·.output))
  simp only
  split
  · split
    · refine fired_goes ?_ _ _
      exact ⟨by simpa only [length_modifyFirst] using hcount, hpending, hheld⟩
    · refine fired_goes ?_ _ _
      exact ⟨by simpa only [length_modifyFirst] using hcount, hpending, hheld⟩
  · exact skipped_goes h

theorem fireAsLoopSubagent_goes (h : a.Firing initial seen fire) (env : Env) :
    Goes initial seen (a.fireAsLoopSubagent env fire) := by
  unfold fireAsLoopSubagent
  cases fire.lastSubagentId with
  | none => exact launch_goes h env none
  | some prevId =>
    by_cases hopen : env.channelOpen = true
    · simp only [if_pos hopen]
      exact ⟨_, _, rfl, h.1, _, ⟨h.2.1, rfl⟩, h.2.2⟩
    · simp only [if_neg hopen]
      exact skipped_goes h

theorem queried_goes (h : a.Firing initial seen fire) (env : Env)
    (answer : Option (Option SubagentSnapshotStatus)) :
    Goes initial seen (a.queried env fire answer) := by
  unfold queried
  split
  · exact skipped_goes h
  · exact skipped_goes h
  · exact skipped_goes h
  · split
    · exact ⟨_, _, rfl, h.1, _, ⟨h.2.1, rfl⟩, h.2.2⟩
    · exact skipped_goes h

theorem unitAnswered_goes (h : a.Firing initial seen fire) (env : Env)
    (prevSnapshot : Option SubagentSnapshotStatus) (answer : Option Bool) :
    Goes initial seen (a.unitAnswered env fire prevSnapshot answer) := by
  unfold unitAnswered
  split
  · exact launch_goes h env prevSnapshot
  · exact skipped_goes h

theorem expireDurably_goes (h : a.Invariant initial seen) (hstage : a.stage = .idle)
    (hpending : a.pendingRemoval = none) (hfresh : env.newGeneration ∉ seen) {idx : Nat}
    {task : ScheduledTask} (htask : a.tasks[idx]? = some task) :
    Goes initial (env.newGeneration :: seen) (a.expireDurably env idx task) := by
  unfold expireDurably
  by_cases hdurable : env.durableTargets = true
  · obtain ⟨reserved, tl, hprep, -, hheld⟩ :=
      (h.free hstage hpending).prepare hfresh 1 (Nat.le_refl 1) (by decide)
    simp only [if_pos hdurable, hprep, bind_eq_bind, bind_some]
    refine ⟨_, _, rfl, ?_, _, ⟨hpending, rfl⟩, hheld⟩
    have hlt := (List.getElem?_eq_some_iff.mp htask).1
    have := h.length hstage
    simp only [taskCount, length_eraseIdx_of_lt hlt]
    omega
  · simp only [if_neg hdurable]
    exact ⟨_, _, rfl, invariant_idle (h.length hstage) hstage hpending
      ((h.free hstage hpending).see _)⟩

variable {reserved : Reserved}

theorem expirySaved_goes (h : a.Invariant initial seen) {idx : Nat} {task : ScheduledTask}
    (hstage : a.stage = .expirySave idx task reserved) (outcome : ExpiryPersistenceOutcome) :
    Goes initial seen (a.expirySaved idx task reserved outcome) := by
  obtain ⟨hold, hholds, hkept⟩ := h.kept
  have hcount : a.tasks.length + 1 ≤ maxScheduledTasks := by
    simpa [taskCount, hstage] using h.count
  simp only [Holds, hstage] at hholds
  obtain ⟨hpending, rfl⟩ := hholds
  unfold expirySaved
  cases outcome with
  | committed =>
    have hpublish := hkept.publish (.removed task.id)
    simp only at hpublish
    simp only [hpublish, bind_eq_bind, bind_some]
    exact ⟨_, _, rfl, Nat.le_of_succ_le hcount, _, ⟨hpending, rfl⟩, hkept.send (.inl rfl)⟩
  | notCommitted =>
    refine ⟨_, _, rfl, invariant_idle ?_ rfl hpending (hkept.drop (by simp))⟩
    have := length_insertIdx_le_succ (l := a.tasks) (x := task) (i := idx)
    simp only
    omega
  | unknown error =>
    exact ⟨_, _, rfl, invariant_idle (Nat.le_of_succ_le hcount) rfl hpending
      (hkept.drop (by simp))⟩

theorem expiryAcknowledged_goes (h : a.Invariant initial seen) {taskId : Text}
    (hstage : a.stage = .expiryAck taskId reserved) (result : Except SchedulerError Unit) :
    Goes initial seen (a.expiryAcknowledged reserved result) := by
  obtain ⟨hold, hholds, hkept⟩ := h.kept
  have hcount : a.tasks.length ≤ maxScheduledTasks := by
    simpa [taskCount, hstage] using h.count
  simp only [Holds, hstage] at hholds
  obtain ⟨hpending, rfl⟩ := hholds
  unfold expiryAcknowledged
  cases result with
  | error error =>
    exact ⟨_, _, rfl, invariant_idle hcount rfl hpending (hkept.drop (by simp))⟩
  | ok =>
    obtain ⟨rest, tl, hcommit, -, -, hdone⟩ := hkept.commit rfl
    simp only [hcommit, bind_eq_bind, bind_some]
    exact ⟨_, _, rfl, invariant_idle hcount rfl hpending hdone.done⟩

theorem expire_goes (h : a.Invariant initial seen) (hstage : a.stage = .idle)
    (hpending : a.pendingRemoval = none) (hfresh : env.newGeneration ∉ seen) (idx : Nat)
    (task : ScheduledTask) : Goes initial (env.newGeneration :: seen) (a.expire env idx task) := by
  obtain ⟨reserved, tl, rest, tl', hprep, hcommit, hkept⟩ :=
    (h.free hstage hpending).transition hfresh (.removed task.id)
  unfold expire
  simp only [hprep, hcommit, bind_eq_bind, bind_some]
  refine ⟨_, _, rfl, invariant_idle ?_ hstage hpending hkept⟩
  exact Nat.le_trans (length_eraseIdx_le _ _) (h.length hstage)

theorem fireOneShot_goes (h : a.Invariant initial seen) (hstage : a.stage = .idle)
    (hpending : a.pendingRemoval = none) (hfresh : env.newGeneration ∉ seen) (idx : Nat)
    (task : ScheduledTask) : Goes initial (env.newGeneration :: seen) (a.fireOneShot env idx task) := by
  obtain ⟨reserved, tl, hprep, hremaining, hheld⟩ :=
    (h.free hstage hpending).prepare hfresh 2 (by decide) (by decide)
  obtain ⟨rest, tl', hfired, hrest, hheld'⟩ := hheld.commitAndSend
    (.fired task.id task.prompt (intervalToHuman task.intervalSecs) none none) (.inl rfl)
  have hone : 0 < rest.reservation.remaining := by
    rw [hrest]
    show 0 < reserved.reservation.remaining - 1
    omega
  rw [if_pos hone] at hheld'
  obtain ⟨rest', tl'', hremoved, -, hdone⟩ :=
    hheld'.commitAndSend (.removed task.id) (.inl rfl)
  unfold fireOneShot
  simp only [hprep, hfired, hremoved, bind_eq_bind, bind_some]
  refine ⟨_, _, rfl, invariant_idle ?_ hstage hpending hdone.done⟩
  exact Nat.le_trans (length_eraseIdx_le _ _) (h.length hstage)

theorem fireRecurring_goes (h : a.Invariant initial seen) (hstage : a.stage = .idle)
    (hpending : a.pendingRemoval = none) (hfresh : env.newGeneration ∉ seen) (idx : Nat)
    (task : ScheduledTask) :
    Goes initial (env.newGeneration :: seen) (a.fireRecurring env idx task) := by
  obtain ⟨reserved, tl, hprep, -, hheld⟩ :=
    (h.free hstage hpending).prepare hfresh 1 (Nat.le_refl 1) (by decide)
  have hlength := h.length hstage
  unfold fireRecurring
  simp only [hprep, bind_eq_bind, bind_some]
  split
  · refine fireAsLoopSubagent_goes ?_ env
    exact ⟨by simpa using hlength, hpending, hheld⟩
  · refine fired_goes ?_ none []
    exact ⟨by simpa using hlength, hpending, hheld⟩

theorem fireNextTask_goes (h : a.Invariant initial seen) (hstage : a.stage = .idle)
    (hpending : a.pendingRemoval = none) (hfresh : env.newGeneration ∉ seen) :
    Goes initial (env.newGeneration :: seen) (a.fireNextTask env) := by
  unfold fireNextTask
  cases hidx : a.tasks.findIdx? (a.isDue env.now) with
  | none => exact ⟨_, _, rfl, h.see _⟩
  | some idx =>
    have hlt := (findIdx?_eq_some_iff_findIdx_eq.mp hidx).1
    have htask : a.tasks[idx]? = some a.tasks[idx] := getElem?_eq_getElem hlt
    simp only [htask, bind_eq_bind, bind_some]
    split
    · split
      · exact expireDurably_goes h hstage hpending hfresh htask
      · exact expire_goes h hstage hpending hfresh idx _
    · split
      · exact fireRecurring_goes h hstage hpending hfresh idx _
      · exact fireOneShot_goes h hstage hpending hfresh idx _

/-! ## Start and end -/

theorem reannounceAll_kept {tl : Timeline} (hk : tl.Kept initial seen none)
    (tasks : List ScheduledTask) :
    (tasks.foldl (fun tl task => tl.reannounce (taskCreatedPayload task)) tl).Kept
      initial seen none := by
  induction tasks generalizing tl with
  | nil => exact hk
  | cons task tasks ih => exact ih (hk.reannounce _)

theorem removeAll_kept {tl : Timeline} (tasks : List ScheduledTask)
    (hk : tl.Kept initial seen (if 0 < reserved.reservation.remaining then some ⟨reserved, none⟩ else none))
    (hremaining : reserved.reservation.remaining = tasks.length) :
    ∃ tl', removeAll tl reserved tasks = some tl' ∧ tl'.Kept initial seen none := by
  induction tasks generalizing tl reserved with
  | nil => exact ⟨tl, rfl, hk.done⟩
  | cons task tasks ih =>
    have hpos : 0 < reserved.reservation.remaining := by simp [hremaining]
    rw [if_pos hpos] at hk
    obtain ⟨rest, tl', hcommit, hrest, hdone⟩ :=
      hk.commitAndSend (.removed task.id) (.inl rfl)
    obtain ⟨tl'', hall, hkept⟩ := ih hdone (by
      rw [hrest]
      show reserved.reservation.remaining - 1 = _
      rw [hremaining, length_cons, Nat.add_sub_cancel])
    exact ⟨tl'', by simp [removeAll, hcommit, hall], hkept⟩

theorem shutdown_goes (h : a.Invariant initial seen) (hstage : a.stage = .idle)
    (hfresh : env.newGeneration ∉ seen) :
    Goes initial (env.newGeneration :: seen) (a.shutdown env) := by
  have hlength := h.length hstage
  have hkept : a.timeline.Kept initial seen none := by
    obtain ⟨hold, hholds, hkept⟩ := h.kept
    simp only [Holds, hstage] at hholds
    split at hholds
    · exact hholds ▸ hkept
    · obtain ⟨told, rfl, htold⟩ := hholds
      refine hkept.drop ?_
      rcases htold with rfl | rfl
      · simp
      · rintro _ ⟨⟩
        exact ⟨_, rfl⟩
  unfold shutdown
  by_cases hempty : a.tasks.isEmpty = true
  · rw [if_pos hempty]
    exact ⟨_, _, rfl, hlength, none, rfl, hkept.see _⟩
  · have hpos : 0 < a.tasks.length := by
      cases htasks : a.tasks with
      | nil => simp [htasks] at hempty
      | cons => simp
    obtain ⟨reserved, tl, hprep, hremaining, hheld⟩ := hkept.prepare hfresh _ hpos hlength
    have hpos' : 0 < reserved.reservation.remaining := by omega
    obtain ⟨tl', hall, hdone⟩ := removeAll_kept a.tasks (by rw [if_pos hpos']; exact hheld) hremaining
    rw [if_neg hempty]
    simp only [hprep, hall, bind_eq_bind, bind_some]
    exact ⟨_, _, rfl, hlength, none, rfl, hdone⟩

/-! ## Runs -/

theorem reported_invariant (h : a.Invariant initial seen) (subagentId : Text) (failed : Bool) :
    (a.reported subagentId failed).Invariant initial seen := by
  unfold reported
  split
  · refine ⟨?_, h.kept⟩
    simpa only [taskCount, length_modifyFirst] using h.count
  · exact h

theorem step_goes (h : a.Invariant initial seen) (hfresh : env.newGeneration ∉ seen) (input : Input) :
    Goes initial (env.newGeneration :: seen) (a.step env input) := by
  have hstay : Goes initial (env.newGeneration :: seen) (some (a, .none)) :=
    ⟨_, _, rfl, h.see _⟩
  have hfiring : ∀ {fire ticket} (prevSnapshot : Option SubagentSnapshotStatus),
      a.stage = .querying fire ticket ∨ a.stage = .asking fire prevSnapshot ticket →
      a.Firing initial (env.newGeneration :: seen) fire := by
    rintro fire ticket prevSnapshot hstage
    obtain ⟨hold, hholds, hkept⟩ := h.kept
    have hcount := h.count
    rcases hstage with hstage | hstage <;> simp only [Holds, taskCount, hstage] at hholds hcount <;>
      obtain ⟨hpending, rfl⟩ := hholds <;> exact ⟨hcount, hpending, hkept.see _⟩
  unfold step
  split
  · exact ⟨_, _, rfl, (reported_invariant h _ _).see _⟩
  · rename_i hstage
    obtain ⟨hold, hholds, hkept⟩ := h.kept
    have hcount := h.count
    simp only [Holds, taskCount, hstage] at hholds hcount
    obtain ⟨hpending, rfl⟩ := hholds
    exact ⟨_, _, rfl, invariant_idle hcount rfl hpending (reannounceAll_kept (hkept.see _) _)⟩
  · exact create_goes h ‹_› hfresh _
  · exact update_goes h ‹_› hfresh _ _ _ _
  · exact delete_goes h ‹_› hfresh _
  · exact ⟨_, _, rfl, h.see _⟩
  · split
    · exact fireNextTask_goes h ‹_› (isNone_iff_eq_none.mp ‹_›) hfresh
    · exact hstay
  · exact shutdown_goes h ‹_› hfresh
  · exact removalSaved_goes (h.see _) ‹_› _
  · exact removalAcknowledged_goes (h.see _) ‹_› _
  · exact expirySaved_goes (h.see _) ‹_› _
  · exact expiryAcknowledged_goes (h.see _) ‹_› _
  · split
    · exact queried_goes (hfiring none (.inl ‹_›)) env _
    · exact hstay
  · split
    · exact unitAnswered_goes (hfiring _ (.inr ‹_›)) env _ _
    · exact hstay
  · exact hstay

variable {tasks : List ScheduledTask}

theorem new_invariant (generation : Uuid) (htasks : tasks.length ≤ maxScheduledTasks) :
    (new generation tasks).Invariant (SchedulerClock.new generation).version [generation] :=
  ⟨htasks, none, ⟨rfl, rfl⟩, Kept.start generation⟩

theorem run_goes (h : a.Invariant initial seen) (inputs : List (Env × Input))
    (hfresh : ∀ e ∈ inputs, e.1.newGeneration ∉ seen)
    (hdistinct : (inputs.map (·.1.newGeneration)).Nodup) :
    ∃ a' seen', a.run inputs = some a' ∧ a'.Invariant initial seen' := by
  induction inputs generalizing a seen with
  | nil => exact ⟨a, seen, rfl, h⟩
  | cons e inputs ih =>
    obtain ⟨a', output, hstep, h'⟩ := step_goes h (hfresh e (by simp)) e.2
    obtain ⟨hnot, hdistinct'⟩ := nodup_cons.mp hdistinct
    obtain ⟨a'', seen'', hrun, h''⟩ := ih h' (by
      intro e' he' hmem
      rcases mem_cons.mp hmem with heq | hmem
      · exact hnot (List.mem_map.mpr ⟨e', he', heq⟩)
      · exact hfresh e' (mem_cons_of_mem _ he') hmem) hdistinct'
    refine ⟨a'', seen'', ?_, h''⟩
    simpa [run, foldlM_cons, hstep] using hrun

theorem Invariant.ordered (h : a.Invariant initial seen) : a.timeline.Ordered initial := by
  obtain ⟨hold, hholds, hkept⟩ := h.kept
  cases hold with
  | none => exact hkept.to_ordered
  | some held =>
    refine (hkept.drop fun notification htold => ?_).to_ordered
    unfold Holds at hholds
    split at hholds
    · cases hholds.2
    · split at hholds
      · cases hholds
      · obtain ⟨told, ⟨⟩, htold'⟩ := hholds
        rcases htold' with rfl | rfl
        · cases htold
        · cases htold
          exact ⟨_, rfl⟩
    · obtain ⟨pending, told, -, ⟨⟩, htold'⟩ := hholds
      rcases htold' with rfl | rfl
      · cases htold
      · cases htold
        exact ⟨_, rfl⟩
    · obtain ⟨pending, -, ⟨⟩⟩ := hholds
      cases htold
      exact ⟨_, rfl⟩
    · obtain ⟨-, ⟨⟩⟩ := hholds
      cases htold
    · obtain ⟨-, ⟨⟩⟩ := hholds
      cases htold
      exact ⟨_, rfl⟩
    · obtain ⟨-, ⟨⟩⟩ := hholds
      cases htold
    · obtain ⟨-, ⟨⟩⟩ := hholds
      cases htold
    · cases hholds

/-- The generations that are drawn in a run are all different. -/
def FreshGenerations (generation : Uuid) (inputs : List (Env × Input)) : Prop :=
  (generation :: inputs.map (·.1.newGeneration)).Nodup

/-- The tasks that an actor may start with: none, or what an earlier run has
left in the resources. -/
inductive Saved : List ScheduledTask → Prop
  | none : Saved []
  | run {generation : Uuid} {tasks : List ScheduledTask} {inputs : List (Env × Input)}
      {a : SchedulerActor} (saved : Saved tasks) (fresh : FreshGenerations generation inputs)
      (ran : (new generation tasks).run inputs = some a) : Saved a.tasks

theorem run_ordered (generation : Uuid) (inputs : List (Env × Input))
    (htasks : tasks.length ≤ maxScheduledTasks) (hfresh : FreshGenerations generation inputs) :
    ∃ a, (new generation tasks).run inputs = some a ∧ a.tasks.length ≤ maxScheduledTasks ∧
      a.timeline.Ordered (SchedulerClock.new generation).version := by
  obtain ⟨hnot, hdistinct⟩ := nodup_cons.mp hfresh
  obtain ⟨a, seen, hrun, h⟩ := run_goes (new_invariant generation htasks) inputs (by
    intro e he hmem
    exact hnot (List.mem_map.mpr ⟨e, he, mem_singleton.mp hmem⟩)) hdistinct
  refine ⟨a, hrun, Nat.le_trans ?_ h.count, h.ordered⟩
  unfold taskCount
  split <;> omega

theorem Saved.length (h : Saved tasks) : tasks.length ≤ maxScheduledTasks := by
  induction h with
  | none => exact Nat.zero_le _
  | @run generation tasks inputs a _ hfresh hran ih =>
    obtain ⟨a', hran', hlength, -⟩ := run_ordered generation inputs ih hfresh
    obtain rfl : a = a' := some.inj (hran.symm.trans hran')
    exact hlength

/-- Whatever the inputs, the run fails no assertion, there are never more
tasks than allowed, and the versions order the transitions. -/
theorem versions_order (generation : Uuid) (tasks : List ScheduledTask)
    (inputs : List (Env × Input)) (hsaved : Saved tasks)
    (hfresh : FreshGenerations generation inputs) :
    ∃ a, (new generation tasks).run inputs = some a ∧ a.tasks.length ≤ maxScheduledTasks ∧
      a.timeline.Ordered (SchedulerClock.new generation).version :=
  run_ordered generation inputs hsaved.length hfresh

/-- The task of the runs below. -/
def watch : ScheduledTask where
  id := ['w']
  intervalSecs := 60
  prompt := []
  recurring := true
  durable := false
  foreground := false
  createdAt := 0
  lastFiredAt := none
  expiresAt := none
  lastSubagentId := none
  iterationsSinceFresh := 0
  chainResetPending := false

def envOf (newGeneration : Uuid) (durableTargets : Bool) : Env where
  now := 0
  newGeneration
  subagentId := []
  durableTargets
  stillDurable := durableTargets
  backgroundLoops := true
  session := none
  channelOpen := true

/-- Two tasks are created, one is updated and then deleted, and the actor stops. -/
def severalTransitions : List (Env × Input) :=
  [(envOf 2 true, .start), (envOf 3 true, .create watch),
    (envOf 4 true, .create { watch with id := ['v'] }),
    (envOf 5 true, .update watch.id (some ['p']) none 1), (envOf 6 true, .delete watch.id),
    (envOf 7 true, .removalSaved (.ok ())), (envOf 8 true, .acknowledged (.ok ())),
    (envOf 9 true, .cancel)]

theorem versions_order_severalTransitions :
    ∃ a, (new 1 []).run severalTransitions = some a ∧ a.tasks.length ≤ maxScheduledTasks ∧
      a.timeline.Ordered (SchedulerClock.new 1).version :=
  versions_order 1 [] severalTransitions .none (by unfold FreshGenerations; decide)

/-- No two transitions have one version. -/
def VersionsDiffer (a : SchedulerActor) : Prop :=
  a.timeline.notices.Pairwise fun n m => n.transition.isSome → m.transition.isSome →
    n.transition ≠ m.transition → n.version ≠ m.version

/-- A removal is saved and published, but its acknowledgement times out; with
the durable target gone it is given up, and the next creation has its version. -/
def abandonedRemoval : List (Env × Input) :=
  [(envOf 2 true, .start), (envOf 3 true, .create watch), (envOf 4 true, .delete watch.id),
    (envOf 5 true, .removalSaved (.ok ())), (envOf 6 true, .acknowledged (.error .timeout)),
    (envOf 7 false, .delete watch.id), (envOf 8 true, .create watch)]

theorem abandonedRemoval_reuses :
    FreshGenerations 1 abandonedRemoval ∧
      ∃ a, (new 1 []).run abandonedRemoval = some a ∧ ¬ a.VersionsDiffer := by
  refine ⟨by unfold FreshGenerations; decide, ?_⟩
  have hrun : ((new 1 []).run abandonedRemoval).map
      (·.timeline.notices.map fun n => (n.version, n.transition)) =
      some [(⟨1, 1⟩, some 0), (⟨1, 2⟩, some 1), (⟨1, 2⟩, some 2)] := by
    decide
  obtain ⟨a, ha, hnotices⟩ := map_eq_some_iff.mp hrun
  refine ⟨a, ha, fun hdiffer => ?_⟩
  have hpairs : (a.timeline.notices.map fun n => (n.version, n.transition)).Pairwise
      fun p q => p.2.isSome → q.2.isSome → p.2 ≠ q.2 → p.1 ≠ q.1 :=
    pairwise_map.mpr hdiffer
  rw [hnotices] at hpairs
  revert hpairs
  decide

end SchedulerActor

end GrokBuild.Scheduler
