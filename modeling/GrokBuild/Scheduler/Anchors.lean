import GrokBuild.Scheduler.Versions

/-!
# The scheduler: anchors

What a step of the actor does to the anchors of its tasks, and what it sends
to the coordinator: it carries the anchors over, asks whether a task's unit is
active, or spawns an iteration and anchors its task.
-/

namespace GrokBuild.Scheduler

open TextLines List Option

namespace SchedulerActor

/-- The tasks, and the one that an expiry has taken out for now. -/
def allTasks (a : SchedulerActor) : List ScheduledTask :=
  match a.stage with
  | .expirySave _ task _ => task :: a.tasks
  | _ => a.tasks

def Unanchored (tasks : List ScheduledTask) (id : Text) : Prop :=
  ∃ task ∈ tasks, task.id = id ∧ task.lastSubagentId = none

/-- No task is new, and none has lost its anchor. -/
structure Carried (tasks tasks' : List ScheduledTask) : Prop where
  ids : (tasks'.map (·.id)).Subperm (tasks.map (·.id))
  unanchored : ∀ id, Unanchored tasks' id → Unanchored tasks id

namespace Carried

variable {tasks tasks' tasks'' : List ScheduledTask}

theorem refl (tasks : List ScheduledTask) : Carried tasks tasks :=
  ⟨List.Subperm.refl _, fun _ => id⟩

theorem trans (h : Carried tasks tasks') (h' : Carried tasks' tasks'') : Carried tasks tasks'' :=
  ⟨h'.ids.trans h.ids, fun id hid => h.unanchored id (h'.unanchored id hid)⟩

theorem of_sublist (h : tasks'.Sublist tasks) : Carried tasks tasks' :=
  ⟨(h.map _).subperm, fun _ ⟨task, hmem, htask⟩ => ⟨task, h.subset hmem, htask⟩⟩

theorem of_perm (h : tasks'.Perm tasks) : Carried tasks tasks' :=
  ⟨(h.map _).subperm, fun _ ⟨task, hmem, htask⟩ => ⟨task, h.subset hmem, htask⟩⟩

theorem set {idx : Nat} {task : ScheduledTask} (htask : tasks[idx]? = some task)
    {new : ScheduledTask} (hid : new.id = task.id)
    (hanchor : new.lastSubagentId = none → task.lastSubagentId = none) :
    Carried tasks (tasks.set idx new) where
  ids := by
    obtain ⟨hlt, rfl⟩ := List.getElem?_eq_some_iff.mp htask
    have hsame : (tasks.set idx new).map (·.id) = tasks.map (·.id) := by
      refine ext_getElem (by simp) fun i _ _ => ?_
      simp only [getElem_map, getElem_set]
      split
      · subst i
        exact hid
      · rfl
    rw [hsame]
  unanchored := by
    rintro id ⟨task', hmem, hid', hnone⟩
    rcases mem_or_eq_of_mem_set hmem with hmem | rfl
    · exact ⟨task', hmem, hid', hnone⟩
    · exact ⟨task, mem_of_getElem? htask, by rw [← hid, hid'], hanchor hnone⟩

end Carried

theorem mem_modifyFirst {α : Type} {p : α → Bool} {f : α → α} {xs : List α} {y : α}
    (h : y ∈ modifyFirst p f xs) : y ∈ xs ∨ ∃ x ∈ xs, p x = true ∧ y = f x := by
  induction xs with
  | nil => cases h
  | cons x xs ih =>
    unfold modifyFirst at h
    split at h
    · rcases mem_cons.mp h with rfl | h
      · exact .inr ⟨x, by simp, ‹_›, rfl⟩
      · exact .inl (mem_cons_of_mem _ h)
    · rcases mem_cons.mp h with rfl | h
      · exact .inl (by simp)
      · rcases ih h with hmem | ⟨x', hmem, hx'⟩
        · exact .inl (mem_cons_of_mem _ hmem)
        · exact .inr ⟨x', mem_cons_of_mem _ hmem, hx'⟩

theorem map_modifyFirst {α β : Type} {p : α → Bool} {f : α → α} {g : α → β}
    (h : ∀ x, g (f x) = g x) (xs : List α) : (modifyFirst p f xs).map g = xs.map g := by
  induction xs with
  | nil => rfl
  | cons x xs ih => unfold modifyFirst; split <;> simp [h, ih]

theorem Carried.modifyFirst {p : ScheduledTask → Bool} {f : ScheduledTask → ScheduledTask}
    (tasks : List ScheduledTask) (hid : ∀ task, (f task).id = task.id)
    (hanchor : ∀ task ∈ tasks, p task = true → (f task).lastSubagentId = none →
      Unanchored tasks task.id) :
    Carried tasks (modifyFirst p f tasks) where
  ids := by
    rw [map_modifyFirst hid]
  unanchored := by
    rintro id ⟨task', hmem, hid', hnone⟩
    rcases mem_modifyFirst hmem with hold | ⟨task, hold, hp, rfl⟩
    · exact ⟨task', hold, hid', hnone⟩
    · rw [← hid', hid]
      exact hanchor task hold hp hnone

theorem anchored_modifyFirst {tasks : List ScheduledTask} (id : Text)
    (hids : (tasks.map (·.id)).Nodup) {f : ScheduledTask → ScheduledTask}
    (hf : ∀ task, (f task).lastSubagentId ≠ none) :
    ¬ Unanchored (modifyFirst (·.id = id) f tasks) id := by
  induction tasks with
  | nil => rintro ⟨task, hmem, -⟩; cases hmem
  | cons task tasks ih =>
    obtain ⟨hnot, hids⟩ := nodup_cons.mp hids
    rintro ⟨task', hmem, hid', hnone⟩
    unfold GrokBuild.Scheduler.modifyFirst at hmem
    split at hmem
    · rename_i heq
      rcases mem_cons.mp hmem with rfl | hmem
      · exact hf task hnone
      · refine hnot (List.mem_map.mpr ⟨task', hmem, ?_⟩)
        rw [hid']
        simpa [eq_comm] using heq
    · rename_i hne
      rcases mem_cons.mp hmem with rfl | hmem
      · exact hne (by simpa using hid')
      · exact ih hids ⟨task', hmem, hid', hnone⟩

/-! ## The outcome of a step -/

/-- Why an iteration may be spawned: its task has no anchor, or the
coordinator has answered that its unit is not active. -/
inductive Allowed (a : SchedulerActor) (input : Input) (taskId : Text) : Prop
  | unanchored (h : Unanchored a.allTasks taskId)
      (input : ∀ ticket answer, input ≠ .unitAnswered ticket answer)
  | answered (fire : Fire) (prevSnapshot : Option SubagentSnapshotStatus) (ticket : Nat)
      (stage : a.stage = .asking fire prevSnapshot ticket) (task : fire.taskId = taskId)
      (input : input = .unitAnswered ticket (some false))

def IsQuery : SubagentEvent → Prop
  | .query .. => True
  | _ => False

/-- The stages that wait for the coordinator have an anchor to ask about. -/
def Anchored (a : SchedulerActor) : Prop :=
  match a.stage with
  | .querying fire _ | .asking fire _ _ => fire.lastSubagentId ≠ none
  | _ => True

/-- What a step that creates no task and handles no report has done. -/
inductive Outcome (a : SchedulerActor) (input : Input) (a' : SchedulerActor)
    (events : List SubagentEvent) : Prop
  | plain (carried : Carried a.allTasks a'.allTasks) (events : ∀ e ∈ events, IsQuery e)
      (stage : a'.stage = a.stage ∨ ∀ fire prevSnapshot ticket,
        a'.stage ≠ .asking fire prevSnapshot ticket)
      (tickets : a.tickets ≤ a'.tickets) (anchored : a'.Anchored)
  | asks (fire : Fire) (prevSnapshot : Option SubagentSnapshotStatus)
      (tasks : a'.allTasks = a.allTasks)
      (stage : a'.stage = .asking fire prevSnapshot a.tickets)
      (events : events = [.loopUnitActive fire.taskId a.tickets])
      (tickets : a'.tickets = a.tickets + 1) (anchored : fire.lastSubagentId ≠ none)
  | spawns (taskId : Text) (request : SubagentRequest)
      (carried : Carried a.allTasks a'.allTasks)
      (anchored : (a.allTasks.map (·.id)).Nodup → ¬ Unanchored a'.allTasks taskId)
      (events : events = [.spawn request]) (task : request.loopTaskId = some taskId)
      (stage : a'.stage = .idle) (tickets : a'.tickets = a.tickets)
      (allowed : Allowed a input taskId)

variable {a a' : SchedulerActor} {env : Env} {output : Output} {input : Input}

theorem plain_idle (h : Carried a.allTasks a'.tasks) (hstage : a'.stage = .idle)
    {events : List SubagentEvent} (hevents : events = []) (htickets : a'.tickets = a.tickets) :
    Outcome a input a' events :=
  .plain (by simpa [allTasks, hstage] using h) (by simp [hevents]) (.inr (by simp [hstage]))
    htickets.ge (by simp [Anchored, hstage])

variable {a₀ : SchedulerActor} {fire : Fire}

theorem skipped_outcome (hcarried : Carried a₀.allTasks a.tasks) (htickets : a.tickets = a₀.tickets)
    (h : some (a.skipped fire) = some (a', output)) : Outcome a₀ input a' output.events := by
  unfold skipped at h
  split at h
  · obtain ⟨rfl, rfl⟩ := Prod.mk.inj (some.inj h)
    refine plain_idle ?_ ?_ ?_ ?_
    exacts [hcarried, rfl, rfl, htickets]
  · obtain ⟨rfl, rfl⟩ := Prod.mk.inj (some.inj h)
    refine plain_idle ?_ ?_ ?_ ?_
    exacts [hcarried, rfl, rfl, htickets]

theorem ids_anchor (p : ScheduledTask → Bool) (lastSubagentId : Option Text) (n : UInt32)
    (pending : Bool) (tasks : List ScheduledTask) :
    (modifyFirst p (anchor lastSubagentId n pending) tasks).map (·.id) = tasks.map (·.id) :=
  map_modifyFirst (f := anchor lastSubagentId n pending) (g := (·.id)) (fun _ => rfl) tasks

theorem fired_tasks {subagentId : Option Text} {events : List SubagentEvent}
    (h : a.fired fire subagentId events = some (a', output)) :
    a'.tasks = a.tasks ∧ a'.stage = .idle ∧ output.events = events ∧ a'.tickets = a.tickets := by
  unfold fired at h
  cases hc : a.timeline.commitAndSend fire.reserved
      (.fired fire.taskId fire.prompt fire.humanSchedule fire.nextFireAt subagentId) with
  | none => simp [hc] at h
  | some committed =>
    obtain ⟨rfl, rfl⟩ : _ ∧ _ := by simpa [hc] using h
    exact ⟨rfl, rfl, rfl, rfl⟩

theorem launch_outcome {prevSnapshot : Option SubagentSnapshotStatus}
    (hcarried : Carried a₀.allTasks a.tasks) (htickets : a.tickets = a₀.tickets)
    (hanchor : fire.lastSubagentId = none → Unanchored a.tasks fire.taskId)
    (hallowed : Allowed a₀ input fire.taskId) (h : a.launch env fire prevSnapshot = some (a', output)) :
    Outcome a₀ input a' output.events := by
  have hanchored : ∀ last n pending, Carried a.tasks
      (modifyFirst (·.id = fire.taskId) (anchor last n pending) a.tasks) ∨ last = none := by
    intro last n pending
    cases last with
    | none => exact .inr rfl
    | some last => exact .inl (.modifyFirst _ (fun _ => rfl) (by rintro _ _ _ ⟨⟩))
  unfold launch at h
  generalize chain fire (prevSnapshot.bind (·.output)) = plan at h
  obtain ⟨resumeFrom, priorSummary, next⟩ := plan
  have hspawned := (hanchored (some env.subagentId) next false).resolve_right (by simp)
  simp only at h
  split at h
  · split at h
    · obtain ⟨htasks, hstage, hevents, htickets'⟩ := fired_tasks h
      refine .spawns fire.taskId _ ?_ ?_ hevents rfl hstage (htickets'.trans htickets) hallowed
      · simpa [allTasks, hstage, htasks] using hcarried.trans hspawned
      · intro hids
        obtain ⟨l, hperm, hsub⟩ := hcarried.ids
        have hids' : (a.tasks.map (·.id)).Nodup := hperm.nodup_iff.mp (hsub.nodup hids)
        simpa [allTasks, hstage, htasks] using
          anchored_modifyFirst fire.taskId hids'
            (f := anchor (some env.subagentId) next false) (by simp [anchor])
    · obtain ⟨htasks, hstage, hevents, htickets'⟩ := fired_tasks h
      refine plain_idle (hcarried.trans ?_) hstage hevents (htickets'.trans htickets)
      rw [htasks]
      refine ⟨?_, ?_⟩
      · simp only [ids_anchor]
        exact List.Subperm.refl _
      · rintro id ⟨task, hmem, hid, hnone⟩
        rcases mem_modifyFirst hmem with hold | ⟨task', -, hp, rfl⟩
        · exact hspawned.unanchored id ⟨task, hold, hid, hnone⟩
        · have heq : task'.id = fire.taskId := by simpa using hp
          have hid' : task'.id = id := hid
          rw [← hid', heq]
          exact hanchor hnone
  · exact skipped_outcome hcarried htickets h

theorem fireAsLoopSubagent_outcome (hcarried : Carried a₀.allTasks a.tasks)
    (htickets : a.tickets = a₀.tickets)
    (hanchor : fire.lastSubagentId = none → Unanchored a.tasks fire.taskId)
    (hinput : ∀ ticket answer, input ≠ .unitAnswered ticket answer)
    (h : a.fireAsLoopSubagent env fire = some (a', output)) : Outcome a₀ input a' output.events := by
  unfold fireAsLoopSubagent at h
  cases hlast : fire.lastSubagentId with
  | none =>
    rw [hlast] at h
    exact launch_outcome hcarried htickets hanchor
      (.unanchored (hcarried.unanchored _ (hanchor hlast)) hinput) h
  | some prevId =>
    simp only [hlast] at h
    split at h
    · obtain ⟨rfl, rfl⟩ := Prod.mk.inj (some.inj h)
      exact .plain (by simpa [allTasks] using hcarried) (by simp [IsQuery]) (.inr (by simp))
        (htickets ▸ Nat.le_succ _) (by simp [Anchored, hlast])
    · exact skipped_outcome hcarried htickets h

theorem queried_outcome {ticket : Nat} {answer : Option (Option SubagentSnapshotStatus)}
    (hstage : a.stage = .querying fire ticket) (hanchored : a.Anchored)
    (h : a.queried env fire answer = some (a', output)) : Outcome a input a' output.events := by
  have hcarried : Carried a.allTasks a.tasks := by
    simpa [allTasks, hstage] using Carried.refl a.tasks
  unfold queried at h
  split at h
  · exact skipped_outcome hcarried rfl h
  · exact skipped_outcome hcarried rfl h
  · exact skipped_outcome hcarried rfl h
  · split at h
    · obtain ⟨rfl, rfl⟩ := Prod.mk.inj (some.inj h)
      exact .asks fire _ (by simp [allTasks, hstage]) rfl rfl rfl (by simpa [Anchored, hstage] using hanchored)
    · exact skipped_outcome hcarried rfl h

theorem unitAnswered_outcome {prevSnapshot : Option SubagentSnapshotStatus} {ticket : Nat}
    {answer : Option Bool} (hstage : a.stage = .asking fire prevSnapshot ticket)
    (hanchored : a.Anchored) (h : a.unitAnswered env fire prevSnapshot answer = some (a', output)) :
    Outcome a (.unitAnswered ticket answer) a' output.events := by
  have hcarried : Carried a.allTasks a.tasks := by
    simpa [allTasks, hstage] using Carried.refl a.tasks
  unfold unitAnswered at h
  split at h
  · refine launch_outcome hcarried rfl (fun hnone => ?_)
      (.answered fire prevSnapshot ticket hstage rfl rfl) h
    simp only [Anchored, hstage] at hanchored
    exact absurd hnone hanchored
  · exact skipped_outcome hcarried rfl h

theorem fireNextTask_outcome (hstage : a.stage = .idle)
    (h : a.fireNextTask env = some (a', output)) : Outcome a .timer a' output.events := by
  have hall : a.allTasks = a.tasks := by simp [allTasks, hstage]
  unfold fireNextTask at h
  split at h
  · obtain ⟨rfl, rfl⟩ := Prod.mk.inj (some.inj h)
    refine plain_idle ?_ ?_ ?_ ?_
    exacts [by rw [hall]; exact .refl _, hstage, rfl, rfl]
  · rename_i idx _
    obtain ⟨task, htask, h⟩ := bind_eq_some_iff.mp h
    have herase : Carried a.allTasks (a.tasks.eraseIdx idx) := by
      rw [hall]
      exact .of_sublist (eraseIdx_sublist _ _)
    split at h
    · split at h
      · unfold expireDurably at h
        split at h
        · obtain ⟨⟨reserved, tl⟩, -, h⟩ := bind_eq_some_iff.mp h
          obtain ⟨rfl, rfl⟩ := Prod.mk.inj (some.inj h)
          refine .plain ?_ (by simp [Output.none]) (.inr (by simp)) (Nat.le_refl _) trivial
          obtain ⟨hlt, rfl⟩ := List.getElem?_eq_some_iff.mp htask
          rw [hall]
          exact .of_perm (getElem_cons_eraseIdx_perm hlt)
        · obtain ⟨rfl, rfl⟩ := Prod.mk.inj (some.inj h)
          refine plain_idle ?_ ?_ ?_ ?_
          exacts [by rw [hall]; exact .refl _, hstage, rfl, rfl]
      · unfold expire at h
        obtain ⟨⟨reserved, tl⟩, -, h⟩ := bind_eq_some_iff.mp h
        obtain ⟨⟨rest, tl'⟩, -, h⟩ := bind_eq_some_iff.mp h
        obtain ⟨rfl, rfl⟩ := Prod.mk.inj (some.inj h)
        refine plain_idle ?_ ?_ ?_ ?_
        exacts [herase, hstage, rfl, rfl]
    · split at h
      · unfold fireRecurring at h
        obtain ⟨⟨reserved, tl⟩, -, h⟩ := bind_eq_some_iff.mp h
        have hset : Carried a.allTasks
            (a.tasks.set idx { task with lastFiredAt := some env.now }) := by
          rw [hall]
          exact .set htask rfl id
        obtain ⟨hlt, heq⟩ := List.getElem?_eq_some_iff.mp htask
        have hmem : { task with lastFiredAt := some env.now } ∈
            a.tasks.set idx { task with lastFiredAt := some env.now } :=
          mem_set hlt _
        simp only at h
        split at h
        · refine fireAsLoopSubagent_outcome ?_ ?_ ?_ ?_ h
          · exact hset
          · rfl
          · exact fun hnone => ⟨_, hmem, rfl, hnone⟩
          · simp
        · obtain ⟨htasks, hstage', hevents, htickets⟩ := fired_tasks h
          exact plain_idle (by rw [htasks]; exact hset) hstage' hevents htickets
      · unfold fireOneShot at h
        obtain ⟨⟨reserved, tl⟩, -, h⟩ := bind_eq_some_iff.mp h
        obtain ⟨⟨rest, tl'⟩, -, h⟩ := bind_eq_some_iff.mp h
        obtain ⟨⟨rest', tl''⟩, -, h⟩ := bind_eq_some_iff.mp h
        obtain ⟨rfl, rfl⟩ := Prod.mk.inj (some.inj h)
        refine plain_idle ?_ ?_ ?_ ?_
        exacts [herase, hstage, rfl, rfl]

theorem patch_keeps (now stamp : DateTime) (prompt : Option Text) (intervalSecs : Option UInt64)
    (task : ScheduledTask) :
    (patch now stamp prompt intervalSecs task).id = task.id ∧
      (patch now stamp prompt intervalSecs task).lastSubagentId = task.lastSubagentId := by
  have hprompt : (patchPrompt prompt task).id = task.id ∧
      (patchPrompt prompt task).lastSubagentId = task.lastSubagentId := by
    unfold patchPrompt
    split
    · split <;> exact ⟨rfl, rfl⟩
    · exact ⟨rfl, rfl⟩
  unfold patch patchInterval
  split
  · simp only
    split <;> exact hprompt
  · exact hprompt

variable {id : Text}

theorem update_outcome {prompt : Option Text} {intervalSecs : Option UInt64} {stamp : DateTime}
    (hstage : a.stage = .idle) (h : a.update env id prompt intervalSecs stamp = some (a', output)) :
    Outcome a input a' output.events := by
  have hall : a.allTasks = a.tasks := by simp [allTasks, hstage]
  have hsame : Carried a.allTasks a.tasks := by rw [hall]; exact .refl _
  unfold update at h
  split at h
  · obtain ⟨rfl, rfl⟩ := Prod.mk.inj (some.inj h)
    exact plain_idle hsame hstage rfl rfl
  · split at h
    · obtain ⟨rfl, rfl⟩ := Prod.mk.inj (some.inj h)
      exact plain_idle hsame hstage rfl rfl
    · obtain ⟨⟨reserved, tl⟩, -, h⟩ := bind_eq_some_iff.mp h
      obtain ⟨⟨rest, tl'⟩, -, h⟩ := bind_eq_some_iff.mp h
      obtain ⟨rfl, rfl⟩ := Prod.mk.inj (some.inj h)
      have hkeeps := patch_keeps env.now stamp prompt intervalSecs
      refine plain_idle ?_ ?_ ?_ ?_
      · exact hsame.trans (.modifyFirst _ (fun task => (hkeeps task).1) fun task hmem _ hnone =>
          ⟨task, hmem, rfl, (hkeeps task).2 ▸ hnone⟩)
      · exact hstage
      · rfl
      · rfl

theorem completePendingRemoval_outcome {durableTargets : Bool}
    (hcarried : Carried a₀.allTasks a.tasks) (htickets : a.tickets = a₀.tickets)
    (hstage : a.stage = .idle)
    (h : some (a.completePendingRemoval durableTargets) = some (a', output)) :
    Outcome a₀ input a' output.events := by
  unfold completePendingRemoval at h
  split at h
  · obtain ⟨rfl, rfl⟩ := Prod.mk.inj (some.inj h)
    exact .plain hcarried (by simp [Output.none]) (.inr (by simp)) htickets.ge trivial
  · obtain ⟨rfl, rfl⟩ := Prod.mk.inj (some.inj h)
    refine plain_idle ?_ ?_ ?_ ?_
    exacts [hcarried, hstage, rfl, htickets]

theorem delete_outcome (hstage : a.stage = .idle) (h : a.delete env id = some (a', output)) :
    Outcome a input a' output.events := by
  have hall : a.allTasks = a.tasks := by simp [allTasks, hstage]
  have hsame : Carried a.allTasks a.tasks := by rw [hall]; exact .refl _
  unfold delete at h
  split at h
  · split at h
    · exact completePendingRemoval_outcome hsame rfl hstage h
    · obtain ⟨rfl, rfl⟩ := Prod.mk.inj (some.inj h)
      exact plain_idle hsame hstage rfl rfl
  · split at h
    · obtain ⟨rfl, rfl⟩ := Prod.mk.inj (some.inj h)
      exact plain_idle hsame hstage rfl rfl
    · split at h
      · obtain ⟨⟨reserved, tl⟩, -, h⟩ := bind_eq_some_iff.mp h
        refine completePendingRemoval_outcome ?_ ?_ ?_ h
        · exact hsame.trans (.of_sublist (eraseIdx_sublist _ _))
        · rfl
        · exact hstage
      · obtain ⟨rfl, rfl⟩ := Prod.mk.inj (some.inj h)
        exact plain_idle hsame hstage rfl rfl

/-- The tasks and the tickets are what they were; nothing is sent or waited for. -/
structure Settles (a a' : SchedulerActor) (output : Output) : Prop where
  tasks : a'.tasks = a.tasks
  tickets : a'.tickets = a.tickets
  events : output.events = []
  stage : a'.stage = .idle ∨ a'.stage = .removalAck ∨ a'.stage = .stopped

theorem Settles.outcome (h : Settles a a' output) (hall : a.allTasks = a.tasks) :
    Outcome a input a' output.events := by
  have hall' : a'.allTasks = a.allTasks := by
    rw [hall, ← h.tasks]
    rcases h.stage with hstage | hstage | hstage <;> simp [allTasks, hstage]
  refine .plain (hall' ▸ .refl _) (by simp [h.events]) (.inr ?_) h.tickets.ge ?_
  all_goals rcases h.stage with hstage | hstage | hstage <;> simp [Anchored, hstage]

variable {result : Except SchedulerError Unit}

theorem removalSaved_settles (h : a.removalSaved result = some (a', output)) :
    Settles a a' output := by
  unfold removalSaved at h
  split at h
  · obtain ⟨rfl, rfl⟩ := Prod.mk.inj (some.inj h)
    exact ⟨rfl, rfl, rfl, .inl rfl⟩
  · obtain ⟨pending, -, h⟩ := bind_eq_some_iff.mp h
    obtain ⟨tl, -, h⟩ := bind_eq_some_iff.mp h
    obtain ⟨rfl, rfl⟩ := Prod.mk.inj (some.inj h)
    exact ⟨rfl, rfl, rfl, .inr (.inl rfl)⟩

theorem removalAcknowledged_settles (h : a.removalAcknowledged result = some (a', output)) :
    Settles a a' output := by
  unfold removalAcknowledged at h
  split at h
  · obtain ⟨rfl, rfl⟩ := Prod.mk.inj (some.inj h)
    exact ⟨rfl, rfl, rfl, .inl rfl⟩
  · obtain ⟨pending, -, h⟩ := bind_eq_some_iff.mp h
    obtain ⟨⟨version, rest, tl⟩, -, h⟩ := bind_eq_some_iff.mp h
    obtain ⟨rfl, rfl⟩ := Prod.mk.inj (some.inj h)
    exact ⟨rfl, rfl, rfl, .inl rfl⟩

theorem expiryAcknowledged_settles {reserved : Reserved}
    (h : a.expiryAcknowledged reserved result = some (a', output)) : Settles a a' output := by
  unfold expiryAcknowledged at h
  split at h
  · obtain ⟨rfl, rfl⟩ := Prod.mk.inj (some.inj h)
    exact ⟨rfl, rfl, rfl, .inl rfl⟩
  · obtain ⟨⟨version, rest, tl⟩, -, h⟩ := bind_eq_some_iff.mp h
    obtain ⟨rfl, rfl⟩ := Prod.mk.inj (some.inj h)
    exact ⟨rfl, rfl, rfl, .inl rfl⟩

theorem announceExistingTasks_settles (a : SchedulerActor) (now : DateTime) :
    Settles a (a.announceExistingTasks now) .none :=
  ⟨rfl, rfl, rfl, .inl rfl⟩

theorem shutdown_settles (h : a.shutdown env = some (a', output)) : Settles a a' output := by
  unfold shutdown at h
  split at h
  · obtain ⟨rfl, rfl⟩ := Prod.mk.inj (some.inj h)
    exact ⟨rfl, rfl, rfl, .inr (.inr rfl)⟩
  · obtain ⟨⟨reserved, tl⟩, -, h⟩ := bind_eq_some_iff.mp h
    obtain ⟨tl', -, h⟩ := bind_eq_some_iff.mp h
    obtain ⟨rfl, rfl⟩ := Prod.mk.inj (some.inj h)
    exact ⟨rfl, rfl, rfl, .inr (.inr rfl)⟩

theorem expirySaved_outcome {idx : Nat} {task : ScheduledTask} {reserved : Reserved}
    {outcome : ExpiryPersistenceOutcome} (hstage : a.stage = .expirySave idx task reserved)
    (h : a.expirySaved idx task reserved outcome = some (a', output)) :
    Outcome a input a' output.events := by
  have hall : a.allTasks = task :: a.tasks := by simp [allTasks, hstage]
  have hdropped : Carried a.allTasks a.tasks := by
    rw [hall]
    exact .of_sublist (sublist_cons_self _ _)
  unfold expirySaved at h
  split at h
  · obtain ⟨tl, -, h⟩ := bind_eq_some_iff.mp h
    obtain ⟨rfl, rfl⟩ := Prod.mk.inj (some.inj h)
    exact .plain hdropped (by simp [Output.none]) (.inr (by simp)) (Nat.le_refl _) trivial
  · obtain ⟨rfl, rfl⟩ := Prod.mk.inj (some.inj h)
    refine plain_idle ?_ ?_ ?_ ?_
    · rw [hall]
      by_cases hidx : idx ≤ a.tasks.length
      · exact .of_perm (perm_insertIdx _ _ hidx)
      · rw [insertIdx_of_length_lt (Nat.not_le.mp hidx)]
        exact .of_sublist (sublist_cons_self _ _)
    all_goals rfl
  · obtain ⟨rfl, rfl⟩ := Prod.mk.inj (some.inj h)
    refine plain_idle ?_ ?_ ?_ ?_
    exacts [hdropped, rfl, rfl, rfl]

/-- Inputs that neither create a task nor report on one. -/
def IsOrdinary : Input → Prop
  | .create _ | .reported .. => False
  | _ => True

theorem step_outcome (hordinary : IsOrdinary input) (hanchored : a.Anchored)
    (h : a.step env input = some (a', output)) : Outcome a input a' output.events := by
  have hstay : some (a, Output.none) = some (a', output) → Outcome a input a' output.events := by
    intro h
    obtain ⟨rfl, rfl⟩ := Prod.mk.inj (some.inj h)
    exact .plain (.refl _) (by simp [Output.none]) (.inl rfl) (Nat.le_refl _) hanchored
  unfold step at h
  split at h
  · cases hordinary
  · obtain ⟨rfl, rfl⟩ := Prod.mk.inj (some.inj h)
    exact (announceExistingTasks_settles a _).outcome (by simp [allTasks, *])
  · cases hordinary
  · exact update_outcome ‹_› h
  · exact delete_outcome ‹_› h
  · obtain ⟨rfl, rfl⟩ := Prod.mk.inj (some.inj h)
    exact .plain (.refl _) (by simp [Output.replied]) (.inl rfl) (Nat.le_refl _) hanchored
  · split at h
    · exact fireNextTask_outcome ‹_› h
    · exact hstay h
  · exact (shutdown_settles h).outcome (by simp [allTasks, *])
  · exact (removalSaved_settles h).outcome (by simp [allTasks, *])
  · exact (removalAcknowledged_settles h).outcome (by simp [allTasks, *])
  · exact expirySaved_outcome ‹_› h
  · exact (expiryAcknowledged_settles h).outcome (by simp [allTasks, *])
  · split at h
    · exact queried_outcome ‹_› hanchored h
    · exact hstay h
  · split at h
    · rename_i hticket
      subst hticket
      exact unitAnswered_outcome ‹_› hanchored h
    · exact hstay h
  · exact hstay h

theorem step_create {task : ScheduledTask} (h : a.step env (.create task) = some (a', output)) :
    (a'.allTasks = a.allTasks ∨ a'.allTasks = a.allTasks ++ [task]) ∧ a'.stage = a.stage ∧
      a'.tickets = a.tickets ∧ output.events = [] := by
  unfold step at h
  cases hstage : a.stage with
  | idle =>
    simp only [hstage] at h
    unfold create at h
    split at h
    · obtain ⟨rfl, rfl⟩ := Prod.mk.inj (some.inj h)
      exact ⟨.inl rfl, hstage, rfl, rfl⟩
    · split at h
      · obtain ⟨rfl, rfl⟩ := Prod.mk.inj (some.inj h)
        exact ⟨.inl rfl, hstage, rfl, rfl⟩
      · obtain ⟨⟨reserved, tl⟩, -, h⟩ := bind_eq_some_iff.mp h
        obtain ⟨⟨rest, tl'⟩, -, h⟩ := bind_eq_some_iff.mp h
        obtain ⟨rfl, rfl⟩ := Prod.mk.inj (some.inj h)
        exact ⟨.inr (by simp [allTasks, hstage]), hstage, rfl, rfl⟩
  | _ =>
    simp only [hstage] at h
    obtain ⟨rfl, rfl⟩ := Prod.mk.inj (some.inj h)
    exact ⟨.inl rfl, hstage, rfl, rfl⟩

theorem reported_unanchored {subagentId : Text} {failed : Bool}
    (h : Unanchored (a.reported subagentId failed).allTasks id) :
    Unanchored a.allTasks id ∨ failed = true ∧
      ∃ task ∈ a.tasks, task.lastSubagentId = some subagentId ∧ task.id = id := by
  unfold reported at h
  split at h
  · rename_i hfailed
    obtain ⟨task, hmem, hid, hnone⟩ := h
    have hcase : a.allTasks = task :: a.tasks ∨
        task ∈ modifyFirst (·.lastSubagentId = some subagentId)
          (fun task => { task with lastSubagentId := none, iterationsSinceFresh := 0 }) a.tasks := by
      unfold allTasks at hmem ⊢
      split at hmem
      · rename_i hstage
        rcases mem_cons.mp hmem with rfl | hmem
        · simp only at hstage
          exact .inl (by simp [hstage])
        · exact .inr hmem
      · exact .inr hmem
    have htasks : ∀ task ∈ a.tasks, task ∈ a.allTasks := by
      intro task hmem
      unfold allTasks
      split
      · exact mem_cons_of_mem _ hmem
      · exact hmem
    rcases hcase with hall | hmem
    · exact .inl ⟨task, by simp [hall], hid, hnone⟩
    · rcases mem_modifyFirst hmem with hold | ⟨task', hold, hp, rfl⟩
      · exact .inl ⟨task, htasks task hold, hid, hnone⟩
      · exact .inr ⟨hfailed, task', hold, by simpa using hp, hid⟩
  · exact .inl h

theorem reported_ids (a : SchedulerActor) (subagentId : Text) (failed : Bool) :
    (a.reported subagentId failed).allTasks.map (·.id) = a.allTasks.map (·.id) := by
  unfold reported
  split
  · have hmap := map_modifyFirst (p := (·.lastSubagentId = some subagentId)) (g := (·.id))
      (f := fun task : ScheduledTask =>
        { task with lastSubagentId := none, iterationsSinceFresh := 0 }) (fun _ => rfl) a.tasks
    cases hstage : a.stage with
    | expirySave idx task reserved => simpa [allTasks, hstage] using hmap
    | _ => simpa [allTasks, hstage] using hmap
  · rfl

end SchedulerActor

end GrokBuild.Scheduler
