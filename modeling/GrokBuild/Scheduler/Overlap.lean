import GrokBuild.Scheduler.Anchors
import GrokBuild.Scheduler.Coordinator

/-!
# The scheduler: iterations that do not overlap

A spawn for a task is sent when no iteration of it is left and the coordinator
has seen none of its descendants, as long as the anchor of a task is cleared
only when the task is quiet.
-/

namespace GrokBuild.Scheduler

open TextLines SchedulerActor List Option

/-- An iteration or a descendant of one is pending or active. -/
def Coordinator.Runs (c : Coordinator) (taskId : Text) : Prop :=
  ∃ command ∈ c.live, command.origin = some taskId

/-- The scheduler's spawn of an iteration of the task. -/
def Command.IsIteration (taskId : Text) : Command → Prop
  | .spawn command => command.fromScheduler = true ∧ command.origin = some taskId
  | _ => False

namespace System

/-- An iteration of the task is on its way to the coordinator, or not finished. -/
def Unfinished (s : System) (taskId : Text) : Prop :=
  (∃ command ∈ s.coordinator.live, Command.IsIteration taskId (.spawn command)) ∨
    ∃ command ∈ s.inbox, command.IsIteration taskId

/-- Nothing of the task runs, and no iteration is on its way. -/
def Quiet (s : System) (taskId : Text) : Prop :=
  ¬ s.coordinator.Runs taskId ∧ ∀ command ∈ s.inbox, ¬ command.IsIteration taskId

variable {taskId : Text}

theorem Quiet.finished {s : System} (h : s.Quiet taskId) : ¬ s.Unfinished taskId := by
  rintro (⟨command, hlive, -, horigin⟩ | ⟨command, hmem, hiter⟩)
  · exact h.1 ⟨command, hlive, horigin⟩
  · exact h.2 command hmem hiter

/-- The state of the coordinator that a step goes by: the one that gave the
answer which lets the fire through, or the present one when nothing was asked. -/
def seen (s : System) : Action → Coordinator
  | .answer index _ => (s.answers[index]?.map (·.seen)).getD s.coordinator
  | _ => s.coordinator

/-- Every earlier iteration is finished, and no descendant of one runs. -/
def NoOverlap (s : System) (action : Action) (taskId : Text) : Prop :=
  ¬ (s.seen action).Runs taskId ∧ ¬ s.Unfinished taskId

/-- When a step keeps to what the scheduler relies on: a new task has a new
id; an anchor is cleared by a failure only when nothing of its task runs or
is on its way; and what a descendant spawns is handled while it is active. -/
def Careful (s : System) : Action → Prop
  | .schedule _ (.create task) =>
    task.id ∉ s.actor.allTasks.map (·.id) ∧ task.id ∉ s.spawned
  | .report index _ => ∀ result, s.results[index]? = some result → result.failed = true →
    ∀ task ∈ s.actor.tasks, task.lastSubagentId = some result.subagentId → s.Quiet task.id
  | .handle => ∀ command inbox, s.inbox = .spawn command :: inbox →
    command.fromScheduler = false → ∀ taskId, command.origin = some taskId →
    ∃ spawner, s.coordinator.active.find?
        (·.childSessionId = command.request.parentSessionId) = some spawner ∧
      spawner.command.origin = some taskId
  | _ => True

/-- The states of a run whose steps are all careful. -/
inductive Reached (start : System) : System → Prop
  | refl : Reached start start
  | step {s s' : System} {action : Action} (reached : Reached start s)
      (careful : s.Careful action) (step : s.step action = some s') : Reached start s'

/-! ## The invariant -/

/-- What is on its way to the coordinator about the question that a fire asks. -/
structure Asked (s : System) (taskId : Text) (ticket : Nat) : Prop where
  task : ∀ taskId', .loopUnitActive taskId' ticket ∈ s.inbox → taskId' = taskId
  behind : s.inbox.Pairwise fun command later =>
    command = .loopUnitActive taskId ticket → ¬ later.IsIteration taskId
  answered : ∀ answer ∈ s.answers, answer.ticket = ticket → answer.isActive = false →
    ¬ answer.seen.Runs taskId ∧ ¬ s.Unfinished taskId

structure Invariant (s : System) : Prop where
  anchored : s.actor.Anchored
  distinct : (s.actor.allTasks.map (·.id)).Nodup
  quiet : ∀ taskId, Unanchored s.actor.allTasks taskId → s.Quiet taskId
  tagged : ∀ command ∈ s.coordinator.live, ∀ taskId, command.origin = some taskId →
    command.request.loopTaskId = some taskId
  sent : ∀ command, .spawn command ∈ s.inbox →
    command.request.loopTaskId = if command.fromScheduler then command.origin else none
  live_known : ∀ command ∈ s.coordinator.live, ∀ taskId, command.origin = some taskId →
    taskId ∈ s.spawned
  sent_known : ∀ command, .spawn command ∈ s.inbox → ∀ taskId, command.origin = some taskId →
    taskId ∈ s.spawned
  session_known : ∀ p ∈ s.sessions, ∀ taskId, p.2 = some taskId → taskId ∈ s.spawned
  asked_tickets : ∀ taskId ticket, .loopUnitActive taskId ticket ∈ s.inbox →
    ticket < s.actor.tickets
  answer_tickets : ∀ answer ∈ s.answers, answer.ticket < s.actor.tickets
  asked : ∀ fire prevSnapshot ticket, s.actor.stage = .asking fire prevSnapshot ticket →
    s.Asked fire.taskId ticket

variable {s s' : System}

theorem Invariant.shrink (h : s.Invariant) (hactor : s'.actor = s.actor)
    (hinbox : s'.inbox = s.inbox)
    (hlive : ∀ command ∈ s'.coordinator.live, command ∈ s.coordinator.live)
    (hanswers : ∀ answer ∈ s'.answers, answer ∈ s.answers) (hspawned : s'.spawned = s.spawned)
    (hsessions : ∀ p ∈ s'.sessions, ∀ taskId, p.2 = some taskId → taskId ∈ s.spawned) :
    s'.Invariant := by
  have hruns : ∀ taskId, s'.coordinator.Runs taskId → s.coordinator.Runs taskId :=
    fun taskId ⟨command, hmem, horigin⟩ => ⟨command, hlive command hmem, horigin⟩
  have hunfinished : ∀ taskId, s'.Unfinished taskId → s.Unfinished taskId := by
    rintro taskId (⟨command, hmem, hiter⟩ | ⟨command, hmem, hiter⟩)
    · exact .inl ⟨command, hlive command hmem, hiter⟩
    · exact .inr ⟨command, hinbox ▸ hmem, hiter⟩
  exact {
    anchored := hactor ▸ h.anchored
    distinct := hactor ▸ h.distinct
    quiet := fun taskId hun => by
      obtain ⟨hno, hcommands⟩ := h.quiet taskId (hactor ▸ hun)
      exact ⟨fun hr => hno (hruns taskId hr), hinbox ▸ hcommands⟩
    tagged := fun command hmem => h.tagged command (hlive command hmem)
    sent := hinbox ▸ h.sent
    live_known := fun command hmem => hspawned ▸ h.live_known command (hlive command hmem)
    sent_known := hinbox ▸ hspawned ▸ h.sent_known
    session_known := hspawned ▸ hsessions
    asked_tickets := hactor ▸ hinbox ▸ h.asked_tickets
    answer_tickets := fun answer hmem => hactor ▸ h.answer_tickets answer (hanswers answer hmem)
    asked := fun fire prevSnapshot ticket hstage => by
      have hasked := h.asked fire prevSnapshot ticket (hactor ▸ hstage)
      exact {
        task := hinbox ▸ hasked.task
        behind := hinbox ▸ hasked.behind
        answered := fun answer hmem hticket hno => by
          obtain ⟨hseen, hdone⟩ := hasked.answered answer (hanswers answer hmem) hticket hno
          exact ⟨hseen, fun hu => hdone (hunfinished _ hu)⟩ } }

/-! ## Steps of the scheduler -/

variable {env : Env} {input : Input}

theorem schedule_eq_some (h : s.schedule env input = some s') :
    ∃ actor output, s.actor.step env input = some (actor, output) ∧
      s' = { s with
        actor
        inbox := s.inbox ++ output.events.map Command.ofEvent
        spawned := s.spawned ++ output.events.filterMap spawnedTask } := by
  obtain ⟨⟨actor, output⟩, hstep, h⟩ := bind_eq_some_iff.mp h
  exact ⟨actor, output, hstep, (some.inj h).symm⟩

theorem query_ofEvent {event : SubagentEvent} (h : IsQuery event) :
    ∃ subagentId parentSessionId ticket,
      Command.ofEvent event = .query subagentId parentSessionId ticket := by
  cases event with
  | query subagentId parentSessionId ticket => exact ⟨_, _, _, rfl⟩
  | loopUnitActive => cases h
  | spawn => cases h

theorem queries_not_in {events : List SubagentEvent} (h : ∀ e ∈ events, IsQuery e) :
    ∀ command ∈ events.map Command.ofEvent, ∃ subagentId parentSessionId ticket,
      command = .query subagentId parentSessionId ticket := by
  intro command hmem
  obtain ⟨event, hevent, rfl⟩ := List.mem_map.mp hmem
  exact query_ofEvent (h event hevent)

theorem queries_spawn_nothing {events : List SubagentEvent} (h : ∀ e ∈ events, IsQuery e) :
    events.filterMap spawnedTask = [] := by
  rw [filterMap_eq_nil_iff]
  intro event hmem
  cases event with
  | query => rfl
  | loopUnitActive => cases h _ hmem
  | spawn => cases h _ hmem

variable {actor : SchedulerActor}

theorem Invariant.plain (h : s.Invariant) {queries : List Command}
    (hqueries : ∀ command ∈ queries, ∃ subagentId parentSessionId ticket, command = .query subagentId parentSessionId ticket)
    (hanchored : actor.Anchored) (hdistinct : (actor.allTasks.map (·.id)).Nodup)
    (hquiet : ∀ taskId, Unanchored actor.allTasks taskId → s.Quiet taskId)
    (hstage : actor.stage = s.actor.stage ∨ ∀ fire prevSnapshot ticket, actor.stage ≠ .asking fire prevSnapshot ticket)
    (htickets : s.actor.tickets ≤ actor.tickets) :
    Invariant { s with actor, inbox := s.inbox ++ queries } := by
  have hspawn : ∀ command, .spawn command ∈ s.inbox ++ queries → .spawn command ∈ s.inbox := by
    intro command hmem
    rcases mem_append.mp hmem with hmem | hmem
    · exact hmem
    · obtain ⟨_, _, _, ⟨⟩⟩ := hqueries _ hmem
  have hask : ∀ taskId ticket, .loopUnitActive taskId ticket ∈ s.inbox ++ queries →
      .loopUnitActive taskId ticket ∈ s.inbox := by
    intro taskId ticket hmem
    rcases mem_append.mp hmem with hmem | hmem
    · exact hmem
    · obtain ⟨_, _, _, ⟨⟩⟩ := hqueries _ hmem
  have hiter : ∀ taskId, ∀ command ∈ s.inbox ++ queries, command.IsIteration taskId →
      command ∈ s.inbox := by
    intro taskId command hmem hiter
    rcases mem_append.mp hmem with hmem | hmem
    · exact hmem
    · obtain ⟨_, _, _, rfl⟩ := hqueries _ hmem
      cases hiter
  exact {
    anchored := hanchored
    distinct := hdistinct
    quiet := fun taskId hun =>
      ⟨(hquiet taskId hun).1, fun command hmem hi =>
        (hquiet taskId hun).2 command (hiter taskId command hmem hi) hi⟩
    tagged := h.tagged
    sent := fun command hmem => h.sent command (hspawn command hmem)
    live_known := h.live_known
    sent_known := fun command hmem => h.sent_known command (hspawn command hmem)
    session_known := h.session_known
    asked_tickets := fun taskId ticket hmem =>
      Nat.lt_of_lt_of_le (h.asked_tickets taskId ticket (hask _ _ hmem)) htickets
    answer_tickets := fun answer hmem =>
      Nat.lt_of_lt_of_le (h.answer_tickets answer hmem) htickets
    asked := fun fire prevSnapshot ticket hasking => by
      rcases hstage with hsame | hnot
      · have hasked := h.asked fire prevSnapshot ticket (hsame ▸ hasking)
        exact {
          task := fun taskId' hmem => hasked.task taskId' (hask _ _ hmem)
          behind := by
            refine pairwise_append.mpr ⟨hasked.behind, ?_, ?_⟩
            · refine pairwise_of_forall_mem_list fun command hmem _ _ heq => ?_
              obtain ⟨_, _, _, rfl⟩ := hqueries command hmem
              cases heq
            · intro command _ later hlater _ hi
              obtain ⟨_, _, _, rfl⟩ := hqueries later hlater
              cases hi
          answered := fun answer hmem hticket hno => by
            obtain ⟨hseen, hdone⟩ := hasked.answered answer hmem hticket hno
            refine ⟨hseen, ?_⟩
            rintro (hlive | ⟨command, hmem', hi⟩)
            · exact hdone (.inl hlive)
            · exact hdone (.inr ⟨command, hiter _ command hmem' hi, hi⟩) }
      · exact absurd hasking (hnot _ _ _) }

theorem Invariant.ask (h : s.Invariant) {fire : Fire} {prevSnapshot : Option SubagentSnapshotStatus}
    (htasks : actor.allTasks = s.actor.allTasks)
    (hstage : actor.stage = .asking fire prevSnapshot s.actor.tickets)
    (htickets : actor.tickets = s.actor.tickets + 1) (hanchored : fire.lastSubagentId ≠ none) :
    Invariant { s with
      actor
      inbox := s.inbox ++ [.loopUnitActive fire.taskId s.actor.tickets] } := by
  have hspawn : ∀ command,
      .spawn command ∈ s.inbox ++ [.loopUnitActive fire.taskId s.actor.tickets] →
      .spawn command ∈ s.inbox := fun command hmem => by simpa using hmem
  have hlt : ∀ n, n < s.actor.tickets → n < actor.tickets := fun n hn => by omega
  exact {
    anchored := by simpa [Anchored, hstage] using hanchored
    distinct := htasks ▸ h.distinct
    quiet := fun taskId hun => by
      obtain ⟨hno, hcommands⟩ := h.quiet taskId (htasks ▸ hun)
      refine ⟨hno, fun command hmem => ?_⟩
      rcases mem_append.mp hmem with hmem | hmem
      · exact hcommands command hmem
      · obtain rfl := mem_singleton.mp hmem
        exact id
    tagged := h.tagged
    sent := fun command hmem => h.sent command (hspawn command hmem)
    live_known := h.live_known
    sent_known := fun command hmem => h.sent_known command (hspawn command hmem)
    session_known := h.session_known
    asked_tickets := fun taskId ticket hmem => by
      rcases mem_append.mp hmem with hmem | hmem
      · exact hlt _ (h.asked_tickets taskId ticket hmem)
      · cases mem_singleton.mp hmem
        exact htickets ▸ Nat.lt_succ_self _
    answer_tickets := fun answer hmem => hlt _ (h.answer_tickets answer hmem)
    asked := fun fire' prevSnapshot' ticket' hstage' => by
      obtain ⟨rfl, rfl, rfl⟩ : fire = fire' ∧ prevSnapshot = prevSnapshot' ∧
          s.actor.tickets = ticket' := by simpa [hstage] using hstage'
      exact {
        task := fun taskId' hmem => by
          rcases mem_append.mp hmem with hmem | hmem
          · exact absurd (h.asked_tickets _ _ hmem) (Nat.lt_irrefl _)
          · cases mem_singleton.mp hmem
            rfl
        behind := by
          refine pairwise_append.mpr ⟨?_, pairwise_singleton _ _, ?_⟩
          · refine pairwise_of_forall_mem_list fun command hmem _ _ heq => ?_
            subst heq
            exact absurd (h.asked_tickets _ _ hmem) (Nat.lt_irrefl _)
          · intro command _ later hlater _
            obtain rfl := mem_singleton.mp hlater
            exact id
        answered := fun answer hmem hticket =>
          absurd (hticket ▸ h.answer_tickets answer hmem) (Nat.lt_irrefl _) } }

theorem Invariant.spawn (h : s.Invariant) {request : SubagentRequest}
    (htask : request.loopTaskId = some taskId) (hdistinct : (actor.allTasks.map (·.id)).Nodup)
    (hunanchored : ∀ id, Unanchored actor.allTasks id → id ≠ taskId ∧ Unanchored s.actor.allTasks id)
    (hstage : actor.stage = .idle) (htickets : actor.tickets = s.actor.tickets) :
    Invariant { s with
      actor
      inbox := s.inbox ++ [.spawn ⟨request, true, some taskId⟩]
      spawned := s.spawned ++ [taskId] } where
  anchored := by simp [Anchored, hstage]
  distinct := hdistinct
  quiet id hun := by
    obtain ⟨hne, hun⟩ := hunanchored id hun
    obtain ⟨hno, hcommands⟩ := h.quiet id hun
    refine ⟨hno, fun command hmem => ?_⟩
    rcases mem_append.mp hmem with hmem | hmem
    · exact hcommands command hmem
    · obtain rfl := mem_singleton.mp hmem
      rintro ⟨-, horigin⟩
      exact hne (some.inj horigin).symm
  tagged := h.tagged
  sent command hmem := by
    rcases mem_append.mp hmem with hmem | hmem
    · exact h.sent command hmem
    · cases mem_singleton.mp hmem
      exact htask
  live_known command hmem id hid := mem_append_left _ (h.live_known command hmem id hid)
  sent_known command hmem id hid := by
    rcases mem_append.mp hmem with hmem | hmem
    · exact mem_append_left _ (h.sent_known command hmem id hid)
    · cases mem_singleton.mp hmem
      exact mem_append_right _ (by simpa using hid.symm)
  session_known p hmem id hid := mem_append_left _ (h.session_known p hmem id hid)
  asked_tickets id ticket hmem := by
    rw [htickets]
    exact h.asked_tickets id ticket (by simpa using hmem)
  answer_tickets answer hmem := htickets ▸ h.answer_tickets answer hmem
  asked fire prevSnapshot ticket hasking := by simp [hstage] at hasking

theorem Invariant.ordinary (h : s.Invariant) (hordinary : IsOrdinary input)
    (hstep : s.schedule env input = some s') : s'.Invariant := by
  obtain ⟨actor, output, hactor, rfl⟩ := schedule_eq_some hstep
  have hnodup : ∀ {tasks : List ScheduledTask}, Carried s.actor.allTasks tasks →
      (tasks.map (·.id)).Nodup := fun ⟨⟨l, hperm, hsub⟩, _⟩ =>
    hperm.nodup_iff.mp (hsub.nodup h.distinct)
  cases step_outcome hordinary h.anchored hactor with
  | plain carried events stage tickets anchored =>
    rw [queries_spawn_nothing events, append_nil]
    exact h.plain (queries_not_in events) anchored (hnodup carried)
      (fun taskId hun => h.quiet taskId (carried.unanchored taskId hun)) stage tickets
  | asks fire prevSnapshot tasks stage events tickets anchored =>
    have hasked := h.ask tasks stage tickets anchored
    have hspawned : s.spawned ++ output.events.filterMap spawnedTask = s.spawned := by
      rw [events]
      exact append_nil _
    rw [hspawned, events]
    exact hasked
  | spawns taskId request carried anchored events task stage tickets allowed =>
    have hsent := h.spawn task (hnodup carried) (fun id hun =>
      ⟨fun heq => anchored h.distinct (heq ▸ hun), carried.unanchored id hun⟩) stage tickets
    have hspawned : output.events.filterMap spawnedTask = [taskId] := by
      rw [events]
      simp [spawnedTask, task]
    rw [hspawned, events, map_singleton, Command.ofEvent, task]
    exact hsent

theorem Invariant.create (h : s.Invariant) {task : ScheduledTask}
    (hid : task.id ∉ s.actor.allTasks.map (·.id)) (hnew : task.id ∉ s.spawned)
    (hstep : s.schedule env (.create task) = some s') : s'.Invariant := by
  obtain ⟨actor, output, hactor, rfl⟩ := schedule_eq_some hstep
  obtain ⟨htasks, hstage, htickets, hevents⟩ := step_create hactor
  have hanchored : actor.Anchored := by
    have := h.anchored
    unfold Anchored at this ⊢
    rwa [hstage]
  have hquiet : s.Quiet task.id := by
    refine ⟨?_, ?_⟩
    · rintro ⟨command, hlive, horigin⟩
      exact hnew (h.live_known command hlive _ horigin)
    · rintro (command | _ | _) hmem hiter
      · exact hnew (h.sent_known command hmem _ hiter.2)
      · cases hiter
      · cases hiter
  simp only [hevents, map_nil, filterMap_nil, append_nil]
  have hplain := h.plain (forall_mem_nil _) hanchored
  simp only [append_nil] at hplain
  rcases htasks with hsame | hmore
  · exact hplain (hsame ▸ h.distinct) (hsame ▸ h.quiet) (.inl hstage) htickets.ge
  · refine hplain ?_ ?_ (.inl hstage) htickets.ge
    · rw [hmore, map_append]
      exact nodup_append'.mpr ⟨h.distinct, nodup_singleton _, by simpa using hid⟩
    · rintro id ⟨task', hmem, rfl, hnone⟩
      rw [hmore] at hmem
      rcases mem_append.mp hmem with hmem | hmem
      · exact h.quiet _ ⟨task', hmem, rfl, hnone⟩
      · obtain rfl := mem_singleton.mp hmem
        exact hquiet

theorem Invariant.report (h : s.Invariant) {subagentId : Text} {failed : Bool}
    (hquiet : failed = true → ∀ task ∈ s.actor.tasks, task.lastSubagentId = some subagentId → s.Quiet task.id)
    (hstep : s.schedule env (.reported subagentId failed) = some s') : s'.Invariant := by
  obtain ⟨actor, output, hactor, rfl⟩ := schedule_eq_some hstep
  have hactor' : some (s.actor.reported subagentId failed, Output.none) = some (actor, output) := by
    simpa [SchedulerActor.step] using hactor
  obtain ⟨rfl, rfl⟩ := Prod.mk.inj (some.inj hactor')
  have hstage : (s.actor.reported subagentId failed).stage = s.actor.stage ∧
      (s.actor.reported subagentId failed).tickets = s.actor.tickets := by
    unfold reported
    split <;> exact ⟨rfl, rfl⟩
  have hanchored : (s.actor.reported subagentId failed).Anchored := by
    have := h.anchored
    unfold Anchored at this ⊢
    rwa [hstage.1]
  simp only [Output.none, map_nil, filterMap_nil, append_nil]
  have hplain := h.plain (forall_mem_nil _) hanchored
  simp only [append_nil] at hplain
  refine hplain ?_ ?_ (.inl hstage.1) hstage.2.ge
  · rw [reported_ids]
    exact h.distinct
  · intro id hun
    rcases reported_unanchored hun with hun | ⟨hfailed, task, hmem, hlast, rfl⟩
    · exact h.quiet id hun
    · exact hquiet hfailed task hmem hlast

/-! ## Steps of the coordinator -/

theorem spawn_live (c : Coordinator) (command : SpawnCommand) :
    (c.spawn command).1.live = c.live ∨
      ∃ admitted, (∀ d ∈ (c.spawn command).1.live, d ∈ c.live ∨ d = admitted) ∧
        admitted.fromScheduler = command.fromScheduler ∧ admitted.origin = command.origin ∧
        admitted.request.loopTaskId = command.request.loopTaskId.or
          ((c.active.find? (·.childSessionId = command.request.parentSessionId)).bind
            (·.command.request.loopTaskId)) := by
  have henqueue : ∀ admitted, (c.enqueue admitted).1.live = c.live ∨
      ∀ d ∈ (c.enqueue admitted).1.live, d ∈ c.live ∨ d = admitted := by
    intro admitted
    unfold Coordinator.enqueue
    simp only
    split
    · exact .inl rfl
    · split
      · exact .inl rfl
      · refine .inr fun d hmem => ?_
        simp only [Coordinator.live, map_append, map_cons, map_nil, mem_append,
          mem_singleton] at hmem ⊢
        tauto
  unfold Coordinator.spawn
  cases c.active.find? (·.childSessionId = command.request.parentSessionId) with
  | none =>
    simp only [bind_none, or_none]
    exact (henqueue command).imp_right fun hlive => ⟨command, hlive, rfl, rfl, rfl⟩
  | some spawner =>
    simp only [bind_some]
    split
    · exact .inl rfl
    · exact (henqueue _).imp_right fun hlive =>
        ⟨Coordinator.reparent spawner command, hlive, rfl, rfl, rfl⟩

variable {inbox : List Command}

theorem Asked.rest {taskId : Text} {ticket : Nat} (h : s.Asked taskId ticket) {command : Command}
    (heq : s.inbox = command :: inbox) {coordinator : Coordinator} {results : List SubagentResult}
    (hunfinished : System.Unfinished { s with inbox, coordinator, results } taskId →
      s.Unfinished taskId) : System.Asked { s with inbox, coordinator, results } taskId ticket where
  task taskId' hmem := h.task taskId' (heq ▸ mem_cons_of_mem _ hmem)
  behind := (pairwise_cons.mp (heq ▸ h.behind)).2
  answered answer hmem hticket hno :=
    (h.answered answer hmem hticket hno).imp_right fun hdone hu => hdone (hunfinished hu)

theorem Invariant.admitted (h : s.Invariant) {command : SpawnCommand}
    (heq : s.inbox = .spawn command :: inbox) {coordinator : Coordinator} {admitted : SpawnCommand}
    (hlive : ∀ d ∈ coordinator.live, d ∈ s.coordinator.live ∨ d = admitted)
    (hscheduler : admitted.fromScheduler = command.fromScheduler)
    (horigin : admitted.origin = command.origin)
    (htag : ∀ taskId, command.origin = some taskId → admitted.request.loopTaskId = some taskId)
    (hcareful : command.fromScheduler = false → ∀ taskId, command.origin = some taskId → s.coordinator.Runs taskId)
    (results : List SubagentResult) : Invariant { s with inbox, coordinator, results } := by
  have hhead : .spawn command ∈ s.inbox := heq ▸ mem_cons_self
  have hrest : ∀ c ∈ inbox, c ∈ s.inbox := fun c hc => heq ▸ mem_cons_of_mem _ hc
  have hunfinished : ∀ taskId, System.Unfinished { s with inbox, coordinator, results } taskId →
      s.Unfinished taskId := by
    rintro taskId (⟨d, hmem, hiter⟩ | ⟨d, hmem, hiter⟩)
    · rcases hlive d hmem with hold | rfl
      · exact .inl ⟨d, hold, hiter⟩
      · exact .inr ⟨_, hhead, hscheduler ▸ hiter.1, horigin ▸ hiter.2⟩
    · exact .inr ⟨d, hrest d hmem, hiter⟩
  exact {
    anchored := h.anchored
    distinct := h.distinct
    quiet := fun taskId hun => by
      obtain ⟨hno, hcommands⟩ := h.quiet taskId hun
      refine ⟨?_, fun c hmem => hcommands c (hrest c hmem)⟩
      rintro ⟨d, hmem, hd⟩
      rcases hlive d hmem with hold | rfl
      · exact hno ⟨d, hold, hd⟩
      · have hd' : command.origin = some taskId := horigin ▸ hd
        cases hfrom : command.fromScheduler with
        | true => exact hcommands _ hhead ⟨hfrom, hd'⟩
        | false => exact hno (hcareful hfrom taskId hd')
    tagged := fun d hmem taskId hd => by
      rcases hlive d hmem with hold | rfl
      · exact h.tagged d hold taskId hd
      · exact htag taskId (horigin ▸ hd)
    sent := fun c hmem => h.sent c (hrest _ hmem)
    live_known := fun d hmem taskId hd => by
      rcases hlive d hmem with hold | rfl
      · exact h.live_known d hold taskId hd
      · exact h.sent_known command hhead taskId (horigin ▸ hd)
    sent_known := fun c hmem => h.sent_known c (hrest _ hmem)
    session_known := h.session_known
    asked_tickets := fun taskId ticket hmem => h.asked_tickets taskId ticket (hrest _ hmem)
    answer_tickets := h.answer_tickets
    asked := fun fire prevSnapshot ticket hstage =>
      (h.asked fire prevSnapshot ticket hstage).rest heq (hunfinished _) }

theorem Invariant.pop (h : s.Invariant) {command : Command} (heq : s.inbox = command :: inbox) :
    Invariant { s with inbox } := by
  have hrest : ∀ c ∈ inbox, c ∈ s.inbox := fun c hc => heq ▸ mem_cons_of_mem _ hc
  exact {
    anchored := h.anchored
    distinct := h.distinct
    quiet := fun taskId hun =>
      ⟨(h.quiet taskId hun).1, fun c hmem => (h.quiet taskId hun).2 c (hrest c hmem)⟩
    tagged := h.tagged
    sent := fun c hmem => h.sent c (hrest _ hmem)
    live_known := h.live_known
    sent_known := fun c hmem => h.sent_known c (hrest _ hmem)
    session_known := h.session_known
    asked_tickets := fun taskId ticket hmem => h.asked_tickets taskId ticket (hrest _ hmem)
    answer_tickets := h.answer_tickets
    asked := fun fire prevSnapshot ticket hstage => by
      refine (h.asked fire prevSnapshot ticket hstage).rest heq ?_
      rintro (hlive | ⟨c, hmem, hi⟩)
      · exact .inl hlive
      · exact .inr ⟨c, hrest c hmem, hi⟩ }

theorem Invariant.handleSpawn (h : s.Invariant) {command : SpawnCommand}
    (heq : s.inbox = .spawn command :: inbox) (hcareful : s.Careful .handle)
    (results : List SubagentResult) :
    Invariant { s with inbox, coordinator := (s.coordinator.spawn command).1, results } := by
  have hsent := h.sent command (heq ▸ mem_cons_self)
  rcases spawn_live s.coordinator command with hsame | ⟨admitted, hlive, hsched, horigin, htag⟩
  · exact (h.pop heq).shrink rfl rfl (fun d hmem => hsame ▸ hmem) (fun _ => id) rfl h.session_known
  · have hspawner := hcareful command inbox heq
    refine h.admitted heq hlive hsched horigin (fun taskId hid => ?_) (fun hnot taskId hid => ?_) _
    · rw [htag, hsent]
      cases hfrom : command.fromScheduler with
      | true => simp [hid]
      | false =>
        obtain ⟨spawner, hfind, hspawner⟩ := hspawner hfrom taskId hid
        have hmem : spawner.command ∈ s.coordinator.live :=
          mem_append_right _ (List.mem_map_of_mem (mem_of_find?_eq_some hfind))
        simp [hfind, h.tagged _ hmem taskId hspawner]
    · obtain ⟨spawner, hfind, hspawner⟩ := hspawner hnot taskId hid
      exact ⟨spawner.command, mem_append_right _
        (List.mem_map_of_mem (mem_of_find?_eq_some hfind)), hspawner⟩

/-- The coordinator answers: when its unit is not active, nothing of the task runs. -/
theorem Invariant.handleUnit (h : s.Invariant) {ticket : Nat}
    (heq : s.inbox = .loopUnitActive taskId ticket :: inbox) :
    Invariant { s with
      inbox
      answers := s.answers ++ [⟨ticket, s.coordinator.loopUnitActive taskId, s.coordinator⟩] } := by
  have hpop := h.pop heq
  have hquiet : s.coordinator.loopUnitActive taskId = false → ¬ s.coordinator.Runs taskId := by
    rintro hno ⟨command, hmem, horigin⟩
    have := List.any_eq_false.mp hno command hmem
    exact this (by simpa using h.tagged command hmem taskId horigin)
  refine { hpop with answer_tickets := ?_, asked := ?_ }
  · intro answer hmem
    rcases mem_append.mp hmem with hmem | hmem
    · exact h.answer_tickets answer hmem
    · obtain rfl := mem_singleton.mp hmem
      exact h.asked_tickets taskId ticket (heq ▸ mem_cons_self)
  · intro fire prevSnapshot ticket' hstage
    have hasked := hpop.asked fire prevSnapshot ticket' hstage
    have hasked' := h.asked fire prevSnapshot ticket' hstage
    refine { task := hasked.task, behind := hasked.behind, answered := ?_ }
    intro answer hmem hticket hno
    rcases mem_append.mp hmem with hmem | hmem
    · exact hasked.answered answer hmem hticket hno
    · obtain rfl := mem_singleton.mp hmem
      simp only at hticket hno
      subst hticket
      obtain rfl := hasked'.task taskId (heq ▸ mem_cons_self)
      have hnone := hquiet hno
      refine ⟨hnone, ?_⟩
      rintro (⟨command, hlive, hi⟩ | ⟨command, hmem', hi⟩)
      · exact hnone ⟨command, hlive, hi.2⟩
      · have hbehind := hasked'.behind
        rw [heq] at hbehind
        exact (pairwise_cons.mp hbehind).1 command hmem' rfl hi

theorem Invariant.handle (h : s.Invariant) (hcareful : s.Careful .handle) :
    s.handle.Invariant := by
  unfold System.handle
  split
  · exact h
  · exact h.handleSpawn ‹_› hcareful _
  · exact h.pop ‹_›
  · exact h.handleUnit ‹_›

theorem Invariant.nest (h : s.Invariant) (request : SubagentRequest) :
    Invariant { s with inbox := s.inbox ++
      [.spawn ⟨{ request with loopTaskId := none }, false, s.originOf request.parentSessionId⟩] } := by
  have hiter : ∀ taskId, ∀ command ∈ s.inbox ++ [.spawn ⟨{ request with loopTaskId := none }, false,
      s.originOf request.parentSessionId⟩], command.IsIteration taskId → command ∈ s.inbox := by
    intro taskId command hmem hi
    rcases mem_append.mp hmem with hmem | hmem
    · exact hmem
    · obtain rfl := mem_singleton.mp hmem
      cases hi.1
  exact {
    anchored := h.anchored
    distinct := h.distinct
    quiet := fun taskId hun =>
      ⟨(h.quiet taskId hun).1, fun c hmem hi => (h.quiet taskId hun).2 c (hiter _ c hmem hi) hi⟩
    tagged := h.tagged
    sent := fun c hmem => by
      rcases mem_append.mp hmem with hmem | hmem
      · exact h.sent c hmem
      · cases mem_singleton.mp hmem
        rfl
    live_known := h.live_known
    sent_known := fun c hmem taskId hc => by
      rcases mem_append.mp hmem with hmem | hmem
      · exact h.sent_known c hmem taskId hc
      · cases mem_singleton.mp hmem
        obtain ⟨p, hfind, hp⟩ := bind_eq_some_iff.mp hc
        exact h.session_known p (mem_of_find?_eq_some hfind) taskId hp
    session_known := h.session_known
    asked_tickets := fun taskId ticket hmem => h.asked_tickets taskId ticket (by simpa using hmem)
    answer_tickets := h.answer_tickets
    asked := fun fire prevSnapshot ticket hstage => by
      have hasked := h.asked fire prevSnapshot ticket hstage
      exact {
        task := fun taskId' hmem => hasked.task taskId' (by simpa using hmem)
        behind := by
          refine pairwise_append.mpr ⟨hasked.behind, pairwise_singleton _ _, ?_⟩
          intro c _ later hlater _ hi
          obtain rfl := mem_singleton.mp hlater
          cases hi.1
        answered := fun answer hmem hticket hno => by
          obtain ⟨hseen, hdone⟩ := hasked.answered answer hmem hticket hno
          refine ⟨hseen, ?_⟩
          rintro (hlive | ⟨c, hmem', hi⟩)
          · exact hdone (.inl hlive)
          · exact hdone (.inr ⟨c, hiter _ c hmem' hi, hi⟩) } }

theorem started_live (c : Coordinator) (id childSessionId : Text) :
    ∀ d ∈ (c.started id childSessionId).live, d ∈ c.live := by
  intro d hmem
  unfold Coordinator.started at hmem
  split at hmem
  · exact hmem
  · rename_i child hfind
    have hchild := mem_of_find?_eq_some hfind
    split at hmem
    · exact hmem
    · simp only [Coordinator.live, map_append, map_cons, map_nil, mem_append,
        List.mem_map, mem_filter, mem_singleton] at hmem ⊢
      rcases hmem with ⟨p, ⟨hp, -⟩, rfl⟩ | ⟨a, ha, rfl⟩ | rfl
      · exact .inl ⟨p, hp, rfl⟩
      · exact .inr ⟨a, ha, rfl⟩
      · exact .inl ⟨child, hchild, rfl⟩

theorem finishChild_live (c : Coordinator) (id : Text) :
    ∀ d ∈ (c.finishChild id).live, d ∈ c.live := by
  intro d hmem
  unfold Coordinator.finishChild at hmem
  split at hmem
  · simp only [Coordinator.live, mem_append, List.mem_map, mem_filter] at hmem ⊢
    rcases hmem with ⟨p, ⟨hp, -⟩, rfl⟩ | ⟨a, ⟨ha, -⟩, rfl⟩
    · exact .inl ⟨p, hp, rfl⟩
    · exact .inr ⟨a, ha, rfl⟩
  · exact hmem

theorem cancelOne_live (c : Coordinator) (id : Text) : (c.cancelOne id).live = c.live := by
  unfold Coordinator.live Coordinator.cancelOne
  simp only [List.map_map]
  congr 1
  · exact map_congr_left fun child _ => by simp only [Function.comp]; split <;> rfl
  · exact map_congr_left fun child _ => by simp only [Function.comp]; split <;> rfl

/-! ## Runs -/

theorem Invariant.step (h : s.Invariant) {action : Action} (hcareful : s.Careful action)
    (hstep : s.step action = some s') : s'.Invariant := by
  cases action with
  | schedule env input =>
    have hordinary : IsOrdinary input → s.schedule env input = some s' → s'.Invariant :=
      fun ho => h.ordinary ho
    cases input with
    | create task => exact h.create hcareful.1 hcareful.2 hstep
    | reported => exact some.inj hstep ▸ h
    | unitAnswered ticket answer =>
      cases answer with
      | none => exact hordinary trivial hstep
      | some => exact some.inj hstep ▸ h
    | _ => exact hordinary trivial hstep
  | answer index env =>
    obtain ⟨answer, -, hstep⟩ := bind_eq_some_iff.mp hstep
    have hless : Invariant { s with answers := s.answers.eraseIdx index } :=
      h.shrink rfl rfl (fun _ hmem => hmem) (fun _ hmem => mem_of_mem_eraseIdx hmem) rfl
        h.session_known
    have hordinary : IsOrdinary (.unitAnswered answer.ticket (some answer.isActive)) := trivial
    exact hless.ordinary hordinary hstep
  | report index env =>
    obtain ⟨result, hresult, hstep⟩ := bind_eq_some_iff.mp hstep
    have hless : Invariant { s with results := s.results.eraseIdx index } :=
      h.shrink rfl rfl (fun _ hmem => hmem) (fun _ hmem => hmem) rfl h.session_known
    exact hless.report (fun hfailed task hmem hlast => hcareful result hresult hfailed task hmem hlast)
      hstep
  | handle =>
    obtain rfl := some.inj hstep
    exact h.handle hcareful
  | nest request =>
    obtain rfl := some.inj hstep
    exact h.nest request
  | started id childSessionId =>
    obtain rfl := some.inj hstep
    unfold System.start
    split
    · exact h
    · rename_i child hfind
      split
      · exact h
      · refine h.shrink rfl rfl (started_live _ _ _) (fun _ hmem => hmem) rfl fun p hmem taskId hp => ?_
        rcases mem_cons.mp hmem with rfl | hmem
        · exact h.live_known child.command (mem_append_left _
            (List.mem_map_of_mem (mem_of_find?_eq_some hfind))) taskId hp
        · exact h.session_known p hmem taskId hp
  | finish id failed =>
    obtain rfl := some.inj hstep
    exact h.shrink rfl rfl (finishChild_live _ _) (fun _ hmem => hmem) rfl h.session_known
  | cancelOne id =>
    obtain rfl := some.inj hstep
    exact h.shrink rfl rfl (fun d hmem => cancelOne_live _ _ ▸ hmem) (fun _ hmem => hmem) rfl
      h.session_known
  | block sessionId =>
    obtain rfl := some.inj hstep
    exact h.shrink rfl rfl (fun _ hmem => hmem) (fun _ hmem => hmem) rfl h.session_known
  | admitAgain sessionId =>
    obtain rfl := some.inj hstep
    exact h.shrink rfl rfl (fun _ hmem => hmem) (fun _ hmem => hmem) rfl h.session_known
  | evict id =>
    obtain rfl := some.inj hstep
    exact h.shrink rfl rfl (fun _ hmem => hmem) (fun _ hmem => hmem) rfl h.session_known

theorem new_invariant (generation : Uuid) {tasks : List ScheduledTask}
    (hdistinct : (tasks.map (·.id)).Nodup) : (System.new generation tasks).Invariant := by
  constructor <;> simp [System.new, SchedulerActor.new, Anchored, allTasks, hdistinct, Quiet,
    Coordinator.Runs, Coordinator.live, Coordinator.new]

theorem Reached.invariant {start : System} (h : Reached start s) (hstart : start.Invariant) :
    s.Invariant := by
  induction h with
  | refl => exact hstart
  | step _ hcareful hstep ih => exact ih.step hcareful hstep

theorem schedule_spawns (h : s.Invariant) (hstep : s.schedule env input = some s')
    (hspawn : s'.spawned = s.spawned ++ [taskId]) : Allowed s.actor input taskId := by
  obtain ⟨actor, output, hactor, rfl⟩ := schedule_eq_some hstep
  have hevents : output.events.filterMap spawnedTask = [taskId] := append_cancel_left hspawn
  have hordinary : IsOrdinary input → Allowed s.actor input taskId := by
    intro ho
    cases step_outcome ho h.anchored hactor with
    | plain carried events => simp [queries_spawn_nothing events] at hevents
    | asks fire prevSnapshot tasks stage events =>
      rw [events] at hevents
      cases hevents
    | spawns taskId' request carried anchored events task stage tickets allowed =>
      rw [events] at hevents
      obtain rfl : taskId' = taskId := by simpa [spawnedTask, task] using hevents
      exact allowed
  cases input with
  | create task =>
    obtain ⟨-, -, -, hnone⟩ := step_create hactor
    simp [hnone] at hevents
  | reported subagentId failed =>
    have hactor' : some (s.actor.reported subagentId failed, Output.none) =
        some (actor, output) := by simpa [SchedulerActor.step] using hactor
    obtain ⟨rfl, rfl⟩ := Prod.mk.inj (some.inj hactor')
    cases hevents
  | _ => exact hordinary trivial

/-- Whenever the scheduler spawns an iteration of a task, after any run of
careful steps, every earlier iteration is finished and no descendant runs. -/
theorem iterations_do_not_overlap (generation : Uuid) (tasks : List ScheduledTask)
    (hdistinct : (tasks.map (·.id)).Nodup) (s s' : System) (action : Action) (taskId : Text)
    (hreached : Reached (System.new generation tasks) s) (hstep : s.step action = some s')
    (hspawn : s'.spawned = s.spawned ++ [taskId]) : s.NoOverlap action taskId := by
  have h := hreached.invariant (new_invariant generation hdistinct)
  have hnot : s.spawned ≠ s.spawned ++ [taskId] := by simp
  have hunanchored : (∀ index env, action ≠ .answer index env) →
      Unanchored s.actor.allTasks taskId → s.NoOverlap action taskId := by
    intro haction hun
    have hquiet := h.quiet taskId hun
    refine ⟨?_, hquiet.finished⟩
    have hseen : s.seen action = s.coordinator := by
      cases action with
      | answer index env => exact absurd rfl (haction index env)
      | _ => rfl
    rw [hseen]
    exact hquiet.1
  cases action with
  | schedule env input =>
    have hschedule : (∀ ticket isActive, input ≠ .unitAnswered ticket (some isActive)) →
        s.schedule env input = some s' → s.NoOverlap (.schedule env input) taskId := by
      intro hinput hstep
      cases schedule_spawns h hstep hspawn with
      | unanchored hun => exact hunanchored (by simp) hun
      | answered fire prevSnapshot ticket stage task input => exact absurd input (hinput _ _)
    cases input with
    | unitAnswered ticket answer =>
      cases answer with
      | none => exact hschedule (by simp) hstep
      | some =>
        obtain rfl := some.inj hstep
        exact absurd hspawn hnot
    | reported =>
      obtain rfl := some.inj hstep
      exact absurd hspawn hnot
    | _ => exact hschedule (by simp) hstep
  | answer index env =>
    obtain ⟨answer, hanswer, hstep⟩ := bind_eq_some_iff.mp hstep
    have hless : Invariant { s with answers := s.answers.eraseIdx index } :=
      h.shrink rfl rfl (fun _ => id) (fun _ hmem => mem_of_mem_eraseIdx hmem) rfl
        h.session_known
    cases schedule_spawns hless hstep hspawn with
    | unanchored hun hinput => exact absurd rfl (hinput _ _)
    | answered fire prevSnapshot ticket stage task input =>
      obtain ⟨rfl, hno⟩ : answer.ticket = ticket ∧ answer.isActive = false := by
        simpa using input
      obtain ⟨hseen, hdone⟩ := (h.asked fire prevSnapshot _ stage).answered answer
        (mem_of_getElem? hanswer) rfl hno
      subst task
      refine ⟨?_, hdone⟩
      simpa [System.seen, hanswer] using hseen
  | report index env =>
    obtain ⟨result, -, hstep⟩ := bind_eq_some_iff.mp hstep
    have hless : Invariant { s with results := s.results.eraseIdx index } :=
      h.shrink rfl rfl (fun _ => id) (fun _ => id) rfl h.session_known
    cases schedule_spawns hless hstep hspawn with
    | unanchored hun => exact hunanchored (by simp) hun
    | answered fire prevSnapshot ticket stage task input => cases input
  | handle =>
    obtain rfl := some.inj hstep
    refine absurd (?_ : s.spawned = _) hnot
    rw [← hspawn]
    unfold System.handle
    split <;> rfl
  | started id childSessionId =>
    obtain rfl := some.inj hstep
    refine absurd (?_ : s.spawned = _) hnot
    rw [← hspawn]
    unfold System.start
    split
    · rfl
    · split <;> rfl
  | _ =>
    obtain rfl := some.inj hstep
    exact absurd hspawn hnot

/-- A recurring task, and the world at the given minute. -/
def poll : ScheduledTask where
  id := ['w']
  intervalSecs := 60
  prompt := []
  recurring := true
  durable := false
  foreground := false
  createdAt := 0
  lastFiredAt := none
  expiresAt := none
  lastSubagentId := none
  iterationsSinceFresh := 0
  chainResetPending := false

def envAt (minute : Int) (subagentId : Text) : Env where
  now := minute * 60000000000
  newGeneration := 2
  subagentId
  durableTargets := true
  stillDurable := true
  backgroundLoops := true
  session := some ['s']
  channelOpen := true

/-- No task is created, no failure is reported, and what is handled is not from a child. -/
def harmless (s : System) : Action → Bool
  | .schedule _ (.create _) => false
  | .report index _ => s.results[index]?.all fun result => !result.failed
  | .handle => s.inbox.head?.all fun
    | .spawn command => command.fromScheduler
    | _ => true
  | _ => true

theorem careful_of_harmless {action : Action} (h : s.harmless action = true) : s.Careful action := by
  cases action with
  | schedule env input =>
    cases input with
    | create task => cases h
    | _ => trivial
  | report index env =>
    intro result hresult hfailed
    simp [harmless, hresult, hfailed] at h
  | handle =>
    intro command inbox hinbox hscheduler
    simp [harmless, hinbox, hscheduler] at h
  | _ => trivial

/-- A step, if it is harmless. -/
def harmlessStep (s : System) (action : Action) : Option System :=
  if s.harmless action then s.step action else none

theorem Reached.harmless {start : System} {actions : List Action} (h : Reached start s)
    (hrun : actions.foldlM harmlessStep s = some s') : Reached start s' := by
  induction actions generalizing s with
  | nil =>
    cases hrun
    exact h
  | cons action rest ih =>
    rw [foldlM_cons] at hrun
    obtain ⟨next, hstep, hrest⟩ := bind_eq_some_iff.mp hrun
    unfold harmlessStep at hstep
    split at hstep
    · next hharmless => exact ih (h.step (careful_of_harmless hharmless) hstep) hrest
    · cases hstep

/-- An iteration runs to its end, and its result is reported; the task is due again, the end of
the iteration is found out, and the coordinator is asked for what is left of it. -/
def finishedIteration : List Action :=
  [.schedule (envAt 0 []) .start,
    .schedule (envAt 1 ['1']) .timer, .handle, .started ['1'] ['1'],
    .finish ['1'] false, .report 0 (envAt 1 []),
    .schedule (envAt 2 []) .timer, .handle,
    .schedule (envAt 2 []) (.queried 0 (some (some (.completed ['d'])))), .handle]

/-- Its answer lets the second iteration through. -/
theorem iterations_do_not_overlap_second :
    ∃ s s' : System, s.step (.answer 0 (envAt 2 ['2'])) = some s' ∧
      s.spawned = [poll.id] ∧ s'.spawned = [poll.id, poll.id] ∧
      s.NoOverlap (.answer 0 (envAt 2 ['2'])) poll.id := by
  have hrun : (finishedIteration.foldlM harmlessStep (System.new 1 [poll])).bind (fun s =>
      (s.step (.answer 0 (envAt 2 ['2']))).map fun s' => (s.spawned, s'.spawned)) =
      some ([poll.id], [poll.id, poll.id]) := by
    decide
  obtain ⟨s, hreached, hrun⟩ := bind_eq_some_iff.mp hrun
  obtain ⟨s', hanswer, hspawned⟩ := map_eq_some_iff.mp hrun
  obtain ⟨hbefore, hafter⟩ := Prod.mk.inj hspawned
  exact ⟨s, s', hanswer, hbefore, hafter, iterations_do_not_overlap 1 [poll] (by simp) s s' _ poll.id
    (Reached.refl.harmless hreached) hanswer (by rw [hbefore, hafter]; rfl)⟩

/-- An iteration spawns a child and then fails; its result clears the anchor. -/
def failedIteration : List Action :=
  [.schedule (envAt 0 []) .start,
    .schedule (envAt 1 ['1']) .timer, .handle, .started ['1'] ['1'],
    .nest ⟨['2'], [], [], ['1'], none, none, false, .task⟩, .handle,
    .finish ['1'] true, .report 0 (envAt 1 [])]

/-- The next fire then asks nothing, and spawns beside the child. -/
theorem failedIteration_overlaps :
    ∃ s s', (System.new 1 [poll]).run failedIteration = some s ∧
      s.step (.schedule (envAt 2 ['3']) .timer) = some s' ∧
      s.spawned = [poll.id] ∧ s'.spawned = s.spawned ++ [poll.id] ∧
      ¬ s.NoOverlap (.schedule (envAt 2 ['3']) .timer) poll.id := by
  have hrun : ((System.new 1 [poll]).run failedIteration).bind (fun s =>
      (s.step (.schedule (envAt 2 ['3']) .timer)).map fun s' =>
        (s.spawned, s'.spawned, s.coordinator.live.map (·.origin))) =
      some ([poll.id], [poll.id, poll.id], [some poll.id]) := by
    decide
  obtain ⟨s, hran, hrun⟩ := bind_eq_some_iff.mp hrun
  obtain ⟨s', hfire, hall⟩ := map_eq_some_iff.mp hrun
  simp only [Prod.mk.injEq] at hall
  obtain ⟨hbefore, hafter, hlive⟩ := hall
  refine ⟨s, s', hran, hfire, hbefore, by rw [hafter, hbefore]; rfl, fun hno => hno.1 ?_⟩
  have hmem : some poll.id ∈ s.coordinator.live.map (·.origin) := by
    rw [hlive]
    exact mem_singleton_self _
  obtain ⟨command, hcommand, horigin⟩ := List.mem_map.mp hmem
  exact ⟨command, hcommand, horigin⟩

end System

end GrokBuild.Scheduler
