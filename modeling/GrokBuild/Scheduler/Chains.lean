import GrokBuild.Scheduler.Anchors
import GrokBuild.Scheduler.Interval

/-!
# The scheduler: transcript chains

An iteration that resumes the transcript of the last one makes the chain of its
task longer. The three fields of a task that encode its chain are held against
a history of what was sent, reported and changed.
-/

namespace GrokBuild.Scheduler

open TextLines List Option

/-- The fields of a task that encode its chain, under its id. -/
structure Mark where
  taskId : Text
  lastSubagentId : Option Text
  iterationsSinceFresh : UInt32
  chainResetPending : Bool
  deriving DecidableEq

def ScheduledTask.mark (task : ScheduledTask) : Mark :=
  ⟨task.id, task.lastSubagentId, task.iterationsSinceFresh, task.chainResetPending⟩

def Fire.mark (fire : Fire) : Mark :=
  ⟨fire.taskId, fire.lastSubagentId, fire.iterationsSinceFresh, fire.chainResetPending⟩

/-- The marks of the tasks that have the id. -/
def marksOf (taskId : Text) (tasks : List ScheduledTask) : List Mark :=
  (tasks.map (·.mark)).filter (·.taskId = taskId)

/-- `id.to_string().replace('-', "")[..12]`. -/
def Uuid.shortened (uuid : Uuid) : Text :=
  (List.range 12).map fun i => (uuid.extractLsb' (124 - 4 * i) 4).toNat.digitChar

/-- A task that `ScheduledTask::new` or the tool that creates tasks has made. -/
def Made (task : ScheduledTask) : Prop :=
  ∃ calendar uuid now intervalSecs prompt recurring durable fireImmediately made,
    Uuid.IsV7 uuid ∧
    ScheduledTask.withFireImmediately calendar (Uuid.shortened uuid) now intervalSecs prompt
      recurring durable fireImmediately = some made ∧
    task = { made with foreground := task.foreground }

/-! ## The history -/

inductive Note
  /-- The task fires, these being the tasks before. -/
  | began (tasks : List ScheduledTask) (task : ScheduledTask)
  /-- The coordinator has answered that the subagent is completed. -/
  | completed (subagentId : Text)
  /-- An update has changed the prompt of the task. -/
  | reprompted (taskId : Text)
  /-- The coordinator has been sent the spawn. -/
  | sent (request : SubagentRequest)
  deriving DecidableEq

namespace Note

def ofEvent : SubagentEvent → Option Note
  | .spawn request => some (sent request)
  | _ => none

/-- The spawn of an iteration of the task. -/
def sentFor (taskId : Text) : Note → Option SubagentRequest
  | sent request => if request.loopTaskId = some taskId then some request else none
  | _ => none

def starts : Note → Option (List ScheduledTask × ScheduledTask)
  | began tasks task => some (tasks, task)
  | _ => none

end Note

/-- The spawns of the task, the last one first. Histories too begin with their
last note. -/
def spawnsOf (taskId : Text) (notes : List Note) : List SubagentRequest :=
  notes.filterMap (Note.sentFor taskId)

/-- What came after the last spawn of the task. -/
def since (taskId : Text) (notes : List Note) : List Note :=
  notes.takeWhile fun note => (note.sentFor taskId).isNone

def lastBegan (notes : List Note) : Option (List ScheduledTask × ScheduledTask) :=
  notes.findSome? Note.starts

/-- How many iterations the first one continues, itself included. -/
def chainLength : List SubagentRequest → Nat
  | [] => 0
  | request :: earlier => if request.resumeFrom.isSome then chainLength earlier + 1 else 1

/-- The spawn resumes the last one of its task, which was reported completed
under the same prompt, and its chain is not too long. -/
def ResumesLast (notes : List Note) (request : SubagentRequest) (id : Text) : Prop :=
  ∃ taskId, request.loopTaskId = some taskId ∧
    (spawnsOf taskId notes).head?.map (·.id) = some id ∧
    .completed id ∈ since taskId notes ∧ .reprompted taskId ∉ since taskId notes ∧
    chainLength (request :: spawnsOf taskId notes) ≤ loopFreshChainEvery.toNat

/-- The tasks with the id have the marks that they had before the last fire. -/
def Restored (notes : List Note) (taskId : Text) (tasks : List ScheduledTask) : Prop :=
  ∃ before task, lastBegan notes = some (before, task) ∧ marksOf taskId tasks = marksOf taskId before

/-- The task of the last fire is, as to its mark, the first one with the id. -/
def FirstFired (notes : List Note) (taskId : Text) : Prop :=
  ∃ before task, lastBegan notes = some (before, task) ∧
    (before.find? (·.id = taskId)).map (·.mark) = some task.mark

namespace SchedulerActor

/-- The task that a tick of the timer fires. -/
def dueTask (a : SchedulerActor) (now : DateTime) : Option ScheduledTask := do
  let idx ← a.tasks.findIdx? (a.isDue now)
  a.tasks[idx]?

/-- What a step adds to the history before what it sends. -/
def heard (a : SchedulerActor) (env : Env) (input : Input) (a' : SchedulerActor) : List Note :=
  match input with
  | .timer =>
    if a.stage = .idle && a.pendingRemoval.isNone then
      ((a.dueTask env.now).map (.began a.tasks)).toList
    else []
  | .queried ticket (some (some (.completed _))) =>
    match a.stage with
    | .querying fire ticket' =>
      if ticket' = ticket then (fire.lastSubagentId.map .completed).toList else []
    | _ => []
  | .update id _ _ _ =>
    if (a.tasks.find? (·.id = id)).map (·.prompt) = (a'.tasks.find? (·.id = id)).map (·.prompt)
    then [] else [.reprompted id]
  | _ => []

/-- The states of a run and its history. -/
inductive History (start : SchedulerActor) : SchedulerActor → List Note → Prop
  | nil : History start start []
  | step {a a' : SchedulerActor} {notes : List Note} {env : Env} {input : Input} {output : Output}
      (history : History start a notes) (made : ∀ task, input = .create task → Made task)
      (step : a.step env input = some (a', output)) :
      History start a' (output.events.filterMap Note.ofEvent ++ (a.heard env input a' ++ notes))

/-- The task for which the step comes to send a spawn. -/
def sending (a : SchedulerActor) (env : Env) (input : Input) : Option Text :=
  match a.stage, input with
  | .idle, .timer => do
    let task ← if a.pendingRemoval.isNone then a.dueTask env.now else none
    if task.recurring && !task.isExpired env.now && !task.foreground && env.backgroundLoops &&
        env.session.isSome && task.lastSubagentId.isNone then some task.id
    else none
  | .asking fire _ ticket, .unitAnswered ticket' (some false) =>
    if ticket = ticket' then some fire.taskId else none
  | _, _ => none

/-- What a step is to do: a spawn that resumes resumes the last one, and a spawn
whose send failed leaves the marks as they were before the fire. -/
structure KeepsChains (notes : List Note) (a : SchedulerActor) (env : Env) (input : Input)
    (a' : SchedulerActor) (output : Output) : Prop where
  resumes : ∀ request id, .spawn request ∈ output.events → request.resumeFrom = some id →
    ResumesLast (a.heard env input a' ++ notes) request id
  restores : ∀ taskId, a.sending env input = some taskId → env.channelOpen = false →
    Restored (a.heard env input a' ++ notes) taskId a'.tasks

end SchedulerActor

/-! ## Marks -/

/-- A later task with the same id has no anchor. -/
def Mark.Heads (mark later : Mark) : Prop :=
  mark.taskId = later.taskId → later.lastSubagentId = none

theorem modifyFirst_append {α : Type} {p : α → Bool} {f : α → α} {before after : List α} {x : α}
    (hbefore : ∀ y ∈ before, p y = false) (hx : p x = true) :
    modifyFirst p f (before ++ x :: after) = before ++ f x :: after := by
  induction before with
  | nil => simp [modifyFirst, hx]
  | cons y before ih =>
    obtain ⟨hy, hbefore⟩ := forall_mem_cons.mp hbefore
    simp [modifyFirst, hy, ih hbefore]

/-- What is changed is the first that the predicate holds of. -/
theorem modifyFirst_cases {α : Type} (p : α → Bool) (f : α → α) (xs : List α) :
    (xs.find? p = none ∧ modifyFirst p f xs = xs) ∨ ∃ before x after, xs = before ++ x :: after ∧
      (∀ y ∈ before, p y = false) ∧ p x = true ∧ modifyFirst p f xs = before ++ f x :: after := by
  induction xs with
  | nil => exact .inl ⟨rfl, rfl⟩
  | cons y xs ih =>
    by_cases hy : p y = true
    · exact .inr ⟨[], y, xs, rfl, by simp, hy, by simp [modifyFirst, hy]⟩
    · rcases ih with ⟨hnone, hsame⟩ | ⟨before, x, after, rfl, hbefore, hx, hsame⟩
      · exact .inl ⟨by simp [hy, hnone], by simp [modifyFirst, hy, hsame]⟩
      · refine .inr ⟨y :: before, x, after, rfl, ?_, hx, by simp [modifyFirst, hy, hsame]⟩
        simpa [hy] using hbefore

theorem map_set_same {α β : Type} {f : α → β} {xs : List α} {idx : Nat} {x new : α}
    (hx : xs[idx]? = some x) (h : f new = f x) : (xs.set idx new).map f = xs.map f := by
  obtain ⟨hlt, rfl⟩ := List.getElem?_eq_some_iff.mp hx
  rw [map_set, h, ← map_set, set_getElem_self]

theorem insertIdx_replace {α : Type} (before after : List α) (idx : Nat) (x : α) :
    ∃ before' after', ∀ y,
      (before ++ y :: after).insertIdx idx x = before' ++ y :: after' := by
  induction before generalizing idx with
  | nil =>
    cases idx with
    | zero => exact ⟨[x], after, fun y => rfl⟩
    | succ idx => exact ⟨[], after.insertIdx idx x, fun y => rfl⟩
  | cons z before ih =>
    cases idx with
    | zero => exact ⟨x :: z :: before, after, fun y => rfl⟩
    | succ idx =>
      obtain ⟨before', after', h⟩ := ih idx
      exact ⟨z :: before', after', fun y => congrArg (z :: ·) (h y)⟩
variable {before after : List Mark}

theorem pairwise_heads_replace {mark new : Mark}
    (h : (before ++ mark :: after).Pairwise Mark.Heads) (hid : new.taskId = mark.taskId)
    (hnew : new.lastSubagentId = none ∨ ∀ m ∈ before, m.taskId ≠ mark.taskId) :
    (before ++ new :: after).Pairwise Mark.Heads := by
  obtain ⟨hbefore, hcons, hcross⟩ := pairwise_append.mp h
  obtain ⟨hmark, hafter⟩ := pairwise_cons.mp hcons
  refine pairwise_append.mpr ⟨hbefore, pairwise_cons.mpr ⟨?_, hafter⟩, ?_⟩
  · intro m hm heq
    exact hmark m hm (hid ▸ heq)
  · intro m hm m' hm'
    rcases mem_cons.mp hm' with rfl | hm'
    · intro heq
      rcases hnew with hnone | hnot
      · exact hnone
      · exact absurd (heq.trans hid) (hnot m hm)
    · exact hcross m hm m' (mem_cons_of_mem _ hm')

/-- Behind the first mark of its task there is no anchor. -/
theorem unanchored_of_heads {mark m : Mark}
    (h : (before ++ mark :: after).Pairwise Mark.Heads)
    (hbefore : ∀ m ∈ before, m.taskId ≠ mark.taskId) (hm : m ∈ before ∨ m ∈ after)
    (hid : m.taskId = mark.taskId) : m.lastSubagentId = none := by
  obtain ⟨-, hcons, -⟩ := pairwise_append.mp h
  rcases hm with hm | hm
  · exact absurd hid (hbefore m hm)
  · exact (pairwise_cons.mp hcons).1 m hm hid.symm
variable {taskId : Text}

theorem filter_first {mark : Mark}
    (hbefore : ∀ m ∈ before, m.taskId ≠ taskId) (hid : mark.taskId = taskId) :
    (before ++ mark :: after).filter (·.taskId = taskId) =
      mark :: after.filter (·.taskId = taskId) := by
  have hnone : before.filter (·.taskId = taskId) = [] := by
    simpa [filter_eq_nil_iff] using hbefore
  rw [filter_append, hnone, nil_append, filter_cons_of_pos (by simp [hid])]

theorem find?_mark (taskId : Text) (tasks : List ScheduledTask) :
    (tasks.find? (·.id = taskId)).map (·.mark) = (marksOf taskId tasks).head? := by
  unfold marksOf
  rw [head?_filter, find?_map, Function.comp_def]
  rfl

theorem Made.mark {task : ScheduledTask} (h : Made task) : task.mark = ⟨task.id, none, 0, false⟩ := by
  obtain ⟨calendar, uuid, now, intervalSecs, prompt, recurring, durable, fireImmediately, made,
    -, hmade, htask⟩ := h
  obtain ⟨createdAt, -, hmade⟩ := bind_eq_some_iff.mp hmade
  obtain ⟨expiresAt, -, hmade⟩ := bind_eq_some_iff.mp hmade
  obtain rfl := some.inj hmade
  rw [htask]
  rfl

/-! ## A mark and the history -/

/-- What a mark says of the history of its task, when it has an anchor. -/
structure Links (notes : List Note) (mark : Mark) (id : Text) : Prop where
  last : (spawnsOf mark.taskId notes).head?.map (·.id) = some id
  prompt : mark.chainResetPending = false → .reprompted mark.taskId ∉ since mark.taskId notes
  length : mark.chainResetPending = false →
    mark.iterationsSinceFresh.toNat = chainLength (spawnsOf mark.taskId notes)

def Linked (notes : List Note) (mark : Mark) : Prop :=
  ∀ id, mark.lastSubagentId = some id → Links notes mark id

theorem Linked.of_none {notes : List Note} {mark : Mark} (h : mark.lastSubagentId = none) :
    Linked notes mark := by
  intro id hid
  rw [h] at hid
  cases hid

theorem spawnsOf_cons {note : Note} (h : note.sentFor taskId = none)
    (notes : List Note) : spawnsOf taskId (note :: notes) = spawnsOf taskId notes := by
  simp [spawnsOf, h]

theorem since_cons {note : Note} (h : note.sentFor taskId = none)
    (notes : List Note) : since taskId (note :: notes) = note :: since taskId notes := by
  simp [since, h]

/-- A note that is no spawn of the task, and no change of its prompt unless the
mark knows of it. -/
theorem Linked.cons {notes : List Note} {mark : Mark} (h : Linked notes mark) {note : Note}
    (hsent : note.sentFor mark.taskId = none)
    (hprompt : mark.chainResetPending = false → note ≠ .reprompted mark.taskId) :
    Linked (note :: notes) mark := by
  intro id hid
  have hlinks := h id hid
  exact {
    last := by rw [spawnsOf_cons hsent, hlinks.last]
    prompt := fun hpending => by
      rw [since_cons hsent, mem_cons, not_or]
      exact ⟨Ne.symm (hprompt hpending), hlinks.prompt hpending⟩
    length := fun hpending => by rw [spawnsOf_cons hsent, hlinks.length hpending] }

theorem Linked.began {notes : List Note} {mark : Mark} (h : Linked notes mark)
    (tasks : List ScheduledTask) (task : ScheduledTask) : Linked (.began tasks task :: notes) mark :=
  h.cons rfl fun _ heq => by cases heq

theorem Linked.reprompted {notes : List Note} {mark : Mark} (h : Linked notes mark) :
    Linked (.reprompted mark.taskId :: notes) ⟨mark.taskId, mark.lastSubagentId, 0, true⟩ := by
  intro id hid
  exact {
    last := by
      rw [spawnsOf_cons rfl]
      exact (h id hid).last
    prompt := nofun
    length := nofun }

/-- Notes that change what no mark says. -/
def Note.IsQuiet : Note → Prop
  | .began .. | .completed _ => True
  | _ => False

theorem Linked.quiet {new notes : List Note} {mark : Mark} (h : Linked notes mark)
    (hquiet : ∀ note ∈ new, note.IsQuiet) : Linked (new ++ notes) mark := by
  induction new with
  | nil => exact h
  | cons note new ih =>
    obtain ⟨hnote, hnew⟩ := forall_mem_cons.mp hquiet
    have hlinked := ih hnew
    cases note with
    | began tasks task => exact hlinked.began tasks task
    | completed id => exact hlinked.cons rfl nofun
    | reprompted id => cases hnote
    | sent request => cases hnote

theorem lastBegan_quiet {new notes : List Note} (h : ∀ note ∈ new, note.starts = none) :
    lastBegan (new ++ notes) = lastBegan notes := by
  unfold lastBegan
  rw [findSome?_append, findSome?_eq_none_iff.mpr h, none_or]

theorem Linked.sent {notes : List Note} {request : SubagentRequest}
    {iterations : UInt32} (htask : request.loopTaskId = some taskId)
    (hlength : iterations.toNat = chainLength (request :: spawnsOf taskId notes)) :
    Linked (.sent request :: notes) ⟨taskId, some request.id, iterations, false⟩ := by
  have hsent : (Note.sent request).sentFor taskId = some request := by simp [Note.sentFor, htask]
  have hspawns : spawnsOf taskId (.sent request :: notes) = request :: spawnsOf taskId notes := by
    simp [spawnsOf, hsent]
  have hsince : since taskId (.sent request :: notes) = [] := by simp [since, hsent]
  intro id hid
  exact {
    last := by rw [hspawns]; exact hid
    prompt := fun _ => by rw [hsince]; exact not_mem_nil
    length := fun _ => by rw [hspawns]; exact hlength }

namespace SchedulerActor

/-! ## The invariant -/

/-- The tasks, with the one that an expiry has taken out at its place. -/
def lineup (a : SchedulerActor) : List ScheduledTask :=
  match a.stage with
  | .expirySave idx task _ => a.tasks.insertIdx idx task
  | _ => a.tasks

def marks (a : SchedulerActor) : List Mark := a.lineup.map (·.mark)

/-- A fire that has yet to send: its task began it, and of the tasks with its id
only the first one may have changed since. -/
structure Ready (notes : List Note) (tasks : List ScheduledTask) (fire : Fire) : Prop where
  linked : Linked notes fire.mark
  began : ∃ before task first first' rest, lastBegan notes = some (before, task) ∧
    task.mark = fire.mark ∧ marksOf fire.taskId before = first :: rest ∧
    marksOf fire.taskId tasks = first' :: rest

/-- A snapshot of the anchor that says completed is in the history. -/
def Heard (notes : List Note) (fire : Fire) (prevSnapshot : Option SubagentSnapshotStatus) : Prop :=
  ∀ output id, prevSnapshot = some (.completed output) → fire.lastSubagentId = some id →
    .completed id ∈ since fire.taskId notes

structure Chained (a : SchedulerActor) (notes : List Note) : Prop where
  linked : ∀ mark ∈ a.marks, Linked notes mark
  heads : a.marks.Pairwise Mark.Heads
  querying : ∀ fire ticket, a.stage = .querying fire ticket → Ready notes a.tasks fire
  asking : ∀ fire prevSnapshot ticket, a.stage = .asking fire prevSnapshot ticket →
    Ready notes a.tasks fire ∧ Heard notes fire prevSnapshot

/-- The stages that wait for the coordinator. -/
def Stage.Waits : Stage → Prop
  | .querying .. | .asking .. => True
  | _ => False

variable {a a' : SchedulerActor} {notes told : List Note} {env : Env} {output : Output}

theorem Chained.of_not_waits (hlinked : ∀ mark ∈ a.marks, Linked notes mark)
    (hheads : a.marks.Pairwise Mark.Heads) (hstage : ¬ Stage.Waits a.stage) : Chained a notes where
  linked := hlinked
  heads := hheads
  querying := fun _ _ heq => absurd (heq ▸ trivial) hstage
  asking := fun _ _ _ heq => absurd (heq ▸ trivial) hstage

theorem Chained.rest (h : Chained a notes) (hmarks : a'.marks.Sublist a.marks)
    (hstage : ¬ Stage.Waits a'.stage) {new : List Note} (hquiet : ∀ note ∈ new, note.IsQuiet) :
    Chained a' (new ++ notes) :=
  .of_not_waits (fun mark hmark => (h.linked mark (hmarks.subset hmark)).quiet hquiet)
    (h.heads.sublist hmarks) hstage

/-! ## A launch -/

/-- A spawn for the task is sent. -/
def Sends (output : Output) (taskId : Text) : Prop :=
  ∃ request, .spawn request ∈ output.events ∧ request.loopTaskId = some taskId

theorem exists_first {tasks : List ScheduledTask} {first : Mark} {rest : List Mark}
    (h : marksOf taskId tasks = first :: rest) :
    ∃ before task after, tasks = before ++ task :: after ∧ (∀ t ∈ before, t.id ≠ taskId) ∧
      task.id = taskId := by
  have hfind := find?_mark taskId tasks
  rw [h, head?_cons] at hfind
  obtain ⟨task, htask, -⟩ := map_eq_some_iff.mp hfind
  obtain ⟨hid, before, after, rfl, hbefore⟩ := find?_eq_some_iff_append.mp htask
  exact ⟨before, task, after, rfl, by simpa using hbefore, by simpa using hid⟩
variable {prevSnapshot : Option SubagentSnapshotStatus} {fire : Fire}
/-- Either the transcript is fresh, or it goes on with the anchor's. -/
theorem chain_cases
    {resumeFrom summary : Option Text} {next : UInt32}
    (h : chain fire (prevSnapshot.bind (·.output)) = (resumeFrom, summary, next)) :
    (resumeFrom = none ∧ next = 1) ∨
      ∃ id output, resumeFrom = some id ∧ next = fire.iterationsSinceFresh + 1 ∧
        fire.lastSubagentId = some id ∧ fire.chainResetPending = false ∧
        fire.iterationsSinceFresh < loopFreshChainEvery ∧
        prevSnapshot = some (.completed output) := by
  unfold chain at h
  split at h
  · cases h
    exact .inl ⟨rfl, rfl⟩
  · split at h
    · cases h
      exact .inl ⟨rfl, rfl⟩
    · rename_i hpending husable
      cases h
      simp only [Bool.or_eq_true, not_or, decide_eq_true_eq, Bool.not_eq_true', Bool.not_eq_false,
        Bool.and_eq_true] at husable
      obtain ⟨hdue, houtput, hlast⟩ := husable
      obtain ⟨id, hlast⟩ := isSome_iff_exists.mp hlast
      obtain ⟨text, houtput⟩ := isSome_iff_exists.mp houtput
      obtain ⟨status, hstatus, houtput⟩ := bind_eq_some_iff.mp houtput
      cases status with
      | completed output =>
        exact .inr ⟨id, output, hlast, rfl, hlast, by simpa using hpending,
          UInt32.not_le.mp hdue, hstatus⟩
      | _ => cases houtput

theorem linked_replace {mark new : Mark}
    (hlinked : ∀ m ∈ before ++ mark :: after, Linked told m)
    (hheads : (before ++ mark :: after).Pairwise Mark.Heads)
    (hbefore : ∀ m ∈ before, m.taskId ≠ mark.taskId) (hnew : Linked notes new)
    (hothers : ∀ m, m.taskId ≠ mark.taskId → Linked told m → Linked notes m) :
    ∀ m ∈ before ++ new :: after, Linked notes m := by
  have hkept : ∀ m, m ∈ before ∨ m ∈ after → Linked notes m := by
    intro m hm
    by_cases heq : m.taskId = mark.taskId
    · exact .of_none (unanchored_of_heads hheads hbefore hm heq)
    · refine hothers m heq (hlinked m ?_)
      rcases hm with hm | hm
      · exact mem_append_left _ hm
      · exact mem_append_right _ (mem_cons_of_mem _ hm)
  intro m hm
  rcases mem_append.mp hm with hm | hm
  · exact hkept m (.inl hm)
  · rcases mem_cons.mp hm with rfl | hm
    · exact hnew
    · exact hkept m (.inr hm)

theorem launch_inv
    {before after : List ScheduledTask} {task : ScheduledTask}
    (htasks : a.tasks = before ++ task :: after) (hbefore : ∀ t ∈ before, t.id ≠ fire.taskId)
    (hid : task.id = fire.taskId) (h : a.launch env fire prevSnapshot = some (a', output)) :
    ∃ resumeFrom summary next,
      chain fire (prevSnapshot.bind (·.output)) = (resumeFrom, summary, next) ∧
        a'.stage = .idle ∧
        ((env.channelOpen = true ∧
            a'.tasks = before ++ anchor (some env.subagentId) next false task :: after ∧
            output.events = [.spawn (iteration fire env.subagentId resumeFrom summary)]) ∨
          (env.channelOpen = false ∧
            a'.tasks.map (·.mark) = (before.map (·.mark)) ++ fire.mark :: after.map (·.mark) ∧
            output.events = [])) := by
  have hfirst : ∀ y ∈ before, (decide (y.id = fire.taskId)) = false := by
    simpa using hbefore
  unfold launch at h
  generalize hchain : chain fire (prevSnapshot.bind (·.output)) = plan at h
  obtain ⟨resumeFrom, summary, next⟩ := plan
  simp only at h
  rw [if_pos (by rw [htasks]; simp [hid])] at h
  refine ⟨resumeFrom, summary, next, rfl, ?_⟩
  split at h
  · obtain ⟨htasks', hstage, hevents, -⟩ := fired_tasks h
    refine ⟨hstage, .inl ⟨‹_›, ?_, hevents⟩⟩
    rw [htasks']
    show modifyFirst _ _ a.tasks = _
    rw [htasks, modifyFirst_append hfirst (by simp [hid])]
  · obtain ⟨htasks', hstage, hevents, -⟩ := fired_tasks h
    refine ⟨hstage, .inr ⟨by simpa using ‹¬ env.channelOpen = true›, ?_, hevents⟩⟩
    rw [htasks']
    show (modifyFirst _ _ (modifyFirst _ _ a.tasks)).map (·.mark) = _
    rw [htasks, modifyFirst_append hfirst (by simp [hid]),
      modifyFirst_append hfirst (by simp [anchor, hid]), map_append, map_cons]
    simp [anchor, ScheduledTask.mark, Fire.mark, hid]

theorem toNat_succ_of_lt {n : UInt32} (h : n < loopFreshChainEvery) :
    (n + 1).toNat = n.toNat + 1 := by
  have hlt : n.toNat < 10 := UInt32.lt_iff_toNat_lt.mp h
  rw [UInt32.toNat_add]
  exact Nat.mod_eq_of_lt (by simp; omega)

theorem next_eq_chainLength
    {resumeFrom summary : Option Text} {next : UInt32} (hlinked : Linked told fire.mark)
    (h : chain fire (prevSnapshot.bind (·.output)) = (resumeFrom, summary, next))
    (subagentId : Text) :
    next.toNat =
      chainLength (iteration fire subagentId resumeFrom summary :: spawnsOf fire.taskId told) := by
  rcases chain_cases h with ⟨rfl, rfl⟩ | ⟨id, text, rfl, rfl, hlast, hpending, hdue, -⟩
  · rfl
  · have hn : fire.iterationsSinceFresh.toNat = chainLength (spawnsOf fire.taskId told) :=
      (hlinked id hlast).length hpending
    show _ = chainLength (spawnsOf fire.taskId told) + 1
    rw [toNat_succ_of_lt hdue, hn]

theorem launch_chains
    (hlinked : ∀ mark ∈ a.tasks.map (·.mark), Linked told mark)
    (hheads : (a.tasks.map (·.mark)).Pairwise Mark.Heads) (hready : Ready told a.tasks fire)
    (hheard : Heard told fire prevSnapshot)
    (h : a.launch env fire prevSnapshot = some (a', output)) :
    Chained a' (output.events.filterMap Note.ofEvent ++ told) ∧
      (∀ request id, .spawn request ∈ output.events → request.resumeFrom = some id →
        ResumesLast told request id) ∧
      (∀ taskId, Sends output taskId ↔ some fire.taskId = some taskId ∧ env.channelOpen = true) ∧
      (env.channelOpen = false →
        (Restored told fire.taskId a'.tasks ↔ FirstFired told fire.taskId)) := by
  obtain ⟨earlier, began, first, first', rest, hbegan, hmark, hearlier, hnow⟩ := hready.began
  obtain ⟨before, task, after, htasks, hbefore, hid⟩ := exists_first hnow
  have hbefore' : ∀ m ∈ before.map (·.mark), m.taskId ≠ task.mark.taskId := by
    intro m hm
    obtain ⟨t, ht, rfl⟩ := List.mem_map.mp hm
    show t.id ≠ task.id
    rw [hid]
    exact hbefore t ht
  rw [htasks, map_append, map_cons] at hlinked hheads
  obtain ⟨resumeFrom, summary, next, hchain, hstage, hcase⟩ := launch_inv htasks hbefore hid h
  have hlineup : a'.marks = a'.tasks.map (·.mark) := by simp [marks, lineup, hstage]
  have hidle : ¬ Stage.Waits a'.stage := by simp [hstage, Stage.Waits]
  rcases hcase with ⟨hopen, htasks', hevents⟩ | ⟨hclosed, htasks', hevents⟩
  · have hlength := next_eq_chainLength hready.linked hchain env.subagentId
    have hnew : (anchor (some env.subagentId) next false task).mark =
        ⟨fire.taskId, some env.subagentId, next, false⟩ := by
      simp [anchor, ScheduledTask.mark, hid]
    refine ⟨.of_not_waits ?_ ?_ hidle, ?_, ?_, fun hclosed => ?_⟩
    · rw [hlineup, htasks', map_append, map_cons, hevents]
      refine linked_replace hlinked hheads hbefore' ?_ ?_
      · rw [hnew]
        exact .sent rfl hlength
      · intro m hm hlink
        have hother : (Note.sent (iteration fire env.subagentId resumeFrom summary)).sentFor
            m.taskId = none := if_neg fun heq => hm ((some.inj heq).symm.trans hid.symm)
        exact hlink.cons hother fun _ heq => by cases heq
    · rw [hlineup, htasks', map_append, map_cons]
      exact pairwise_heads_replace hheads rfl (.inr hbefore')
    · intro request id hrequest hresume
      rw [hevents, mem_singleton, SubagentEvent.spawn.injEq] at hrequest
      subst hrequest
      have hresume : resumeFrom = some id := hresume
      rcases chain_cases hchain with ⟨rfl, -⟩ | ⟨id', text, rfl, rfl, hlast, hpending, hdue, hprev⟩
      · cases hresume
      · obtain rfl := some.inj hresume
        have hlinks := hready.linked id' hlast
        refine ⟨fire.taskId, rfl, hlinks.last, hheard text id' hprev hlast,
          hlinks.prompt hpending, ?_⟩
        rw [← hlength, toNat_succ_of_lt hdue]
        exact UInt32.lt_iff_toNat_lt.mp hdue
    · intro taskId
      simp [Sends, hevents, hopen, iteration]
    · rw [hopen] at hclosed
      cases hclosed
  · refine ⟨.of_not_waits ?_ ?_ hidle, by simp [hevents], by simp [Sends, hevents, hclosed],
      fun _ => ?_⟩
    · rw [hlineup, htasks', hevents]
      exact linked_replace hlinked hheads hbefore' hready.linked fun m _ hm => hm
    · rw [hlineup, htasks']
      exact pairwise_heads_replace hheads hid.symm (.inr hbefore')
    · have hrest : (after.map (·.mark)).filter (·.taskId = fire.taskId) = rest := by
        rw [marksOf, htasks, map_append, map_cons,
          filter_first (fun m hm heq => hbefore' m hm (heq.trans hid.symm)) hid] at hnow
        exact (List.cons.inj hnow).2
      have hafter : marksOf fire.taskId a'.tasks = fire.mark :: rest := by
        rw [marksOf, htasks', filter_first (fun m hm heq => hbefore' m hm (heq.trans hid.symm)) rfl,
          hrest]
      constructor
      · rintro ⟨earlier', began', hbegan', hsame⟩
        obtain ⟨rfl, rfl⟩ := Prod.mk.inj (some.inj (hbegan.symm.trans hbegan'))
        refine ⟨earlier, began, hbegan, ?_⟩
        rw [find?_mark, ← hsame, hafter, hmark, head?_cons]
      · rintro ⟨earlier', began', hbegan', hsame⟩
        obtain ⟨rfl, rfl⟩ := Prod.mk.inj (some.inj (hbegan.symm.trans hbegan'))
        refine ⟨earlier, began, hbegan, ?_⟩
        rw [find?_mark, hearlier, head?_cons, hmark, some.injEq] at hsame
        rw [hafter, hearlier, hsame]

end SchedulerActor

end GrokBuild.Scheduler
