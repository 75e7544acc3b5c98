import GrokBuild.Scheduler.Chains

/-!
# The scheduler: chains over runs

Every step keeps the invariant of the chains. What it resumes is the last spawn
of its task; what a failed send leaves is what was there before the fire, if
the task of the fire is the first with its id.
-/

namespace GrokBuild.Scheduler

open TextLines List Option

namespace SchedulerActor

variable {a a' : SchedulerActor} {notes told : List Note} {env : Env} {output : Output}

/-! ## The steps -/

/-- What a step does: the invariant, what it resumes, when it sends, and what it
leaves when a send fails. -/
structure Turn (notes : List Note) (a : SchedulerActor) (env : Env) (input : Input)
    (a' : SchedulerActor) (output : Output) : Prop where
  chained : Chained a' (output.events.filterMap Note.ofEvent ++ (a.heard env input a' ++ notes))
  resumes : ∀ request id, .spawn request ∈ output.events → request.resumeFrom = some id →
    ResumesLast (a.heard env input a' ++ notes) request id
  sends : ∀ taskId, Sends output taskId ↔
    a.sending env input = some taskId ∧ env.channelOpen = true
  restores : ∀ taskId, a.sending env input = some taskId → env.channelOpen = false →
    (Restored (a.heard env input a' ++ notes) taskId a'.tasks ↔
      FirstFired (a.heard env input a' ++ notes) taskId)

variable {input : Input}

theorem quiet_nil (h : a.heard env input a' = []) : ∀ note ∈ a.heard env input a', note.IsQuiet := by
  simp [h]

theorem Turn.rest (h : Chained a notes) (hmarks : a'.marks.Sublist a.marks)
    (hstage : ¬ Stage.Waits a'.stage) (hquiet : ∀ note ∈ a.heard env input a', note.IsQuiet)
    (hevents : output.events = []) (hsending : a.sending env input = none) :
    Turn notes a env input a' output where
  chained := by
    rw [hevents]
    exact h.rest hmarks hstage hquiet
  resumes := by simp [hevents]
  sends := by simp [Sends, hevents, hsending]
  restores := by simp [hsending]

theorem Turn.same (h : Chained a notes) (hheard : a.heard env input a = [])
    (hevents : output.events = []) (hsending : a.sending env input = none) :
    Turn notes a env input a output where
  chained := by
    rw [hevents, hheard]
    exact h
  resumes := by simp [hevents]
  sends := by simp [Sends, hevents, hsending]
  restores := by simp [hsending]

theorem marks_of_tasks (h : ∀ idx task reserved, a.stage ≠ .expirySave idx task reserved) :
    a.marks = a.tasks.map (·.mark) := by
  unfold marks lineup
  split
  · exact absurd ‹_› (h _ _ _)
  · rfl

theorem marks_idle (h : a.stage = .idle) : a.marks = a.tasks.map (·.mark) :=
  marks_of_tasks (by simp [h])

theorem Turn.shrink (h : Chained a notes) (hstage : a.stage = .idle) (hidle : a'.stage = .idle)
    (htasks : a'.tasks.Sublist a.tasks) (hquiet : ∀ note ∈ a.heard env input a', note.IsQuiet)
    (hevents : output.events = []) (hsending : a.sending env input = none) :
    Turn notes a env input a' output := by
  refine .rest h ?_ (by simp [hidle, Stage.Waits]) hquiet hevents hsending
  rw [marks_idle hstage, marks_idle hidle]
  exact htasks.map _

variable {task : ScheduledTask} {fire : Fire} {tasks : List ScheduledTask}

theorem ready_began (h : Chained a notes) (hstage : a.stage = .idle) (htask : task ∈ a.tasks)
    (hfire : task.mark = fire.mark) (htasks : tasks.map (·.mark) = a.tasks.map (·.mark)) :
    Ready (.began a.tasks task :: notes) tasks fire where
  linked := by
    refine (h.linked fire.mark ?_).began a.tasks task
    rw [marks_idle hstage, ← hfire]
    exact List.mem_map_of_mem htask
  began := by
    have hmem : fire.mark ∈ marksOf fire.taskId a.tasks :=
      mem_filter.mpr ⟨hfire ▸ List.mem_map_of_mem htask, by simp [Fire.mark]⟩
    obtain ⟨first, rest, hmarks⟩ := exists_cons_of_ne_nil (List.ne_nil_of_mem hmem)
    refine ⟨a.tasks, task, first, first, rest, rfl, hfire, hmarks, ?_⟩
    rw [← hmarks, marksOf, marksOf, htasks]

theorem skipped_eq (h : some (a.skipped fire) = some (a', output)) :
    a'.tasks = a.tasks ∧ a'.stage = .idle ∧ output.events = [] := by
  unfold skipped at h
  split at h
  · obtain ⟨rfl, rfl⟩ := Prod.mk.inj (some.inj h)
    exact ⟨rfl, rfl, rfl⟩
  · obtain ⟨rfl, rfl⟩ := Prod.mk.inj (some.inj h)
    exact ⟨rfl, rfl, rfl⟩

/-! ### The timer -/

theorem heard_timer (hstage : a.stage = .idle) (hpending : a.pendingRemoval.isNone = true)
    (hdue : a.dueTask env.now = some task) : a.heard env .timer a' = [.began a.tasks task] := by
  simp [heard, hstage, hpending, hdue]

/-- The fire of a due task in the background, `fired` being the actor that has
advanced it. -/
theorem fireAsLoopSubagent_turn (h : Chained a notes) (hstage : a.stage = .idle)
    (hpending : a.pendingRemoval.isNone = true) (hdue : a.dueTask env.now = some task)
    (hmem : task ∈ a.tasks) {fired : SchedulerActor}
    (hfired : fired.tasks.map (·.mark) = a.tasks.map (·.mark)) (hfire : task.mark = fire.mark)
    (hsending : a.sending env .timer = if task.lastSubagentId.isNone then some task.id else none)
    (hstep : fired.fireAsLoopSubagent env fire = some (a', output)) :
    Turn notes a env .timer a' output := by
  have hheard : a.heard env .timer a' = [.began a.tasks task] := heard_timer hstage hpending hdue
  have hquiet : ∀ note ∈ a.heard env .timer a', note.IsQuiet := by
    rw [hheard]
    exact forall_mem_singleton.mpr trivial
  have hready := ready_began h hstage hmem hfire hfired
  have hid : task.id = fire.taskId := congrArg Mark.taskId hfire
  have hlast : task.lastSubagentId = fire.lastSubagentId := congrArg Mark.lastSubagentId hfire
  have hmarks : a.marks = fired.tasks.map (·.mark) := by rw [marks_idle hstage, hfired]
  have hheads : (fired.tasks.map (·.mark)).Pairwise Mark.Heads := hmarks ▸ h.heads
  unfold fireAsLoopSubagent at hstep
  rw [hlast, hid] at hsending
  cases hanchor : fire.lastSubagentId with
  | none =>
    rw [hanchor] at hstep hsending
    have hlinked : ∀ mark ∈ fired.tasks.map (·.mark), Linked (.began a.tasks task :: notes) mark := by
      intro mark hmark
      exact (h.linked mark (hmarks ▸ hmark)).began a.tasks task
    have hunheard : Heard (.began a.tasks task :: notes) fire none := by
      intro text id hprev
      cases hprev
    obtain ⟨hchained, hresumes, hsends, hrestores⟩ :=
      launch_chains hlinked hheads hready hunheard hstep
    refine ⟨?_, ?_, ?_, ?_⟩
    · rw [hheard]
      exact hchained
    · rw [hheard]
      exact hresumes
    · rw [hsending]
      exact hsends
    · rw [hheard, hsending]
      intro taskId htask
      obtain rfl := some.inj htask
      exact hrestores
  | some prevId =>
    rw [hanchor] at hstep hsending
    simp only at hstep
    split at hstep
    · obtain ⟨rfl, rfl⟩ := Prod.mk.inj (some.inj hstep)
      refine ⟨?_, by simp, by simp [Sends, hsending], by simp [hsending]⟩
      rw [hheard]
      exact {
        linked := fun mark hmark => (h.linked mark (hmarks ▸ hmark)).began a.tasks task
        heads := hheads
        querying := fun fire' ticket heq => by
          obtain ⟨rfl, -⟩ := Stage.querying.inj heq
          exact hready
        asking := fun _ _ _ heq => by cases heq }
    · obtain ⟨htasks, hidle, hevents⟩ := skipped_eq hstep
      refine .rest h ?_ (by simp [hidle, Stage.Waits]) hquiet hevents (by simpa using hsending)
      rw [marks_idle hidle, htasks, hmarks]

theorem fireRecurring_turn (h : Chained a notes) (hstage : a.stage = .idle)
    (hpending : a.pendingRemoval.isNone = true) {idx : Nat} (htask : a.tasks[idx]? = some task)
    (hdue : a.dueTask env.now = some task) (hrecurring : task.recurring = true)
    (hexpired : task.isExpired env.now = false)
    (hstep : a.fireRecurring env idx task = some (a', output)) : Turn notes a env .timer a' output := by
  unfold fireRecurring at hstep
  obtain ⟨⟨reserved, tl⟩, -, hstep⟩ := bind_eq_some_iff.mp hstep
  have hset : (a.tasks.set idx { task with lastFiredAt := some env.now }).map (·.mark) =
      a.tasks.map (·.mark) := map_set_same htask rfl
  have hsending : a.sending env .timer = if !task.foreground && env.backgroundLoops &&
      env.session.isSome && task.lastSubagentId.isNone then some task.id else none := by
    simp [sending, hstage, hpending, hdue, hrecurring, hexpired]
  simp only at hstep
  split at hstep
  · rename_i hbackground
    rw [hbackground, Bool.true_and] at hsending
    refine fireAsLoopSubagent_turn h hstage hpending hdue (mem_of_getElem? htask) ?_ ?_
      hsending hstep
    · exact hset
    · rfl
  · rename_i hforeground
    obtain ⟨htasks, hidle, hevents, -⟩ := fired_tasks hstep
    refine .rest h ?_ (by simp [hidle, Stage.Waits]) ?_ hevents ?_
    · rw [marks_idle hidle, marks_idle hstage, htasks, hset]
    · rw [heard_timer hstage hpending hdue]
      exact forall_mem_singleton.mpr trivial
    · rw [Bool.not_eq_true] at hforeground
      rw [hsending, hforeground, Bool.false_and, if_neg Bool.false_ne_true]

theorem fireNextTask_turn (h : Chained a notes) (hstage : a.stage = .idle)
    (hpending : a.pendingRemoval.isNone = true)
    (hstep : a.fireNextTask env = some (a', output)) : Turn notes a env .timer a' output := by
  have hidle : ¬ Stage.Waits a.stage := by simp [hstage, Stage.Waits]
  unfold fireNextTask at hstep
  split at hstep
  · rename_i hnone
    obtain ⟨rfl, rfl⟩ := Prod.mk.inj (some.inj hstep)
    have hdue : a.dueTask env.now = none := by simp [dueTask, hnone]
    exact .same h (by simp [heard, hdue]) rfl (by simp [sending, hstage, hdue])
  · rename_i idx hidx
    obtain ⟨task, htask, hstep⟩ := bind_eq_some_iff.mp hstep
    have hdue : a.dueTask env.now = some task := by simp [dueTask, hidx, htask]
    have hquiet : ∀ note ∈ a.heard env .timer a', note.IsQuiet := by
      rw [heard_timer hstage hpending hdue]
      exact forall_mem_singleton.mpr trivial
    have hmarks := marks_idle hstage
    by_cases hexpires : (task.recurring && task.isExpired env.now) = true
    · have hsending : a.sending env .timer = none := by
        rw [Bool.and_eq_true] at hexpires
        simp [sending, hstage, hdue, hexpires]
      rw [if_pos hexpires] at hstep
      split at hstep
      · unfold expireDurably at hstep
        split at hstep
        · obtain ⟨⟨reserved, tl⟩, -, hstep⟩ := bind_eq_some_iff.mp hstep
          obtain ⟨rfl, rfl⟩ := Prod.mk.inj (some.inj hstep)
          refine .rest h ?_ id hquiet rfl hsending
          obtain ⟨hlt, rfl⟩ := List.getElem?_eq_some_iff.mp htask
          show (((a.tasks.eraseIdx idx).insertIdx idx a.tasks[idx]).map (·.mark)).Sublist a.marks
          rw [insertIdx_eraseIdx_getElem hlt, hmarks]
        · obtain ⟨rfl, rfl⟩ := Prod.mk.inj (some.inj hstep)
          exact .rest h (List.Sublist.refl _) hidle hquiet rfl hsending
      · unfold expire at hstep
        obtain ⟨⟨reserved, tl⟩, -, hstep⟩ := bind_eq_some_iff.mp hstep
        obtain ⟨⟨rest, tl'⟩, -, hstep⟩ := bind_eq_some_iff.mp hstep
        obtain ⟨rfl, rfl⟩ := Prod.mk.inj (some.inj hstep)
        refine .shrink h hstage ?_ ?_ hquiet rfl hsending
        · exact hstage
        · exact eraseIdx_sublist _ _
    · rw [if_neg hexpires] at hstep
      split at hstep
      · rename_i hrecurring
        exact fireRecurring_turn h hstage hpending htask hdue hrecurring
          (by simpa [hrecurring] using hexpires) hstep
      · rename_i honce
        unfold fireOneShot at hstep
        obtain ⟨⟨reserved, tl⟩, -, hstep⟩ := bind_eq_some_iff.mp hstep
        obtain ⟨⟨rest, tl'⟩, -, hstep⟩ := bind_eq_some_iff.mp hstep
        obtain ⟨⟨rest', tl''⟩, -, hstep⟩ := bind_eq_some_iff.mp hstep
        obtain ⟨rfl, rfl⟩ := Prod.mk.inj (some.inj hstep)
        refine .shrink h hstage ?_ ?_ hquiet rfl (by simp [sending, hstage, hdue, honce])
        · exact hstage
        · exact eraseIdx_sublist _ _

/-! ### The answers of the coordinator -/

theorem heard_queried_quiet (ticket : Nat) (answer : Option (Option SubagentSnapshotStatus)) :
    ∀ note ∈ a.heard env (.queried ticket answer) a', note.IsQuiet ∧ note.starts = none ∧
      ∀ taskId, note.sentFor taskId = none := by
  intro note hnote
  unfold heard at hnote
  split at hnote
  · cases ‹Input.queried _ _ = .timer›
  · split at hnote
    · split at hnote
      · obtain ⟨id, -, rfl⟩ := map_eq_some_iff.mp (mem_toList.mp hnote)
        exact ⟨trivial, rfl, fun _ => rfl⟩
      · cases hnote
    · cases hnote
  · cases ‹Input.queried _ _ = .update _ _ _ _›
  · cases hnote

theorem Ready.quiet (h : Ready notes tasks fire) {new : List Note} (hnew : ∀ note ∈ new, note.IsQuiet)
    (hstarts : ∀ note ∈ new, note.starts = none) : Ready (new ++ notes) tasks fire where
  linked := h.linked.quiet hnew
  began := by
    rw [lastBegan_quiet hstarts]
    exact h.began

theorem queried_turn (h : Chained a notes) {ticket : Nat}
    {answer : Option (Option SubagentSnapshotStatus)} (hstage : a.stage = .querying fire ticket)
    (hstep : a.queried env fire answer = some (a', output)) :
    Turn notes a env (.queried ticket answer) a' output := by
  have hnew : ∀ note ∈ a.heard env (.queried ticket answer) a', note.IsQuiet ∧
      note.starts = none ∧ ∀ taskId, note.sentFor taskId = none := heard_queried_quiet ticket answer
  have hquiet := fun note hnote => (hnew note hnote).1
  have hmarks : a.marks = a.tasks.map (·.mark) := marks_of_tasks (by simp [hstage])
  have hheads : (a.tasks.map (·.mark)).Pairwise Mark.Heads := hmarks ▸ h.heads
  have hsending : a.sending env (.queried ticket answer) = none := by simp [sending, hstage]
  have hskip : some (a.skipped fire) = some (a', output) →
      Turn notes a env (.queried ticket answer) a' output := by
    intro hstep
    obtain ⟨htasks, hidle, hevents⟩ := skipped_eq hstep
    refine .rest h ?_ (by simp [hidle, Stage.Waits]) hquiet hevents hsending
    rw [marks_idle hidle, htasks, hmarks]
  unfold queried at hstep
  split at hstep
  · exact hskip hstep
  · exact hskip hstep
  · exact hskip hstep
  · rename_i prevSnapshot _ _
    split at hstep
    · obtain ⟨rfl, rfl⟩ := Prod.mk.inj (some.inj hstep)
      refine ⟨?_, by simp, by simp [Sends, hsending], by simp [hsending]⟩
      exact {
        linked := fun mark hmark => (h.linked mark (hmarks ▸ hmark)).quiet hquiet
        heads := hheads
        querying := fun _ _ heq => by cases heq
        asking := fun fire' prevSnapshot' ticket' heq => by
          obtain ⟨rfl, rfl, -⟩ := Stage.asking.inj heq
          refine ⟨(h.querying fire ticket hstage).quiet hquiet fun note hnote => (hnew note hnote).2.1,
            ?_⟩
          rintro text id rfl hlast
          simp [heard, hstage, hlast, since, Note.sentFor, Note.ofEvent] }
    · exact hskip hstep

theorem unitAnswered_turn (h : Chained a notes) {prevSnapshot : Option SubagentSnapshotStatus}
    {ticket : Nat} {answer : Option Bool} (hstage : a.stage = .asking fire prevSnapshot ticket)
    (hstep : a.unitAnswered env fire prevSnapshot answer = some (a', output)) :
    Turn notes a env (.unitAnswered ticket answer) a' output := by
  have hmarks : a.marks = a.tasks.map (·.mark) := marks_of_tasks (by simp [hstage])
  obtain ⟨hready, hheard⟩ := h.asking fire prevSnapshot ticket hstage
  have hskip : answer ≠ some false → some (a.skipped fire) = some (a', output) →
      Turn notes a env (.unitAnswered ticket answer) a' output := by
    intro hanswer hstep
    obtain ⟨htasks, hidle, hevents⟩ := skipped_eq hstep
    refine .rest h ?_ (by simp [hidle, Stage.Waits]) (quiet_nil rfl) hevents ?_
    · rw [marks_idle hidle, htasks, hmarks]
    · simp [sending, hstage, hanswer]
  unfold unitAnswered at hstep
  split at hstep
  · obtain ⟨hchained, hresumes, hsends, hrestores⟩ :=
      launch_chains (hmarks ▸ h.linked) (hmarks ▸ h.heads) hready hheard hstep
    have hsending : a.sending env (.unitAnswered ticket (some false)) = some fire.taskId := by
      simp [sending, hstage]
    refine ⟨hchained, hresumes, by rw [hsending]; exact hsends, fun taskId htask => ?_⟩
    obtain rfl := some.inj (hsending.symm.trans htask)
    exact hrestores
  · exact hskip ‹_› hstep

/-! ### Commands -/

theorem create_turn (h : Chained a notes) (hstage : a.stage = .idle) (hmade : Made task)
    (hstep : a.create env task = some (a', output)) : Turn notes a env (.create task) a' output := by
  have hsending : a.sending env (.create task) = none := by simp [sending, hstage]
  unfold create at hstep
  split at hstep
  · obtain ⟨rfl, rfl⟩ := Prod.mk.inj (some.inj hstep)
    exact .same h rfl rfl hsending
  · split at hstep
    · obtain ⟨rfl, rfl⟩ := Prod.mk.inj (some.inj hstep)
      exact .same h rfl rfl hsending
    · obtain ⟨⟨reserved, tl⟩, -, hstep⟩ := bind_eq_some_iff.mp hstep
      obtain ⟨⟨rest, tl'⟩, -, hstep⟩ := bind_eq_some_iff.mp hstep
      obtain ⟨ha', rfl⟩ := Prod.mk.inj (some.inj hstep)
      have hidle : a'.stage = .idle := by rw [← ha']; exact hstage
      have hmarks : a'.marks = a.marks ++ [task.mark] := by
        rw [marks_idle hidle, marks_idle hstage, ← ha', map_append]
        rfl
      have hfresh : task.mark.lastSubagentId = none := by rw [hmade.mark]
      refine ⟨.of_not_waits ?_ ?_ (by simp [hidle, Stage.Waits]), by simp [Output.replied],
        by simp [Sends, Output.replied, hsending], by simp [hsending]⟩
      · intro mark hmark
        rw [hmarks] at hmark
        rcases mem_append.mp hmark with hmark | hmark
        · exact h.linked mark hmark
        · rw [mem_singleton.mp hmark]
          exact .of_none hfresh
      · rw [hmarks]
        refine pairwise_append.mpr ⟨h.heads, pairwise_singleton _ _, ?_⟩
        intro mark _ later hlater _
        rw [mem_singleton.mp hlater]
        exact hfresh

theorem patch_mark (now stamp : DateTime) (prompt : Option Text) (intervalSecs : Option UInt64)
    (task : ScheduledTask) :
    ((patch now stamp prompt intervalSecs task).prompt = task.prompt ∧
      (patch now stamp prompt intervalSecs task).mark = task.mark) ∨
    ((patch now stamp prompt intervalSecs task).prompt ≠ task.prompt ∧
      (patch now stamp prompt intervalSecs task).mark = ⟨task.id, task.lastSubagentId, 0, true⟩) := by
  have hprompt : ((patchPrompt prompt task).prompt = task.prompt ∧
      (patchPrompt prompt task).mark = task.mark) ∨
      ((patchPrompt prompt task).prompt ≠ task.prompt ∧
      (patchPrompt prompt task).mark = ⟨task.id, task.lastSubagentId, 0, true⟩) := by
    cases prompt with
    | none => exact .inl ⟨rfl, rfl⟩
    | some prompt =>
      by_cases hsame : prompt = task.prompt
      · subst hsame
        exact .inl (by simp [patchPrompt, ScheduledTask.mark])
      · exact .inr (by simp [patchPrompt, ScheduledTask.mark, hsame])
  have hinterval : (patch now stamp prompt intervalSecs task).prompt =
        (patchPrompt prompt task).prompt ∧
      (patch now stamp prompt intervalSecs task).mark = (patchPrompt prompt task).mark := by
    unfold patch patchInterval
    split
    · simp only
      split <;> exact ⟨rfl, rfl⟩
    · exact ⟨rfl, rfl⟩
  rw [hinterval.1, hinterval.2]
  exact hprompt

theorem update_turn (h : Chained a notes) (hstage : a.stage = .idle) {id : Text}
    {prompt : Option Text} {intervalSecs : Option UInt64} {stamp : DateTime}
    (hstep : a.update env id prompt intervalSecs stamp = some (a', output)) :
    Turn notes a env (.update id prompt intervalSecs stamp) a' output := by
  have hsending : a.sending env (.update id prompt intervalSecs stamp) = none := by
    simp [sending, hstage]
  unfold update at hstep
  split at hstep
  · obtain ⟨rfl, rfl⟩ := Prod.mk.inj (some.inj hstep)
    exact .same h (if_pos rfl) rfl hsending
  · split at hstep
    · obtain ⟨rfl, rfl⟩ := Prod.mk.inj (some.inj hstep)
      exact .same h (if_pos rfl) rfl hsending
    · rename_i task hfind
      obtain ⟨⟨reserved, tl⟩, -, hstep⟩ := bind_eq_some_iff.mp hstep
      obtain ⟨⟨rest, tl'⟩, -, hstep⟩ := bind_eq_some_iff.mp hstep
      obtain ⟨ha', rfl⟩ := Prod.mk.inj (some.inj hstep)
      have hidle : a'.stage = .idle := by rw [← ha']; exact hstage
      obtain ⟨hid, before, after, htasks, hbefore⟩ := find?_eq_some_iff_append.mp hfind
      obtain rfl : task.id = id := by simpa using hid
      have hfirst : ∀ t ∈ before, decide (t.id = task.id) = false := by simpa using hbefore
      generalize hpatch : patch env.now stamp prompt intervalSecs = f at ha'
      have hfid : (f task).id = task.id := by rw [← hpatch]; exact (patch_keeps ..).1
      have htasks' : a'.tasks = before ++ f task :: after := by
        rw [← ha']
        show modifyFirst _ f a.tasks = _
        rw [htasks, modifyFirst_append hfirst (by simp)]
      have hfind' : a'.tasks.find? (·.id = task.id) = some (f task) := by
        rw [htasks', find?_append, find?_eq_none.mpr (by simpa using hbefore),
          none_or, find?_cons_of_pos (by simp [hfid])]
      have hbefore' : ∀ m ∈ before.map (·.mark), m.taskId ≠ task.mark.taskId := by
        intro m hm
        obtain ⟨t, ht, rfl⟩ := List.mem_map.mp hm
        exact of_decide_eq_false (hfirst t ht)
      have hmarks : a.marks = before.map (·.mark) ++ task.mark :: after.map (·.mark) := by
        rw [marks_idle hstage, htasks, map_append, map_cons]
      have hmarks' : a'.marks = before.map (·.mark) ++ (f task).mark :: after.map (·.mark) := by
        rw [marks_idle hidle, htasks', map_append, map_cons]
      have hlinked := hmarks ▸ h.linked
      have hheads := hmarks ▸ h.heads
      have hheard : a.heard env (.update task.id prompt intervalSecs stamp) a' =
          if task.prompt = (f task).prompt then [] else [.reprompted task.id] := by
        simp [heard, hfind, hfind']
      refine ⟨.of_not_waits ?_ ?_ (by simp [hidle, Stage.Waits]), by simp [Output.replied],
        by simp [Sends, Output.replied, hsending], by simp [hsending]⟩
      · rw [hmarks', hheard]
        have hcase := patch_mark env.now stamp prompt intervalSecs task
        rw [hpatch] at hcase
        rcases hcase with ⟨hsame, hmark⟩ | ⟨hchanged, hmark⟩
        · rw [if_pos hsame.symm, hmark]
          exact hlinked
        · rw [if_neg (Ne.symm hchanged), hmark]
          refine linked_replace hlinked hheads hbefore' ?_ ?_
          · refine (hlinked task.mark ?_).reprompted
            exact mem_append_right _ mem_cons_self
          · intro m hm hlink
            exact hlink.cons rfl fun _ heq => hm (Note.reprompted.inj heq).symm
      · rw [hmarks']
        exact pairwise_heads_replace hheads hfid (.inr hbefore')

theorem completePendingRemoval_turn (h : Chained a notes) (hstage : a.stage = .idle)
    {removed : SchedulerActor} (htasks : removed.tasks.Sublist a.tasks)
    (hidle : removed.stage = .idle) {durableTargets : Bool}
    (hquiet : ∀ note ∈ a.heard env input a', note.IsQuiet) (hsending : a.sending env input = none)
    (hstep : some (removed.completePendingRemoval durableTargets) = some (a', output)) :
    Turn notes a env input a' output := by
  unfold completePendingRemoval at hstep
  split at hstep
  · obtain ⟨rfl, rfl⟩ := Prod.mk.inj (some.inj hstep)
    refine .rest h ?_ id hquiet rfl hsending
    rw [marks_idle hstage]
    exact htasks.map _
  · obtain ⟨rfl, rfl⟩ := Prod.mk.inj (some.inj hstep)
    refine .shrink h hstage ?_ ?_ hquiet rfl hsending
    · exact hidle
    · exact htasks

theorem delete_turn (h : Chained a notes) (hstage : a.stage = .idle) {id : Text}
    (hstep : a.delete env id = some (a', output)) : Turn notes a env (.delete id) a' output := by
  have hsending : a.sending env (.delete id) = none := by simp [sending, hstage]
  unfold delete at hstep
  split at hstep
  · split at hstep
    · exact completePendingRemoval_turn h hstage (List.Sublist.refl _) hstage (quiet_nil rfl) hsending hstep
    · obtain ⟨rfl, rfl⟩ := Prod.mk.inj (some.inj hstep)
      exact .same h rfl rfl hsending
  · split at hstep
    · obtain ⟨rfl, rfl⟩ := Prod.mk.inj (some.inj hstep)
      exact .same h rfl rfl hsending
    · split at hstep
      · obtain ⟨⟨reserved, tl⟩, -, hstep⟩ := bind_eq_some_iff.mp hstep
        refine completePendingRemoval_turn h hstage ?_ ?_ (quiet_nil rfl) hsending hstep
        · exact eraseIdx_sublist _ _
        · exact hstage
      · obtain ⟨rfl, rfl⟩ := Prod.mk.inj (some.inj hstep)
        exact .same h rfl rfl hsending

/-! ### Removals and the end -/

variable {result : Except SchedulerError Unit}

theorem Settles.turn (hs : Settles a a' output) (h : Chained a notes)
    (hwait : ∀ idx task reserved, a.stage ≠ .expirySave idx task reserved)
    (hheard : a.heard env input a' = []) (hsending : a.sending env input = none) :
    Turn notes a env input a' output := by
  have hmarks : a'.marks = a.marks := by
    rw [marks_of_tasks hwait, marks_of_tasks, hs.tasks]
    rcases hs.stage with hstage | hstage | hstage <;> simp [hstage]
  refine .rest h (hmarks ▸ List.Sublist.refl _) ?_ (quiet_nil hheard) hs.events hsending
  rcases hs.stage with hstage | hstage | hstage <;> simp [hstage, Stage.Waits]

theorem expirySaved_turn (h : Chained a notes) {idx : Nat} {reserved : Reserved}
    {outcome : ExpiryPersistenceOutcome} (hstage : a.stage = .expirySave idx task reserved)
    (hstep : a.expirySaved idx task reserved outcome = some (a', output)) :
    Turn notes a env (.expirySaved outcome) a' output := by
  have hlineup : a.marks = (a.tasks.insertIdx idx task).map (·.mark) := by
    simp [marks, lineup, hstage]
  have hdropped : (a.tasks.map (·.mark)).Sublist a.marks := by
    rw [hlineup]
    exact (sublist_insertIdx _ _ _).map _
  have hsending : a.sending env (.expirySaved outcome) = none := by simp [sending, hstage]
  unfold expirySaved at hstep
  split at hstep
  · obtain ⟨tl, -, hstep⟩ := bind_eq_some_iff.mp hstep
    obtain ⟨rfl, rfl⟩ := Prod.mk.inj (some.inj hstep)
    exact .rest h hdropped id (quiet_nil rfl) rfl hsending
  · obtain ⟨rfl, rfl⟩ := Prod.mk.inj (some.inj hstep)
    refine .rest h ?_ id (quiet_nil rfl) rfl hsending
    rw [hlineup]
    exact List.Sublist.refl _
  · obtain ⟨rfl, rfl⟩ := Prod.mk.inj (some.inj hstep)
    exact .rest h hdropped id (quiet_nil rfl) rfl hsending

/-! ### Reports -/

def cleared (task : ScheduledTask) : ScheduledTask :=
  { task with lastSubagentId := none, iterationsSinceFresh := 0 }

/-- A report changes nothing, or clears the anchor of one task. -/
theorem reported_cases (a : SchedulerActor) (subagentId : Text) (failed : Bool) :
    a.reported subagentId failed = a ∨ ∃ before task after, a.tasks = before ++ task :: after ∧
      task.lastSubagentId = some subagentId ∧
      a.reported subagentId failed = { a with tasks := before ++ cleared task :: after } := by
  unfold reported
  split
  · rcases modifyFirst_cases (·.lastSubagentId = some subagentId) cleared a.tasks with
      ⟨-, hsame⟩ | ⟨before, task, after, htasks, -, htask, hcleared⟩
    · refine .inl ?_
      show { a with tasks := modifyFirst _ cleared a.tasks } = a
      rw [hsame]
    · refine .inr ⟨before, task, after, htasks, by simpa using htask, ?_⟩
      show { a with tasks := modifyFirst _ cleared a.tasks } = _
      rw [hcleared]
  · exact .inl rfl

/-- A fire that waits still finds the others of its id as they were: only the
first of them has an anchor to lose. -/
theorem Ready.cleared {before after : List ScheduledTask}
    (h : Ready notes (before ++ task :: after) fire)
    (hheads : ((before ++ task :: after).map (·.mark)).Pairwise Mark.Heads)
    (hanchor : task.lastSubagentId ≠ none) :
    Ready notes (before ++ SchedulerActor.cleared task :: after) fire where
  linked := h.linked
  began := by
    obtain ⟨earlier, began, first, first', rest, hbegan, hmark, hearlier, hnow⟩ := h.began
    rw [map_append, map_cons] at hheads
    rw [marksOf, map_append, map_cons] at hnow
    by_cases hid : task.id = fire.taskId
    · have hbefore : ∀ m ∈ before.map (·.mark), m.taskId ≠ fire.taskId := by
        intro m hm heq
        exact hanchor ((pairwise_append.mp hheads).2.2 m hm task.mark mem_cons_self
          (heq.trans hid.symm))
      rw [filter_first hbefore hid] at hnow
      refine ⟨earlier, began, first, (SchedulerActor.cleared task).mark, rest, hbegan, hmark,
        hearlier, ?_⟩
      rw [marksOf, map_append, map_cons, filter_first hbefore hid,
        (List.cons.inj hnow).2]
    · refine ⟨earlier, began, first, first', rest, hbegan, hmark, hearlier, ?_⟩
      rw [filter_append, filter_cons_of_neg (by simp [ScheduledTask.mark, hid])]
        at hnow
      rw [marksOf, map_append, map_cons, filter_append,
        filter_cons_of_neg (by simp [ScheduledTask.mark, SchedulerActor.cleared, hid])]
      exact hnow

theorem reported_turn (h : Chained a notes) (subagentId : Text) (failed : Bool) :
    Turn notes a env (.reported subagentId failed) (a.reported subagentId failed) .none := by
  have hsending : a.sending env (.reported subagentId failed) = none := by
    unfold sending
    split <;> first | rfl | cases ‹Input.reported _ _ = _›
  rcases reported_cases a subagentId failed with hsame | ⟨before, task, after, htasks, hlast, ha'⟩
  · rw [hsame]
    exact .same h rfl rfl hsending
  · have hlineup : ∃ before' after', a.lineup = before' ++ task :: after' ∧
        (a.reported subagentId failed).lineup = before' ++ cleared task :: after' := by
      rw [ha']
      cases hstage : a.stage with
      | expirySave idx expired reserved =>
        obtain ⟨before', after', hinsert⟩ := insertIdx_replace before after idx expired
        refine ⟨before', after', ?_, ?_⟩
        · simpa only [lineup, hstage, htasks] using hinsert task
        · simpa only [lineup, hstage] using hinsert (cleared task)
      | _ => exact ⟨before, after, by simp only [lineup, hstage, htasks], by simp only [lineup]⟩
    obtain ⟨before', after', hold, hnew⟩ := hlineup
    have hmarks : a.marks = before'.map (·.mark) ++ task.mark :: after'.map (·.mark) := by
      rw [marks, hold, map_append, map_cons]
    have hmarks' : (a.reported subagentId failed).marks =
        before'.map (·.mark) ++ (cleared task).mark :: after'.map (·.mark) := by
      rw [marks, hnew, map_append, map_cons]
    have hanchor : task.lastSubagentId ≠ none := by simp [hlast]
    have hwaiting : (∀ idx task reserved, a.stage ≠ .expirySave idx task reserved) →
        ((before ++ task :: after).map (·.mark)).Pairwise Mark.Heads := by
      intro hstage
      rw [← htasks, ← marks_of_tasks hstage]
      exact h.heads
    have hstage : (a.reported subagentId failed).stage = a.stage := by rw [ha']
    have htasks' : (a.reported subagentId failed).tasks = before ++ cleared task :: after := by
      rw [ha']
    refine ⟨?_, by simp [Output.none], by simp [Sends, Output.none, hsending], by simp [hsending]⟩
    exact {
      linked := by
        intro mark hmark
        rw [hmarks'] at hmark
        by_cases heq : mark = (cleared task).mark
        · exact .of_none (heq ▸ rfl)
        · refine h.linked mark ?_
          rw [hmarks]
          simp only [mem_append, mem_cons, heq, false_or] at hmark ⊢
          exact hmark.imp_right .inr
      heads := by
        have hheads := h.heads
        rw [hmarks] at hheads
        rw [hmarks']
        exact pairwise_heads_replace hheads rfl (.inl rfl)
      querying := by
        intro fire ticket hquerying
        rw [hstage] at hquerying
        rw [htasks']
        have hready := h.querying fire ticket hquerying
        rw [htasks] at hready
        exact hready.cleared (hwaiting (by simp [hquerying])) hanchor
      asking := by
        intro fire prevSnapshot ticket hasking
        rw [hstage] at hasking
        rw [htasks']
        obtain ⟨hready, hheard⟩ := h.asking fire prevSnapshot ticket hasking
        rw [htasks] at hready
        exact ⟨hready.cleared (hwaiting (by simp [hasking])) hanchor, hheard⟩ }

/-! ### Every step -/

theorem step_turn (h : Chained a notes) (hmade : ∀ task, input = .create task → Made task)
    (hstep : a.step env input = some (a', output)) : Turn notes a env input a' output := by
  have hstay : a.heard env input a = [] → a.sending env input = none →
      some (a, Output.none) = some (a', output) → Turn notes a env input a' output := by
    intro hheard hsending hstep
    obtain ⟨rfl, rfl⟩ := Prod.mk.inj (some.inj hstep)
    exact .same h hheard rfl hsending
  unfold step at hstep
  split at hstep
  · obtain ⟨rfl, rfl⟩ := Prod.mk.inj (some.inj hstep)
    exact reported_turn h _ _
  · obtain ⟨rfl, rfl⟩ := Prod.mk.inj (some.inj hstep)
    exact (announceExistingTasks_settles a _).turn h (by simp [*]) rfl (by simp [sending, *])
  · exact create_turn h ‹_› (hmade _ rfl) hstep
  · exact update_turn h ‹_› hstep
  · exact delete_turn h ‹_› hstep
  · rename_i hstage
    obtain ⟨rfl, rfl⟩ := Prod.mk.inj (some.inj hstep)
    exact .same h rfl rfl (by simp [sending, hstage])
  · rename_i hstage
    by_cases hpending : a.pendingRemoval.isNone = true
    · rw [if_pos hpending] at hstep
      exact fireNextTask_turn h hstage hpending hstep
    · rw [if_neg hpending] at hstep
      exact hstay (by simp [heard, hpending]) (by simp [sending, hstage, hpending]) hstep
  · exact (shutdown_settles hstep).turn h (by simp [*]) rfl (by simp [sending, *])
  · exact (removalSaved_settles hstep).turn h (by simp [*]) rfl (by simp [sending, *])
  · exact (removalAcknowledged_settles hstep).turn h (by simp [*]) rfl (by simp [sending, *])
  · exact expirySaved_turn h ‹_› hstep
  · exact (expiryAcknowledged_settles hstep).turn h (by simp [*]) rfl (by simp [sending, *])
  · rename_i fire ticket ticket' answer hstage
    by_cases hticket : ticket = ticket'
    · subst hticket
      rw [if_pos rfl] at hstep
      exact queried_turn h hstage hstep
    · rw [if_neg hticket] at hstep
      refine hstay ?_ (by simp [sending, hstage]) hstep
      unfold heard
      split <;> simp_all
  · rename_i fire prevSnapshot ticket ticket' answer hstage
    by_cases hticket : ticket = ticket'
    · subst hticket
      rw [if_pos rfl] at hstep
      exact unitAnswered_turn h hstage hstep
    · rw [if_neg hticket] at hstep
      refine hstay rfl ?_ hstep
      unfold sending
      split <;> simp_all
  · -- an input that this stage does not wait for
    refine hstay ?_ ?_ hstep
    · unfold heard
      split <;> simp_all
    · unfold sending
      split <;> grind

/-! ## The runs -/

theorem new_chained (generation : Uuid) (hmade : ∀ task ∈ tasks, Made task) :
    Chained (new generation tasks) [] := by
  have hfresh : ∀ mark ∈ (new generation tasks).marks, mark.lastSubagentId = none := by
    intro mark hmark
    obtain ⟨task, htask, rfl⟩ := List.mem_map.mp hmark
    rw [(hmade task htask).mark]
  refine .of_not_waits (fun mark hmark => .of_none (hfresh mark hmark)) ?_ id
  exact pairwise_of_forall_mem_list fun mark _ later hlater _ => hfresh later hlater

theorem History.chained {start : SchedulerActor} (h : History start a notes)
    (hstart : Chained start []) : Chained a notes := by
  induction h with
  | nil => exact hstart
  | step _ made step ih => exact (step_turn ih made step).chained

/-- A run that creates no task, with its history. -/
def follow (a : SchedulerActor) (notes : List Note) :
    List (Env × Input) → Option (SchedulerActor × List Note)
  | [] => some (a, notes)
  | (env, input) :: inputs => do
    let (a', output) ← a.step env input
    follow a' (output.events.filterMap Note.ofEvent ++ (a.heard env input a' ++ notes)) inputs

theorem History.follow {start : SchedulerActor} (h : History start a notes)
    {inputs : List (Env × Input)} (hcreates : ∀ env task, (env, .create task) ∉ inputs)
    {notes' : List Note} (hrun : a.follow notes inputs = some (a', notes')) :
    History start a' notes' := by
  induction inputs generalizing a notes with
  | nil =>
    obtain ⟨rfl, rfl⟩ := Prod.mk.inj (some.inj hrun)
    exact h
  | cons first inputs ih =>
    obtain ⟨env, input⟩ := first
    obtain ⟨⟨a₁, output⟩, hstep, hrun⟩ := bind_eq_some_iff.mp hrun
    refine ih (h.step ?_ hstep) ?_ hrun
    · rintro task rfl
      exact absurd mem_cons_self (hcreates env task)
    · exact fun env task hmem => hcreates env task (mem_cons_of_mem _ hmem)

/-- Two tasks of one millisecond, their UUIDs alike but for the last digit. -/
def firstOfTwo : ScheduledTask where
  id := List.replicate 12 '0'
  intervalSecs := 60
  prompt := ['a']
  recurring := true
  durable := false
  foreground := false
  createdAt := 0
  lastFiredAt := none
  expiresAt := some sevenDays
  lastSubagentId := none
  iterationsSinceFresh := 0
  chainResetPending := false

def secondOfTwo : ScheduledTask := { firstOfTwo with prompt := ['b'] }

theorem made_ofTwo : Made firstOfTwo ∧ Made secondOfTwo :=
  ⟨⟨⟨0, sevenDays⟩, 0x000000000000739baea5966c26f8ad91, 0, 60, ['a'], true, false, false, firstOfTwo,
      by decide, by decide, rfl⟩,
    ⟨⟨0, sevenDays⟩, 0x000000000000739baea5966c26f8ad92, 0, 60, ['b'], true, false, false, secondOfTwo,
      by decide, by decide, rfl⟩⟩

def envIn (minute : Int) (subagentId : Text) (channelOpen : Bool) : Env where
  now := minute * 60000000000
  newGeneration := 2
  subagentId
  durableTargets := true
  stillDurable := true
  backgroundLoops := true
  session := some ['s']
  channelOpen

/-- In every run from tasks as they are made, a step keeps the chains exactly
when a fire whose send fails is, as to its mark, of the first task with its id. -/
theorem keepsChains_iff (generation : Uuid) (tasks : List ScheduledTask)
    (hmade : ∀ task ∈ tasks, Made task) (a : SchedulerActor) (notes : List Note)
    (hhistory : History (new generation tasks) a notes) (env : Env) (input : Input)
    (hinput : ∀ task, input = .create task → Made task) (a' : SchedulerActor) (output : Output)
    (hstep : a.step env input = some (a', output)) :
    KeepsChains notes a env input a' output ↔
      ∀ taskId, a.sending env input = some taskId → env.channelOpen = false →
        FirstFired (a.heard env input a' ++ notes) taskId := by
  have hturn := step_turn (hhistory.chained (new_chained generation hmade)) hinput hstep
  constructor
  · intro hkeeps taskId hsending hclosed
    exact (hturn.restores taskId hsending hclosed).mp (hkeeps.restores taskId hsending hclosed)
  · intro hfirst
    exact ⟨hturn.resumes, fun taskId hsending hclosed =>
      (hturn.restores taskId hsending hclosed).mpr (hfirst taskId hsending hclosed)⟩

/-- The second iteration of a task resumes the first. -/
theorem keepsChains_iff_second :
    ∃ a notes a' output, History (new 1 [firstOfTwo]) a notes ∧
      a.step (envIn 2 ['2'] true) (.unitAnswered 1 (some false)) = some (a', output) ∧
      (∃ request, .spawn request ∈ output.events ∧ request.resumeFrom = some ['1']) ∧
      KeepsChains notes a (envIn 2 ['2'] true) (.unitAnswered 1 (some false)) a' output := by
  have hrun : ((new 1 [firstOfTwo]).follow []
      [(envIn 0 [] true, .start), (envIn 1 ['1'] true, .timer), (envIn 2 [] true, .timer),
        (envIn 2 [] true, .queried 0 (some (some (.completed ['d']))))]).bind (fun (a, _) =>
        (a.step (envIn 2 ['2'] true) (.unitAnswered 1 (some false))).map fun (_, output) =>
          output.events.any fun event =>
            ((Note.ofEvent event).bind (Note.sentFor firstOfTwo.id)).bind (·.resumeFrom) =
              some ['1']) =
      some true := by
    decide
  obtain ⟨⟨a, notes⟩, hfollow, hrun⟩ := bind_eq_some_iff.mp hrun
  obtain ⟨⟨a', output⟩, hstep, hresumes⟩ := map_eq_some_iff.mp hrun
  have hhistory := History.nil.follow (by simp) hfollow
  refine ⟨a, notes, a', output, hhistory, hstep, ?_, ?_⟩
  · obtain ⟨event, hmem, hevent⟩ := List.any_eq_true.mp hresumes
    cases event with
    | spawn request =>
      simp only [Note.ofEvent, Note.sentFor, bind_some] at hevent
      split at hevent
      · exact ⟨request, hmem, of_decide_eq_true hevent⟩
      · cases hevent
    | _ => cases hevent
  · refine (keepsChains_iff 1 [firstOfTwo] (by simpa using made_ofTwo.1) a notes hhistory _ _
      (by rintro task ⟨⟩) a' output hstep).mpr ?_
    rintro taskId - ⟨⟩

/-- The first task's iteration is sent; the second's is not, and takes the
first one's anchor. -/
theorem failedSend_takes_anchor :
    ∃ a notes a' output,
      History (new 1 [firstOfTwo, secondOfTwo]) a notes ∧
        (∀ task ∈ [firstOfTwo, secondOfTwo], Made task) ∧
        a.step (envIn 1 ['2'] false) .timer = some (a', output) ∧
        marksOf firstOfTwo.id a.tasks = [⟨firstOfTwo.id, some ['1'], 1, false⟩, secondOfTwo.mark] ∧
        marksOf firstOfTwo.id a'.tasks = [firstOfTwo.mark, secondOfTwo.mark] ∧
        ¬ KeepsChains notes a (envIn 1 ['2'] false) .timer a' output := by
  have hrun : ((new 1 [firstOfTwo, secondOfTwo]).follow []
      [(envIn 0 [] true, .start), (envIn 1 ['1'] true, .timer)]).bind (fun (a, _) =>
        (a.step (envIn 1 ['2'] false) .timer).map fun (a', _) =>
          (marksOf firstOfTwo.id a.tasks, marksOf firstOfTwo.id a'.tasks,
            decide (a.sending (envIn 1 ['2'] false) .timer = some firstOfTwo.id),
            decide (a.heard (envIn 1 ['2'] false) .timer a' = [.began a.tasks
              (a.tasks.getLastD firstOfTwo)]))) =
      some ([⟨firstOfTwo.id, some ['1'], 1, false⟩, secondOfTwo.mark],
        [firstOfTwo.mark, secondOfTwo.mark], true, true) := by
    decide
  obtain ⟨⟨a, notes⟩, hfollow, hrun⟩ := bind_eq_some_iff.mp hrun
  obtain ⟨⟨a', output⟩, hstep, hall⟩ := map_eq_some_iff.mp hrun
  simp only [Prod.mk.injEq, decide_eq_true_eq] at hall
  obtain ⟨hbefore, hafter, hsending, hheard⟩ := hall
  refine ⟨a, notes, a', output, History.nil.follow (by simp) hfollow, ?_, hstep, hbefore, hafter, ?_⟩
  · simpa using made_ofTwo
  · intro hkeeps
    obtain ⟨before, task, hbegan, hsame⟩ := hkeeps.restores _ hsending rfl
    rw [hheard] at hbegan
    obtain ⟨rfl, -⟩ := Prod.mk.inj (some.inj hbegan)
    rw [hbefore, hafter] at hsame
    exact absurd hsame (by decide)

end SchedulerActor

end GrokBuild.Scheduler
