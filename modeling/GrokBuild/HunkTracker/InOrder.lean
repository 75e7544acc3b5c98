import GrokBuild.HunkTracker.Agree

/-!
# Hunk tracker: a batch against the queue in order

A notification may overtake a command on another path. So in an `Orderly`
queue all notifications can be worked off first, as the batch does, and
where of each path only the last one counts the two runs agree.
-/

namespace GrokBuild.HunkTracker

open TextLines Str EditScript List

namespace Actor

/-! ## Moving notifications to the front -/

/-- Does a notification of `p` mean the same before the command as behind
it? -/
def isApart (p : PathBuf) : HunkTrackerCommand → Bool
  | .recordAgentWrite path .. => path != p
  | .resetBaseline path => path != p
  | .query _ => true
  | .resetStats => true
  | _ => false

theorem Agree.runNotices {D : LineDiff} {env : Env} (ns : List (PathBuf × Notice)) :
    ∀ {a b : Actor}, Agree a b → Agree (a.runNotices D env ns) (b.runNotices D env ns) := by
  induction ns with
  | nil => exact fun h => h
  | cons x ns ih => exact fun h => ih (h.notice x.1 x.2)

variable {cmd : HunkTrackerCommand}

theorem swap_unseen (D : LineDiff) (env : Env) (a : Actor) (p : PathBuf) (n : Notice)
    (h : ∀ b : Actor, Agree b (b.handleCommand D env cmd)) :
    Agree ((a.handleNotice D env p n).handleCommand D env cmd)
      ((a.handleCommand D env cmd).handleNotice D env p n) :=
  (h _).symm.trans ((h a).notice p n)

theorem swap_notice (D : LineDiff) (env : Env) (a : Actor) {p : PathBuf} (n : Notice)
    (h : isApart p cmd = true) :
    Agree ((a.handleNotice D env p n).handleCommand D env cmd)
      ((a.handleCommand D env cmd).handleNotice D env p n) := by
  cases cmd with
  | recordAgentWrite path content promptIndex previous =>
    have hne : p ≠ path := by
      intro e
      simp [isApart, e] at h
    exact (ActsAt.notice D env p n).swap (.write D env path content promptIndex previous) hne a
  | resetBaseline path =>
    have hne : p ≠ path := by
      intro e
      simp [isApart, e] at h
    exact (ActsAt.notice D env p n).swap (.reset env path) hne a
  | query q =>
    apply swap_unseen
    intro b
    cases q <;> exact ⟨fun _ => rfl, rfl, rfl, rfl, rfl, rfl, rfl⟩
  | resetStats =>
    apply swap_unseen
    exact fun b => ⟨fun _ => rfl, rfl, rfl, rfl, rfl, rfl, rfl⟩
  | _ => cases h

theorem swap_runNotices (D : LineDiff) (env : Env) (cmd : HunkTrackerCommand)
    (ns : List (PathBuf × Notice)) (h : ∀ x ∈ ns, isApart x.1 cmd = true) : ∀ a : Actor,
    Agree ((a.runNotices D env ns).handleCommand D env cmd)
      ((a.handleCommand D env cmd).runNotices D env ns) := by
  induction ns with
  | nil => exact fun a => .refl _
  | cons x ns ih =>
    intro a
    have hfirst := swap_notice D env a x.2 (h x mem_cons_self)
    have hrest := ih (fun y hy => h y (mem_cons_of_mem _ hy)) (a.handleNotice D env x.1 x.2)
    exact hrest.trans (hfirst.runNotices ns)

/-- A queue whose notifications can be worked off first: behind a refresh
of the dirty cache, if there is one, there are notifications and calm
commands, and no notification stands behind a command that is not apart
from it. -/
structure Orderly (queue dirty rest : List HunkTrackerCommand) : Prop where
  split : queue = dirty ++ rest
  dirty : dirty = [] ∨ dirty = [.refreshGitDirtyCache]
  calm : ∀ c ∈ rest, (noticeOf c).isSome = true ∨ isCalm c = true
  apart : rest.Pairwise fun c d => ∀ p n, noticeOf d = some (p, n) →
    (noticeOf c).isSome = true ∨ isApart p c = true

theorem handleCommand_notice (D : LineDiff) (env : Env) (a : Actor) {x : PathBuf × Notice}
    (h : noticeOf cmd = some x) : a.handleCommand D env cmd = a.handleNotice D env x.1 x.2 := by
  cases cmd <;> cases h <;> rfl

theorem isCoalescable_of_notice (h : (noticeOf cmd).isSome = true) : isCoalescable cmd = true := by
  cases cmd <;> first | rfl | cases h

theorem isCoalescable_of_calm (h : isCalm cmd = true) :
    noticeOf cmd = none ∧ isCoalescable cmd = false := by
  cases cmd <;> first | exact ⟨rfl, rfl⟩ | cases h

theorem agree_front (D : LineDiff) (env : Env) (rest : List HunkTrackerCommand)
    (hcalm : ∀ c ∈ rest, (noticeOf c).isSome = true ∨ isCalm c = true)
    (hapart : rest.Pairwise fun c d => ∀ p n, noticeOf d = some (p, n) →
      (noticeOf c).isSome = true ∨ isApart p c = true) : ∀ a : Actor,
    Agree (a.handleCommands D env rest)
      ((a.runNotices D env (rest.filterMap noticeOf)).handleCommands D env
        (rest.filter fun c => !isCoalescable c)) := by
  induction rest with
  | nil => exact fun a => .refl a
  | cons c rest ih =>
    intro a
    have hrest : ∀ d ∈ rest, (noticeOf d).isSome = true ∨ isCalm d = true :=
      fun d hd => hcalm d (mem_cons_of_mem _ hd)
    obtain ⟨hc, hapart⟩ := pairwise_cons.mp hapart
    have ih := ih hrest hapart (a.handleCommand D env c)
    rcases hcalm c mem_cons_self with hn | hn
    · obtain ⟨x, hx⟩ := Option.isSome_iff_exists.mp hn
      rw [filterMap_cons_some hx, filter_cons_of_neg (by simp [isCoalescable_of_notice hn])]
      have hstep : a.handleCommands D env (c :: rest) =
          (a.handleCommand D env c).handleCommands D env rest := rfl
      rw [hstep]
      rw [handleCommand_notice D env a hx] at ih ⊢
      exact ih
    · obtain ⟨hx, hco⟩ := isCoalescable_of_calm hn
      rw [filterMap_cons_none hx, filter_cons_of_pos (by simp [hco])]
      -- the command changes places with all notifications behind it
      have hfree : ∀ y ∈ rest.filterMap noticeOf, isApart y.1 c = true := by
        intro y hy
        obtain ⟨d, hd, hdy⟩ := mem_filterMap.mp hy
        simpa [hx] using hc d hd y.1 y.2 hdy
      have hswap := swap_runNotices D env c (rest.filterMap noticeOf) hfree a
      refine ih.trans (Agree.handleCommands _ (fun d hd => ?_) hswap.symm)
      obtain ⟨hd, hdco⟩ := mem_filter.mp hd
      rcases hrest d hd with hdn | hdn
      · simp [isCoalescable_of_notice hdn] at hdco
      · exact hdn

/-! ## The batch and the queue -/

/-- The notifications that a batch is left with. -/
def lastNotices (deleted changed : List PathBuf) : List (PathBuf × Notice) :=
  deleted.map (·, .deleted) ++ changed.map (·, .changed)

theorem handleCommands_lastNotices (D : LineDiff) (env : Env) (a : Actor)
    (deleted changed : List PathBuf) :
    a.handleCommands D env (deleted.map .handleFileDeleted ++ changed.map .handleFileChange) =
      a.runNotices D env (lastNotices deleted changed) := by
  simp only [handleCommands, runNotices, lastNotices, foldl_append, foldl_map]
  rfl

theorem noticesAt_map {ps : List PathBuf} (h : ps.Nodup) (n : Notice) (p : PathBuf) :
    noticesAt (ps.map (·, n)) p = if p ∈ ps then [n] else [] := by
  induction ps with
  | nil => rfl
  | cons q ps ih =>
    obtain ⟨hq, hnodup⟩ := nodup_cons.mp h
    rw [map_cons]
    by_cases hqp : q = p
    · subst hqp
      rw [noticesAt_cons_self, ih hnodup, if_neg hq, if_pos mem_cons_self]
    · rw [noticesAt_cons_ne hqp, ih hnodup]
      simp [Ne.symm hqp]

theorem noticesAt_lastNotices {queue dirty : List HunkTrackerCommand} {deleted changed : List PathBuf}
    (h : CoalescedOrder queue dirty deleted changed) (p : PathBuf) :
    noticesAt (lastNotices deleted changed) p = (noticesOf queue p).getLast?.toList := by
  have happend : noticesAt (lastNotices deleted changed) p =
      noticesAt (deleted.map (·, .deleted)) p ++ noticesAt (changed.map (·, .changed)) p :=
    filterMap_append
  rw [happend, noticesAt_map h.nodup.1, noticesAt_map h.nodup.2]
  simp only [h.deleted, h.changed]
  rcases (noticesOf queue p).getLast? with _ | (_ | _) <;> rfl

namespace Orderly

variable {queue dirty rest : List HunkTrackerCommand}

theorem noticesOf_eq (h : Orderly queue dirty rest) (p : PathBuf) :
    noticesOf queue p = noticesAt (rest.filterMap noticeOf) p := by
  rw [h.split, noticesOf_append]
  rcases h.dirty with hd | hd <;> rw [hd] <;> rfl

theorem filter_eq (h : Orderly queue dirty rest) :
    (queue.filter fun c => !isCoalescable c) = rest.filter fun c => !isCoalescable c := by
  rw [h.split, filter_append]
  rcases h.dirty with hd | hd <;> rw [hd] <;> rfl

theorem not_mem_rest (h : Orderly queue dirty rest) {cmd : HunkTrackerCommand}
    (hn : noticeOf cmd = none) (hcalm : isCalm cmd = false) : cmd ∉ rest := by
  intro hmem
  rcases h.calm cmd hmem with hc | hc
  · simp [hn] at hc
  · simp [hcalm] at hc

theorem not_mem_refreshAll (h : Orderly queue dirty rest) : .refreshAllBaselines ∉ queue := by
  rw [h.split, mem_append, not_or]
  refine ⟨?_, h.not_mem_rest rfl rfl⟩
  rcases h.dirty with hd | hd <;> simp [hd]

/-- The batch finds the refresh of the dirty cache, if there is one. -/
theorem dirty_eq (h : Orderly queue dirty rest) {dirty' : List HunkTrackerCommand}
    {deleted changed : List PathBuf} (ho : CoalescedOrder queue dirty' deleted changed) :
    dirty' = dirty := by
  have hmem : .refreshGitDirtyCache ∈ queue ↔ .refreshGitDirtyCache ∈ dirty := by
    rw [h.split, mem_append]
    exact or_iff_left (h.not_mem_rest rfl rfl)
  rcases ho.dirty with ⟨rfl, hq⟩ | ⟨rfl, hq⟩ <;> rw [hmem] at hq <;>
    rcases h.dirty with rfl | rfl
  · cases hq
  · rfl
  · rfl
  · exact absurd mem_cons_self hq

end Orderly

theorem agree_batch (D : LineDiff) (env : Env) (a : Actor)
    {queue dirty rest : List HunkTrackerCommand} (hq : Orderly queue dirty rest)
    (hns : ∀ p, (a.handleCommands D env dirty).Superseding env p (noticesOf queue p)) :
    Agree (a.handleCommands D env queue)
      (a.handleCoalescedBatch D env (.drainAndCoalesce queue)) := by
  obtain ⟨dirty', deleted, changed, horder, hbatch⟩ :=
    handleCoalescedBatch_eq D env a hq.not_mem_refreshAll
  have hqueue := congrArg (a.handleCommands D env) hq.split
  rw [handleCommands_append] at hqueue
  rw [hbatch, hqueue, coalescedCommands, handleCommands_append, handleCommands_append,
    hq.dirty_eq horder, handleCommands_lastNotices, hq.filter_eq]
  apply (agree_front D env rest hq.calm hq.apart _).trans
  -- both runs are down to notifications, then the same calm commands
  apply Agree.handleCommands
  · intro c hc
    obtain ⟨hmem, hco⟩ := mem_filter.mp hc
    rcases hq.calm c hmem with hn | hn
    · simp [isCoalescable_of_notice hn] at hco
    · exact hn
  · apply agree_runNotices
    intro p
    rw [noticesAt_lastNotices horder, ← hq.noticesOf_eq]
    exact trace_getLast (hns p)

/-- What coalescing promises. A queue without a refresh of all baselines is
worked off in the coalesced order, and the whole actor is what the commands
one by one would leave. The order of the queue itself makes no difference to
what a client sees when the queue is orderly and only the last notification
of each path counts. -/
theorem coalesced_batch_agrees (D : LineDiff) (env : Env) (a : Actor)
    (queue : List HunkTrackerCommand) (h : .refreshAllBaselines ∉ queue) :
    (∃ dirty deleted changed, CoalescedOrder queue dirty deleted changed ∧
      a.handleCoalescedBatch D env (.drainAndCoalesce queue) =
        a.handleCommands D env (coalescedCommands queue dirty deleted changed)) ∧
    ∀ dirty rest, Orderly queue dirty rest →
      (∀ p, (a.handleCommands D env dirty).Superseding env p (noticesOf queue p)) →
      ∀ p, (a.handleCoalescedBatch D env (.drainAndCoalesce queue)).observed p =
        (a.handleCommands D env queue).observed p :=
  ⟨handleCoalescedBatch_eq D env a h, fun _ _ hq hns p => (agree_batch D env a hq hns).observed p⟩

end Actor

/-! ## Two queues -/

/-- A world where every file holds the line `y`. -/
def Env.edited : Env :=
  { Env.quiet with disk := fun _ => .file [121, 10], pathExists := fun _ => true }

/-- Two reports of a change of `f` around a write of `g`. -/
def aroundWrite : List HunkTrackerCommand :=
  [.handleFileChange ["f"], .recordAgentWrite ["g"] "x\n".toList 0 none, .handleFileChange ["f"]]

/-- The agent has written `f`. -/
def wroteF : Actor :=
  (Actor.new [] .agentOnly).handleCommand .lcs .edited
    (.recordAgentWrite ["f"] "x\n".toList 0 none)

theorem Actor.orderly_aroundWrite : Actor.Orderly aroundWrite [] aroundWrite where
  split := rfl
  dirty := .inl rfl
  calm := by decide
  apart := by simp [aroundWrite, noticeOf, Actor.isApart]

theorem coalesced_batch_agrees_aroundWrite :
    (wroteF.handleCoalescedBatch .lcs .edited (.drainAndCoalesce aroundWrite)).observed ["f"] =
      (wroteF.handleCommands .lcs .edited aroundWrite).observed ["f"] ∧
    (wroteF.handleCommands .lcs .edited aroundWrite).observed ["f"] =
      some (.full "y\n".toList, true) := by
  refine ⟨?_, by decide⟩
  apply (Actor.coalesced_batch_agrees .lcs .edited wroteF aroundWrite (by simp [aroundWrite])).2
    [] aroundWrite Actor.orderly_aroundWrite
  intro p
  by_cases hp : p = ["f"]
  · subst hp
    exact .inr (.inl (by decide))
  · have hnone : noticesOf aroundWrite p = [] := by
      show Actor.noticesAt [(["f"], .changed), (["f"], .changed)] p = []
      rw [Actor.noticesAt_cons_ne (Ne.symm hp), Actor.noticesAt_cons_ne (Ne.symm hp)]
      rfl
    exact .inl (by simp [hnone])

/-- A report of a change of `g` behind a write of `g` is handled before it:
`g` is not tracked yet, and the report is dropped. -/
def behindWrite : List HunkTrackerCommand :=
  [.handleFileChange ["f"], .recordAgentWrite ["g"] "x\n".toList 0 none, .handleFileChange ["g"]]

theorem batch_overtakes_write :
    behindWrite.head?.any isCoalescable = true ∧
    ((Actor.new [] .agentOnly).handleCoalescedBatch .lcs .edited
      (.drainAndCoalesce behindWrite)).observed ["g"] ≠
    ((Actor.new [] .agentOnly).handleCommands .lcs .edited behindWrite).observed ["g"] := by
  decide

end GrokBuild.HunkTracker
