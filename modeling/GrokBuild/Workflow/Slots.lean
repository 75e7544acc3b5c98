import GrokBuild.Workflow.Accounts

/-!
# Workflows: the slots of a session

`launch` counts the receivers in `active` and `retiring`. A receiver leaves
`active` on its own only when its run is terminal, and a run that paused itself
is not. As long as no executor ends like that while it is in `active`, every
slot that is counted is that of an executor at work.
-/

namespace GrokBuild.Workflow

open TextLines Str LineLog List

/-! ## What an executor does to the state of its run -/

/-- The status is the same, and no resume came between. -/
def TrackedRun.SameLife (run run' : TrackedRun) : Prop :=
  run'.status = run.status ∧ run'.executionEpoch = run.executionEpoch

theorem relLife_rfl : ∀ run : Option TrackedRun, Option.Rel TrackedRun.SameLife run run
  | none => .none
  | some _ => .some ⟨rfl, rfl⟩

theorem relLife_map {run : Option TrackedRun} {f : TrackedRun → TrackedRun}
    (hf : ∀ run : TrackedRun, run.SameLife (f run)) :
    Option.Rel TrackedRun.SameLife run (run.map f) := by
  cases run with
  | none => exact .none
  | some run => exact .some (hf run)

theorem sameLife_reserveAgents {run run' : TrackedRun} {count : Nat}
    (h : run.reserveAgents count = .ok run') : run.SameLife run' := by
  unfold TrackedRun.reserveAgents at h
  dsimp only at h
  split at h
  · split at h
    · cases h
    · cases h
      exact ⟨rfl, rfl⟩
  · cases h
    exact ⟨rfl, rfl⟩

theorem epoch_applyOutcome (run : TrackedRun) (outcome : RunOutcome) :
    (run.applyOutcome outcome).executionEpoch = run.executionEpoch := by
  unfold TrackedRun.applyOutcome
  split
  · rfl
  · rfl
  · rfl
  · cases outcome <;> rfl

theorem epoch_pauseUser (run : TrackedRun) : run.pauseUser.executionEpoch = run.executionEpoch := by
  unfold TrackedRun.pauseUser
  split <;> rfl

namespace Station

variable {codec : Codec JournalEntry} {w : Station}

theorem write_keeps (w : Station) (entry : JournalEntry) (write : Write) (refusal : Text)
    (next : Phase) (agents : Nat) :
    (w.write codec entry write refusal next agents).exec.epoch = w.exec.epoch ∧
      (w.write codec entry write refusal next agents).run = w.run := by
  unfold Station.write
  split <;> exact ⟨rfl, rfl⟩

theorem step_epoch (w : Station) (act : ExecAct) : (w.step codec act).exec.epoch = w.exec.epoch := by
  unfold Station.step
  split
  all_goals try rfl
  all_goals repeat' split
  all_goals first
    | rfl
    | exact (write_keeps _ _ _ _ _ _).1

theorem step_keeps (codec : Codec JournalEntry) (w : Station) (act : ExecAct)
    (hsettle : ∀ drained, act ≠ .settle drained) (hack : ∀ error, act ≠ .persistAck error) :
    (w.step codec act).exec.watch = w.exec.watch ∧
      Option.Rel TrackedRun.SameLife w.run (w.step codec act).run := by
  unfold Station.step
  split
  case h_14 => exact absurd rfl (hsettle _)
  case h_15 => exact absurd rfl (hack _)
  all_goals try exact ⟨rfl, relLife_rfl _⟩
  all_goals repeat' split
  all_goals first
    | exact ⟨rfl, relLife_rfl _⟩
    | exact ⟨(write_exec _ _ _ _ _ _).2, (write_keeps _ _ _ _ _ _).2 ▸ relLife_rfl _⟩
    | exact ⟨rfl, relLife_map fun _ => ⟨rfl, rfl⟩⟩
    | exact ⟨rfl, ‹w.run = some _› ▸ .some (sameLife_reserveAgents ‹_›)⟩

theorem step_settle (codec : Codec JournalEntry) (w : Station) (drained : Bool) :
    w.step codec (.settle drained) = w ∨
      ∃ outcome,
        (∃ run run', w.run = some run ∧ settled w.exec outcome drained run = some run' ∧
          w.step codec (.settle drained) =
            { w with run := some run', exec := { w.exec with watch := .updated } }) ∨
        ((∀ run, w.run = some run → settled w.exec outcome drained run = none) ∧
          w.step codec (.settle drained) = { w with exec := { w.exec with watch := .done } }) := by
  obtain ⟨run, disk, runId, epoch, journal, cancel, pauseIntent, phase, reserved, watch⟩ := w
  cases phase with
  | ended outcome =>
    cases watch with
    | waiting =>
      right
      refine ⟨outcome, ?_⟩
      simp only [Station.step]
      split
      · next run' hbind =>
        obtain ⟨run₀, hrun₀, hsettled⟩ := Option.bind_eq_some_iff.mp hbind
        exact .inl ⟨run₀, run', hrun₀, hsettled, rfl⟩
      · next hbind => exact .inr ⟨fun run₀ hrun₀ => Option.bind_eq_none_iff.mp hbind run₀ hrun₀, rfl⟩
    | updated => exact .inl rfl
    | done => exact .inl rfl
  | _ => exact .inl rfl

theorem step_persistAck (codec : Codec JournalEntry) (w : Station) (error : Option Text) :
    w.step codec (.persistAck error) = w ∨
      w.exec.watch = .updated ∧
        (error = none ∧ w.step codec (.persistAck error) =
            { w with exec := { w.exec with watch := .done } } ∨
          ∃ message, w.step codec (.persistAck error) =
            { w with
              run := w.run.map (·.interrupt message)
              exec := { w.exec with watch := .done } }) := by
  obtain ⟨run, disk, runId, epoch, journal, cancel, pauseIntent, phase, reserved, watch⟩ := w
  cases phase with
  | ended outcome =>
    cases watch with
    | updated =>
      right
      refine ⟨rfl, ?_⟩
      cases error with
      | none => exact .inl ⟨rfl, rfl⟩
      | some error => exact .inr ⟨_, rfl⟩
    | waiting => exact .inl rfl
    | done => exact .inl rfl
  | _ => exact .inl rfl

end Station

namespace System

/-! ## The condition -/

/-- An executor whose run is in `active` sends its signal only when the run is
terminal, and is not taken for a later one by its epoch. -/
def Settles (s : System) : Step → Prop
  | .exec id act => ∀ x, s.execs id = some x →
    (act = .persistAck none → x.watch = .updated → (x.runId, id) ∈ s.active →
      s.isTerminal x.runId = true) ∧
    ∀ drained run, act = .settle drained → s.runs x.runId = some run →
      run.executionEpoch = x.epoch → ∀ h ∈ s.active, h.1 = x.runId → h.2 = id
  | _ => True

/-- Every step of the run does. -/
def SettlesAll (codec : Codec JournalEntry) (sessionDir : Bool) : System → List Step → Prop
  | _, [] => True
  | s, st :: steps => s.Settles st ∧ SettlesAll codec sessionDir (s.step codec sessionDir st) steps

/-! ## The invariant -/

/-- The executor is at work, or its slot is given back with the next reaping. -/
def Works (s : System) (h : Nat × Nat) : Prop :=
  ∃ x run, s.execs h.2 = some x ∧ x.runId = h.1 ∧ s.runs h.1 = some run ∧
    (run.status.isTerminal = true ∨ x.live ∧ run.executionEpoch = x.epoch)

structure Held (s : System) : Prop where
  distinct : ((s.active ++ s.retiring).map (·.2)).Nodup
  fresh : ∀ h ∈ s.active ++ s.retiring, h.2 < s.nextExec
  works : ∀ h ∈ s.active, s.Works h

theorem held_start : start.Held := ⟨nodup_nil, nofun, nofun⟩

/-- What may be done to a run beside the work of its executor. -/
def Spares (run run' : TrackedRun) : Prop := run'.status.isTerminal = true ∨ run.SameLife run'

theorem Works.mono {s t : System} {h : Nat × Nat} (hworks : s.Works h)
    (hexecs : ∀ x, s.execs h.2 = some x →
      ∃ x', t.execs h.2 = some x' ∧ x'.runId = x.runId ∧ x'.epoch = x.epoch ∧ x'.watch = x.watch)
    (hruns : ∀ run, s.runs h.1 = some run → ∃ run', t.runs h.1 = some run' ∧ Spares run run') :
    t.Works h := by
  obtain ⟨x, run, hx, hr, hrun, hstate⟩ := hworks
  obtain ⟨x', hx', hr', hepoch, hwatch⟩ := hexecs x hx
  obtain ⟨run', hrun', hspared⟩ := hruns run hrun
  refine ⟨x', run', hx', hr'.trans hr, hrun', ?_⟩
  obtain hterminal | ⟨hstatus, hsame⟩ := hspared
  · exact .inl hterminal
  · obtain hterminal | ⟨hlive, hcurrent⟩ := hstate
    · exact .inl (by rw [hstatus, hterminal])
    · refine .inr ⟨?_, ?_⟩
      · show x'.watch ≠ .done
        rw [hwatch]
        exact hlive
      · rw [hsame, hcurrent, hepoch]

theorem Works.same {s t : System} {h : Nat × Nat} (hworks : s.Works h)
    (hexecs : t.execs h.2 = s.execs h.2) (hruns : t.runs h.1 = s.runs h.1) : t.Works h :=
  hworks.mono (fun x hx => ⟨x, hexecs.trans hx, rfl, rfl, rfl⟩)
    (fun run hrun => ⟨run, hruns.trans hrun, .inr ⟨rfl, rfl⟩⟩)

/-! ## Moving receivers -/

theorem perm_shift (active retiring : List (Nat × Nat)) (p : Nat × Nat → Bool) :
    (active.filter (fun h => !p h) ++ (retiring ++ active.filter p)).Perm (active ++ retiring) := by
  have hsplit := filter_append_perm p active
  have hcomm : (retiring ++ active.filter p).Perm (active.filter p ++ retiring) :=
    perm_append_comm
  have hcomm' : (active.filter (fun h => !p h) ++ active.filter p).Perm
      (active.filter p ++ active.filter fun h => !p h) := perm_append_comm
  have hswap := hcomm.append_left (active.filter fun h => !p h)
  have hfront := hcomm'.append_right retiring
  rw [append_assoc] at hfront
  exact (hswap.trans hfront).trans (hsplit.append_right retiring)

variable {s : System}

theorem Held.lists (h : s.Held) {t : System}
    (hsub : (t.active ++ t.retiring).Subperm (s.active ++ s.retiring))
    (hnext : s.nextExec ≤ t.nextExec) (hworks : ∀ h ∈ t.active, t.Works h) : t.Held where
  distinct := by
    obtain ⟨l, hperm, hl⟩ := hsub
    exact ((hperm.map _).nodup_iff).mp (h.distinct.sublist (hl.map _))
  fresh := by
    intro e he
    have := h.fresh e (hsub.subset he)
    omega
  works := hworks

theorem Held.reap (h : s.Held) : s.reap.Held := by
  refine h.lists ?_ le_rfl ?_
  · have hperm := perm_shift s.active s.retiring fun e => s.isTerminal e.1
    refine List.Subperm.trans ?_ hperm.subperm
    exact (List.Sublist.append_left filter_sublist _).subperm
  · intro e he
    exact (h.works e (mem_of_mem_filter he)).same rfl rfl

theorem Held.retire (h : s.Held) (runId : Nat) : (s.retire runId).Held := by
  refine h.lists ?_ le_rfl ?_
  · have hperm := perm_shift s.active s.retiring fun e => decide (e.1 = runId)
    simp only [← decide_not] at hperm
    exact hperm.subperm
  · intro e he
    exact (h.works e (mem_of_mem_filter he)).same rfl rfl

theorem Held.setRun (h : s.Held) {r : Nat} {run : Option TrackedRun}
    (hrun : ∀ e ∈ s.active, e.1 = r → ∀ run₀, s.runs r = some run₀ →
      ∃ run', run = some run' ∧ Spares run₀ run') : (s.setRun r run).Held := by
  refine h.lists (List.Subperm.refl _) le_rfl ?_
  intro e he
  by_cases hr : e.1 = r
  · refine (h.works e he).mono (fun x hx => ⟨x, hx, rfl, rfl, rfl⟩) ?_
    intro run₀ hrun₀
    obtain ⟨run', rfl, hspares⟩ := hrun e he hr run₀ (hr ▸ hrun₀)
    exact ⟨run', by simp [System.setRun, hr], hspares⟩
  · exact (h.works e he).same rfl (by simp [System.setRun, hr])

theorem signal_runs (s : System) (handles : List (Nat × Nat)) (pauses : Bool) :
    (s.signal handles pauses).runs = s.runs := by
  unfold System.signal
  induction handles generalizing s with
  | nil => rfl
  | cons e handles ih => exact ih (s.updateExec e.2 _)

theorem Held.signal (h : s.Held) (handles : List (Nat × Nat)) (pauses : Bool) :
    (s.signal handles pauses).Held := by
  have hquiet := quiet_signal s handles pauses
  obtain ⟨hactive, hretiring, -, -⟩ := signal_lists s handles pauses
  have hruns := signal_runs s handles pauses
  refine h.lists (by rw [hactive, hretiring]) hquiet.nextExec.ge ?_
  intro e he
  rw [hactive] at he
  refine (h.works e he).mono ?_ (fun run hrun => ⟨run, by rw [hruns, hrun], .inr ⟨rfl, rfl⟩⟩)
  intro x hx
  have hrel := hquiet.execs e.2
  rw [hx] at hrel
  obtain ⟨x', hx', _, _, rfl⟩ := rel_some_left hrel
  exact ⟨_, hx', rfl, rfl, rfl⟩

/-- The executor that a launch starts; other receivers of the run are dropped
from `active`. -/
theorem Held.spawn (h : s.Held) {t : System} (r : Nat) (run : TrackedRun)
    (hactive : t.active = s.active) (hretiring : t.retiring = s.retiring)
    (hexecs : t.execs = s.execs) (hnext : t.nextExec = s.nextExec)
    (hruns : t.runs = Function.update s.runs r (some run)) (journal : Journal) :
    (t.spawn r run.executionEpoch journal).Held where
  distinct := by
    simp only [System.spawn, hactive, hretiring, hnext]
    have hsub : (s.active.filter (·.1 ≠ r) ++ s.retiring).Sublist (s.active ++ s.retiring) :=
      filter_sublist.append_right _
    have hnew : s.nextExec ∉ (s.active.filter (·.1 ≠ r) ++ s.retiring).map (·.2) := by
      intro hmem
      obtain ⟨e, he, heq⟩ := List.mem_map.mp hmem
      have := h.fresh e (hsub.subset he)
      omega
    have hperm : ((s.active.filter (·.1 ≠ r) ++ [(r, s.nextExec)]) ++ s.retiring).Perm
        ((r, s.nextExec) :: (s.active.filter (·.1 ≠ r) ++ s.retiring)) := by
      rw [append_assoc]
      exact perm_middle
    rw [(hperm.map Prod.snd).nodup_iff, map_cons]
    exact nodup_cons.mpr ⟨hnew, h.distinct.sublist (hsub.map _)⟩
  fresh := by
    intro e he
    show e.2 < t.nextExec + 1
    rw [hnext]
    simp only [System.spawn, hactive, hretiring, hnext, mem_append, mem_filter,
      mem_singleton] at he
    obtain (⟨he, -⟩ | rfl) | he := he
    · have := h.fresh e (mem_append_left _ he)
      omega
    · exact Nat.lt_succ_self _
    · have := h.fresh e (mem_append_right _ he)
      omega
  works := by
    intro e he
    simp only [System.spawn, hactive, mem_append, mem_filter, mem_singleton,
      decide_eq_true_eq] at he
    obtain ⟨he, hne⟩ | rfl := he
    · have hlt := h.fresh e (mem_append_left _ he)
      refine (h.works e he).same ?_ ?_
      · show Function.update t.execs t.nextExec _ e.2 = _
        rw [Function.update_of_ne (by omega), hexecs]
      · show t.runs e.1 = _
        rw [hruns, Function.update_of_ne hne]
    · refine ⟨_, run, Function.update_self _ _ _, rfl, ?_, .inr ⟨nofun, rfl⟩⟩
      show t.runs r = _
      rw [hruns, Function.update_self]

/-! ## Steps -/

theorem Held.launch (h : s.Held) (sessionDir : Bool) (agentBudget : Option AgentBudget)
    (registered persisted : Bool) : (s.launch sessionDir agentBudget registered persisted).Held := by
  unfold System.launch
  dsimp only
  split
  · exact h.reap
  · split
    · let run : TrackedRun := .start (agentBudget.getD defaultAgentBudget).1
      exact h.reap.spawn (t := ({ s.reap with nextRun := s.reap.nextRun + 1 } : System).setRun
        s.reap.nextRun (some run)) s.reap.nextRun run rfl rfl rfl rfl rfl _
    · exact h.reap.lists (List.Subperm.refl _) le_rfl fun e he => (h.reap.works e he).same rfl rfl

theorem Held.load (h : s.Held) (codec : Codec JournalEntry) (sessionDir : Bool) (runId : Nat)
    (agentBudget : Option AgentBudget) (sourcesMatch : Bool) :
    (s.load codec sessionDir runId agentBudget sourcesMatch).Held := by
  have hsame : ∀ (disks : Nat → Disk) (stage : Stage),
      ({ s.reap with disks := disks, stage := stage } : System).Held := by
    intro disks stage
    exact h.reap.lists (List.Subperm.refl _) le_rfl fun e he => (h.reap.works e he).same rfl rfl
  unfold System.load
  dsimp only
  split
  · exact h.reap
  · split
    · exact h.reap
    · split
      · exact hsame _ s.reap.stage
      · exact hsame _ _

theorem sameLife_reconcile (run : TrackedRun) (used : Nat) :
    run.SameLife (run.reconcileAgentsUsed used) := ⟨rfl, rfl⟩

theorem Held.resume (h : s.Held) (l : Loaded) (persisted : Bool) :
    (s.resume l persisted).Held := by
  have hidle : ({ s with stage := .idle } : System).Held :=
    h.lists (List.Subperm.refl _) le_rfl fun e he => (h.works e he).same rfl rfl
  unfold System.resume
  dsimp only
  split
  · exact hidle
  · next run hrun =>
    split
    · refine hidle.setRun fun e _ hr run₀ hrun₀ => ⟨_, rfl, .inr ?_⟩
      obtain rfl : run = run₀ := Option.some.inj (hrun.symm.trans hrun₀)
      exact sameLife_reconcile run _
    · next run' hresume =>
      split
      · exact hidle.spawn (t := ({ s with stage := .idle } : System).setRun l.runId (some run'))
          l.runId run' rfl rfl rfl rfl rfl _
      · exact hidle.setRun fun e _ hr run₀ hrun₀ => ⟨_, rfl, .inl rfl⟩
variable {e : Nat × Nat}

theorem isActive_of_mem (he : e ∈ (s.retire e.1).active) : False := by
  simp [System.retire] at he

theorem Held.pause (h : s.Held) (runId : Nat) : (s.pause runId).Held := by
  unfold System.pause
  split
  · exact h.retire runId
  · split
    · exact h
    · refine ((h.signal _ true).retire runId).setRun ?_
      rintro e he rfl
      exact (isActive_of_mem he).elim

theorem Held.cancel (h : s.Held) (runId : Nat) : (s.cancel runId).Held := by
  unfold System.cancel
  split
  · exact h.retire runId
  · refine ((h.signal _ false).retire runId).setRun ?_
    rintro e he rfl
    exact (isActive_of_mem he).elim

theorem held_drain (s : System) : s.drain.Held := ⟨nodup_nil, nofun, nofun⟩

theorem Held.giveUp (h : s.Held) (e : Nat × Nat) : (s.giveUp e).Held := by
  unfold System.giveUp
  split
  · exact h
  · split
    · exact h
    · exact h.setRun fun _ _ _ _ _ => ⟨_, rfl, .inl rfl⟩

theorem Held.giveUps (h : s.Held) (handles : List (Nat × Nat)) :
    (handles.foldl System.giveUp s).Held := by
  induction handles generalizing s with
  | nil => exact h
  | cons e handles ih => exact ih (h.giveUp e)

theorem Held.drainEnd (h : s.Held) (pending timedOut : List (Nat × Nat)) :
    (s.drainEnd pending timedOut).Held := by
  unfold System.drainEnd
  split
  · have hgiven := h.giveUps timedOut
    exact hgiven.lists (List.Subperm.refl _) le_rfl fun e he => (hgiven.works e he).same rfl rfl
  · exact h

/-! ## Executors -/

section

variable {codec : Codec JournalEntry} {id : Nat} {x : Exec} {act : ExecAct} {w : Station}

theorem execStep_lists (codec : Codec JournalEntry) (s : System) (id : Nat) (act : ExecAct) :
    (s.execStep codec id act).active = s.active ∧
      (s.execStep codec id act).retiring = s.retiring ∧
      (s.execStep codec id act).nextExec = s.nextExec := by
  unfold System.execStep
  split <;> exact ⟨rfl, rfl, rfl⟩

theorem execStep_runs (hx : s.execs id = some x)
    (hw : Station.step codec ⟨s.runs x.runId, s.disks x.runId, x⟩ act = w) :
    (s.execStep codec id act).runs = Function.update s.runs x.runId w.run := by
  unfold System.execStep
  rw [hx, ← hw]

theorem execStep_execs (hx : s.execs id = some x)
    (hw : Station.step codec ⟨s.runs x.runId, s.disks x.runId, x⟩ act = w) :
    (s.execStep codec id act).execs = Function.update s.execs id (some w.exec) := by
  unfold System.execStep
  rw [hx, ← hw]

theorem works_own (hx : s.execs id = some x)
    (hw : Station.step codec ⟨s.runs x.runId, s.disks x.runId, x⟩ act = w) {run : TrackedRun}
    (hrun : w.run = some run)
    (hstate : run.status.isTerminal = true ∨ w.exec.live ∧ run.executionEpoch = x.epoch) :
    (s.execStep codec id act).Works (x.runId, id) := by
  have hepoch : w.exec.epoch = x.epoch := by
    rw [← hw]
    exact Station.step_epoch _ _
  have hrunId : w.exec.runId = x.runId := by
    rw [← hw]
    exact Station.step_runId _ _
  refine ⟨w.exec, run, ?_, hrunId, ?_, ?_⟩
  · rw [execStep_execs hx hw, Function.update_self]
  · rw [execStep_runs hx hw, Function.update_self, hrun]
  · rw [hepoch]
    exact hstate

theorem Works.other (hworks : s.Works e) (hne : e.2 ≠ id)
    (hx : s.execs id = some x)
    (hw : Station.step codec ⟨s.runs x.runId, s.disks x.runId, x⟩ act = w)
    (hrun : ∀ run, s.runs x.runId = some run → e.1 = x.runId →
      ∃ run', w.run = some run' ∧ Spares run run') :
    (s.execStep codec id act).Works e := by
  refine hworks.mono ?_ ?_
  · intro y hy
    refine ⟨y, ?_, rfl, rfl, rfl⟩
    rw [execStep_execs hx hw, Function.update_of_ne hne, hy]
  · intro run hr
    rw [execStep_runs hx hw]
    by_cases heq : e.1 = x.runId
    · rw [heq, Function.update_self]
      exact hrun run (heq ▸ hr) heq
    · rw [Function.update_of_ne heq]
      exact ⟨run, hr, .inr ⟨rfl, rfl⟩⟩

end

theorem settled_spares {x : Exec} {outcome : RunOutcome} {drained : Bool} {run run' : TrackedRun}
    (h : Station.settled x outcome drained run = some run') :
    run.executionEpoch = x.epoch ∧ run'.executionEpoch = run.executionEpoch := by
  unfold Station.settled at h
  split at h
  · cases h
  · next hepoch =>
    refine ⟨not_not.mp hepoch, ?_⟩
    split at h
    · cases h
      rfl
    · split at h <;> cases h
      · exact epoch_pauseUser run
      · exact epoch_pauseUser run
      · exact epoch_applyOutcome run _

theorem settled_none {x : Exec} {outcome : RunOutcome} {drained : Bool} {run : TrackedRun}
    (h : Station.settled x outcome drained run = none) : run.executionEpoch ≠ x.epoch := by
  unfold Station.settled at h
  split at h
  · assumption
  · split at h
    · cases h
    · split at h <;> cases h

theorem Held.worksExec (h : s.Held) (codec : Codec JournalEntry) {id : Nat} {act : ExecAct}
    {x : Exec} (hx : s.execs id = some x) (hsettles : s.Settles (.exec id act))
    (he : e ∈ s.active) : (s.execStep codec id act).Works e := by
  have hworks := h.works e he
  obtain ⟨hack, hsettle⟩ := hsettles x hx
  obtain ⟨w, hw⟩ : ∃ w, Station.step codec ⟨s.runs x.runId, s.disks x.runId, x⟩ act = w := ⟨_, rfl⟩
  obtain ⟨y, run, hy, hr, hrun, hstate⟩ := hworks
  have hown : e.2 = id → e = (x.runId, id) ∧ s.runs x.runId = some run ∧
      (run.status.isTerminal = true ∨ x.live ∧ run.executionEpoch = x.epoch) := by
    intro hid
    rw [hid, hx] at hy
    cases hy
    exact ⟨Prod.ext hr.symm hid, hr ▸ hrun, hstate⟩
  -- nothing of interest happens
  have hkept : w.exec.watch = x.watch → Option.Rel TrackedRun.SameLife (s.runs x.runId) w.run →
      (s.execStep codec id act).Works e := by
    intro hwatch hrel
    by_cases hid : e.2 = id
    · obtain ⟨rfl, hrun, hstate⟩ := hown hid
      rw [hrun] at hrel
      obtain ⟨run', hrun', hstatus, hepoch⟩ := rel_some_left hrel
      refine works_own hx hw hrun' ?_
      rw [hstatus, hepoch]
      unfold Exec.live
      rw [hwatch]
      exact hstate
    · refine (h.works e he).other hid hx hw ?_
      intro run₀ hrun₀ _
      rw [hrun₀] at hrel
      obtain ⟨run', hrun', hsame⟩ := rel_some_left hrel
      exact ⟨run', hrun', .inr hsame⟩
  cases act with
  | settle drained =>
    obtain hsame | ⟨outcome, ⟨run₀, run', hrun₀, hset, hstep⟩ | ⟨hset, hstep⟩⟩ :=
      Station.step_settle codec ⟨s.runs x.runId, s.disks x.runId, x⟩ drained
    · rw [hsame] at hw
      subst hw
      exact hkept rfl (relLife_rfl _)
    · rw [hstep] at hw
      subst hw
      obtain ⟨hcurrent, hepoch⟩ := settled_spares hset
      by_cases hr : e.1 = x.runId
      · have hid := hsettle drained run₀ rfl hrun₀ hcurrent e he hr
        obtain ⟨rfl, -, -⟩ := hown hid
        exact works_own hx hstep rfl (.inr ⟨nofun, hepoch.trans hcurrent⟩)
      · have hid : e.2 ≠ id := fun hid => hr (congrArg Prod.fst (hown hid).1)
        exact (h.works e he).other hid hx hstep fun _ _ heq => absurd heq hr
    · rw [hstep] at hw
      subst hw
      by_cases hid : e.2 = id
      · obtain ⟨rfl, hrun, hstate⟩ := hown hid
        refine works_own hx hstep hrun (.inl ?_)
        obtain hterminal | ⟨-, hcurrent⟩ := hstate
        · exact hterminal
        · exact absurd hcurrent (settled_none (hset run hrun))
      · exact (h.works e he).other hid hx hstep fun run₀ hrun₀ _ => ⟨run₀, hrun₀, .inr ⟨rfl, rfl⟩⟩
  | persistAck error =>
    obtain hsame | ⟨hwatch, ⟨rfl, hstep⟩ | ⟨message, hstep⟩⟩ :=
      Station.step_persistAck codec ⟨s.runs x.runId, s.disks x.runId, x⟩ error
    · rw [hsame] at hw
      subst hw
      exact hkept rfl (relLife_rfl _)
    · by_cases hid : e.2 = id
      · obtain ⟨rfl, hrun, -⟩ := hown hid
        have hterminal := hack rfl hwatch he
        rw [System.isTerminal, hrun] at hterminal
        exact works_own hx hstep hrun (.inl hterminal)
      · exact (h.works e he).other hid hx hstep fun run₀ hrun₀ _ => ⟨run₀, hrun₀, .inr ⟨rfl, rfl⟩⟩
    · by_cases hid : e.2 = id
      · obtain ⟨rfl, hrun, -⟩ := hown hid
        have hinterrupted : (s.runs x.runId).map (·.interrupt message) =
            some (run.interrupt message) := by rw [hrun]; rfl
        exact works_own hx hstep hinterrupted (.inl rfl)
      · refine (h.works e he).other hid hx hstep fun run₀ hrun₀ _ =>
          ⟨run₀.interrupt message, ?_, .inl rfl⟩
        show (s.runs x.runId).map _ = _
        rw [hrun₀]
        rfl
  | _ =>
    obtain ⟨hwatch, hrel⟩ : w.exec.watch = x.watch ∧
        Option.Rel TrackedRun.SameLife (s.runs x.runId) w.run := by
      rw [← hw]
      apply Station.step_keeps codec ⟨s.runs x.runId, s.disks x.runId, x⟩ <;> exact fun _ => nofun
    exact hkept hwatch hrel

theorem Held.exec (h : s.Held) (codec : Codec JournalEntry) {id : Nat} {act : ExecAct}
    (hsettles : s.Settles (.exec id act)) : (s.execStep codec id act).Held := by
  obtain ⟨hactive, hretiring, hnext⟩ := execStep_lists codec s id act
  cases hx : s.execs id with
  | none =>
    unfold System.execStep
    rw [hx]
    exact h
  | some x =>
    refine h.lists (by rw [hactive, hretiring]) hnext.ge ?_
    intro e he
    rw [hactive] at he
    exact h.worksExec codec hx hsettles he

/-! ## Runs -/

theorem Held.step (h : s.Held) (codec : Codec JournalEntry) (sessionDir : Bool) {st : Step}
    (hsettles : s.Settles st) : (s.step codec sessionDir st).Held := by
  unfold System.step
  split
  · exact h.launch _ _ _ _
  · exact h.load _ _ _ _ _
  · exact h.resume _ _
  · exact h.pause _
  · exact h.cancel _
  · exact held_drain s
  · exact h.drainEnd _ _
  · exact h.exec codec hsettles
  · exact h

theorem held_run (codec : Codec JournalEntry) (sessionDir : Bool) (steps : List Step)
    (hsettles : SettlesAll codec sessionDir start steps) : (run codec sessionDir steps).Held := by
  have hfold : ∀ (steps : List Step) (s : System), s.Held → SettlesAll codec sessionDir s steps →
      (steps.foldl (System.step codec sessionDir) s).Held := by
    intro steps
    induction steps with
    | nil => exact fun s h _ => h
    | cons st steps ih => exact fun s h hall => ih _ (h.step codec sessionDir hall.1) hall.2
  exact hfold steps start held_start hsettles

/-- `launch` answers `TooManyActiveRuns`, for a new run and for a resumed
one. -/
def tooManyActiveRuns (s : System) : Bool := s.reap.full

/-- These executors have not sent their signal. -/
def AtWork (s : System) (ids : List Nat) : Prop :=
  ids.Nodup ∧ ∀ id ∈ ids, ∃ x, s.execs id = some x ∧ x.live

theorem Held.atWork (h : s.Held) :
    s.AtWork ((s.reap.active ++ s.reap.retiring).map (·.2)) := by
  refine ⟨h.reap.distinct, ?_⟩
  intro id hid
  obtain ⟨e, he, rfl⟩ := List.mem_map.mp hid
  obtain he | he := mem_append.mp he
  · obtain ⟨hactive, hopen⟩ := mem_filter.mp he
    obtain ⟨x, run, hx, -, hrun, hterminal | ⟨hlive, -⟩⟩ := h.works e hactive
    · simp [System.isTerminal, hrun, hterminal] at hopen
    · exact ⟨x, hx, hlive⟩
  · have hfired := (mem_filter.mp he).2
    cases hx : s.execs e.2 with
    | none => simp [System.fired, hx] at hfired
    | some x => exact ⟨x, rfl, by simpa [System.fired, hx, Exec.live] using hfired⟩

/-- When no executor pauses itself or runs out of budget with its receiver in
`active`: a launch is refused for the number of runs only while that many
executors are at work. -/
theorem slots_at_work (codec : Codec JournalEntry) (sessionDir : Bool) (steps : List Step)
    (hsettles : SettlesAll codec sessionDir start steps)
    (hmany : (run codec sessionDir steps).tooManyActiveRuns = true) :
    ∃ ids, (run codec sessionDir steps).AtWork ids ∧ maxActiveRuns ≤ ids.length := by
  refine ⟨_, (held_run codec sessionDir steps hsettles).atWork, ?_⟩
  rw [length_map, length_append]
  exact of_decide_eq_true hmany

def launches : List Step := List.replicate 4 (.launch none true true)

/-- The first run is completed, and its slot is taken by a fifth. -/
def reusedSlot : List Step :=
  launches ++ [.exec 0 (.finish (.completed .null)), .exec 0 (.settle true), .exec 0 (.persistAck none),
    .launch none true true]

theorem reusedSlot_settles : SettlesAll Session.entryCodec true start reusedSlot := by
  refine ⟨trivial, trivial, trivial, trivial, ?_, ?_, ?_, trivial, trivial⟩
  · intro x _
    refine ⟨fun hact => ?_, fun _ _ hact => ?_⟩ <;> cases hact
  · intro x hx
    cases hx
    refine ⟨fun hact => ?_, fun _ _ _ _ _ => by decide⟩
    cases hact
  · intro x hx
    cases hx
    refine ⟨fun _ _ _ => by decide, fun _ _ hact => ?_⟩
    cases hact

theorem slots_at_work_reusedSlot :
    (run Session.entryCodec true (launches ++ (reusedSlot.drop 4).take 3)).tooManyActiveRuns = false ∧
      ∃ ids, (run Session.entryCodec true reusedSlot).AtWork ids ∧ maxActiveRuns ≤ ids.length :=
  ⟨by decide, slots_at_work Session.entryCodec true reusedSlot reusedSlot_settles (by decide)⟩

/-- Four runs pause themselves, and are at rest. -/
def fourPaused : List Step :=
  launches ++ (List.range 4).flatMap fun id =>
    [.exec id (.finish (.paused .backOff [])), .exec id (.settle true), .exec id (.persistAck none)]

/-- No executor is at work, and neither can another run be started nor one of
these be resumed. -/
theorem slots_held_by_paused :
    let s := run Session.entryCodec true fourPaused
    s.tooManyActiveRuns = true ∧ (∀ r, r < 4 → (s.runs r).any mayResume = true) ∧
      ∀ id x, s.execs id = some x → ¬ x.live := by
  refine ⟨by decide, by decide, ?_⟩
  intro id x hx
  match id with
  | 0 | 1 | 2 | 3 =>
    cases hx
    exact not_not.mpr rfl
  | n + 4 => cases hx

end System

end GrokBuild.Workflow
