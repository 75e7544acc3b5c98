import GrokBuild.Workflow.Station

/-!
# Workflows: what the manager leaves alone

The invariant of the manager with its executors: each run has at most one live
executor, and the manager holds a receiver for it. Pausing, cancelling and
draining change no file, no journal and no account (`Quiet`), and lose no
receiver.
-/

namespace GrokBuild.Workflow

open TextLines Str LineLog List

namespace System

/-- The receivers of done signals, dropped or not. -/
def handles (s : System) : List (Nat × Nat) :=
  s.active ++ s.retiring ++ s.abandoned ++
    match s.stage with
    | .draining pending => pending
    | _ => []

/-! ## The invariant -/

/-- Runs, files and executors. -/
structure Core (codec : Codec JournalEntry) (sessionDir : Bool) (s : System) : Prop where
  unused : ∀ r, s.nextRun ≤ r → s.runs r = none
  bare : ∀ r, s.runs r = none → s.disks r = none
  known : ∀ e x, s.execs e = some x → e < s.nextExec ∧ x.runId < s.nextRun
  ended : ∀ e x, s.execs e = some x → ¬ x.live → x.phase.isEnded = true
  alone : ∀ e e' x x', s.execs e = some x → s.execs e' = some x' → x.live → x'.live →
    x.runId = x'.runId → e = e'
  working : ∀ e x, s.execs e = some x → x.live →
    Station.Working codec sessionDir ⟨s.runs x.runId, s.disks x.runId, x⟩
  resting : ∀ r run, s.runs r = some run → run.WithinBudget ∧
    Filed codec (s.disks r) (onFile sessionDir run.agentsUsed)

/-- A live executor of the run. -/
def Busy (s : System) (runId : Nat) : Prop :=
  ∃ e x, s.execs e = some x ∧ x.live ∧ x.runId = runId

structure Inv (codec : Codec JournalEntry) (sessionDir : Bool) (s : System) : Prop
    extends Core codec sessionDir s where
  handled : ∀ e x, s.execs e = some x → x.live → (x.runId, e) ∈ s.handles
  loaded : ∀ l, s.stage = .loaded l → ¬ s.Busy l.runId ∧
    Backed codec sessionDir (s.disks l.runId) l.journal ∧
    Filed codec (s.disks l.runId) (onFile sessionDir (agentEntries l.journal.entries)) ∧
    ∃ run, s.runs l.runId = some run ∧ agentEntries l.journal.entries ≤ run.agentsUsed

theorem inv_start (codec : Codec JournalEntry) (sessionDir : Bool) :
    start.Inv codec sessionDir where
  unused := fun _ _ => rfl
  bare := fun _ _ => rfl
  known := fun _ _ h => by cases h
  ended := fun _ _ h => by cases h
  alone := fun _ _ _ _ h => by cases h
  working := fun _ _ h => by cases h
  resting := fun _ _ h => by cases h
  handled := fun _ _ h => by cases h
  loaded := fun _ h => by cases h

/-! ## Steps that leave the accounts alone -/

theorem rel_some_left {α β : Type} {R : α → β → Prop} {a : α} {b : Option β}
    (h : Option.Rel R (some a) b) : ∃ y, b = some y ∧ R a y := by
  cases h with
  | some hab => exact ⟨_, rfl, hab⟩

theorem rel_some_right {α β : Type} {R : α → β → Prop} {a : Option α} {b : β}
    (h : Option.Rel R a (some b)) : ∃ x, a = some x ∧ R x b := by
  cases h with
  | some hab => exact ⟨_, rfl, hab⟩

theorem rel_trans {α : Type} {R : α → α → Prop} (htrans : ∀ a b c, R a b → R b c → R a c)
    {a b c : Option α} (h : Option.Rel R a b) (h' : Option.Rel R b c) : Option.Rel R a c := by
  cases h with
  | none => exact h'
  | some hab =>
    obtain ⟨y, rfl, hbc⟩ := rel_some_left h'
    exact .some (htrans _ _ _ hab hbc)

/-- The same executor, cancelled or not. -/
def SameWork (x x' : Exec) : Prop :=
  ∃ cancel pauseIntent, x' = { x with cancel := cancel, pauseIntent := pauseIntent }

/-- No file, no journal and no account is changed. -/
structure Quiet (s s' : System) : Prop where
  disks : s'.disks = s.disks
  nextRun : s'.nextRun = s.nextRun
  nextExec : s'.nextExec = s.nextExec
  runs : ∀ r, Option.Rel TrackedRun.SameAccount (s.runs r) (s'.runs r)
  execs : ∀ e, Option.Rel SameWork (s.execs e) (s'.execs e)

theorem sameWork_rfl (x : Exec) : SameWork x x := ⟨x.cancel, x.pauseIntent, rfl⟩

theorem SameWork.trans {x y z : Exec} (h : SameWork x y) (h' : SameWork y z) : SameWork x z := by
  obtain ⟨_, _, rfl⟩ := h
  obtain ⟨cancel, pauseIntent, rfl⟩ := h'
  exact ⟨cancel, pauseIntent, rfl⟩

theorem relAccount_rfl : ∀ run : Option TrackedRun, Option.Rel TrackedRun.SameAccount run run
  | none => .none
  | some _ => .some ⟨rfl, rfl⟩

theorem relWork_rfl : ∀ x : Option Exec, Option.Rel SameWork x x
  | none => .none
  | some x => .some (sameWork_rfl x)

theorem quiet_rfl (s : System) : s.Quiet s :=
  ⟨rfl, rfl, rfl, fun _ => relAccount_rfl _, fun _ => relWork_rfl _⟩

theorem Quiet.trans {s t u : System} (h : s.Quiet t) (h' : t.Quiet u) : s.Quiet u where
  disks := h'.disks.trans h.disks
  nextRun := h'.nextRun.trans h.nextRun
  nextExec := h'.nextExec.trans h.nextExec
  runs := by
    intro r
    refine rel_trans ?_ (h.runs r) (h'.runs r)
    intro a b c hab hbc
    exact ⟨hbc.1.trans hab.1, hbc.2.trans hab.2⟩
  execs := by
    intro e
    refine rel_trans ?_ (h.execs e) (h'.execs e)
    intro x y z hxy hyz
    exact hxy.trans hyz

theorem quiet_setRun {s : System} {r : Nat} {track : TrackedRun → TrackedRun}
    (hsame : ∀ run : TrackedRun, run.SameAccount (track run)) :
    s.Quiet (s.setRun r ((s.runs r).map track)) where
  disks := rfl
  nextRun := rfl
  nextExec := rfl
  runs := by
    intro r'
    by_cases hr : r' = r
    · subst hr
      simp only [setRun, Function.update_self]
      cases s.runs r' with
      | none => exact .none
      | some run => exact .some (hsame run)
    · simp only [setRun, Function.update_of_ne hr]
      exact relAccount_rfl _
  execs := fun _ => relWork_rfl _

theorem quiet_updateExec {s : System} {e : Nat} {f : Exec → Exec} (hf : ∀ x, SameWork x (f x)) :
    s.Quiet (s.updateExec e f) where
  disks := rfl
  nextRun := rfl
  nextExec := rfl
  runs := fun _ => relAccount_rfl _
  execs := by
    intro e'
    by_cases he : e' = e
    · subst he
      simp only [updateExec, Function.update_self]
      cases s.execs e' with
      | none => exact .none
      | some x => exact .some (hf x)
    · simp only [updateExec, Function.update_of_ne he]
      exact relWork_rfl _

theorem quiet_signal (s : System) (handles : List (Nat × Nat)) (pauses : Bool) :
    s.Quiet (s.signal handles pauses) := by
  unfold signal
  induction handles generalizing s with
  | nil => exact quiet_rfl s
  | cons h handles ih => exact (quiet_updateExec fun x => ⟨_, _, rfl⟩).trans (ih _)

theorem quiet_giveUp (s : System) (h : Nat × Nat) : s.Quiet (s.giveUp h) := by
  unfold giveUp
  cases hrun : s.runs h.1 with
  | none => exact quiet_rfl s
  | some run =>
    simp only
    split
    · exact quiet_rfl s
    · have hset := @quiet_setRun s h.1 (·.interrupt shutdownTimedOut)
        fun run => run.sameAccount_interrupt _
      rw [hrun] at hset
      exact hset

theorem quiet_giveUps (s : System) (handles : List (Nat × Nat)) :
    s.Quiet (handles.foldl giveUp s) := by
  induction handles generalizing s with
  | nil => exact quiet_rfl s
  | cons h handles ih => exact (quiet_giveUp s h).trans (ih _)

theorem Quiet.lists {s s' : System} (h : s.Quiet s') (active retiring abandoned : List (Nat × Nat))
    (stage : Stage) :
    s.Quiet { s' with
      active := active, retiring := retiring, abandoned := abandoned, stage := stage } :=
  ⟨h.disks, h.nextRun, h.nextExec, h.runs, h.execs⟩

section

variable {codec : Codec JournalEntry} {sessionDir : Bool} {s s' : System}

theorem Quiet.run_some (h : s.Quiet s') {r : Nat} {run' : TrackedRun} (hrun : s'.runs r = some run') :
    ∃ run, s.runs r = some run ∧ run.SameAccount run' := by
  have hrel := h.runs r
  rw [hrun] at hrel
  exact rel_some_right hrel

theorem Quiet.run_none (h : s.Quiet s') {r : Nat} : s'.runs r = none ↔ s.runs r = none := by
  have hrel := h.runs r
  constructor
  · intro hnone
    rw [hnone] at hrel
    cases hs : s.runs r with
    | none => rfl
    | some run =>
      rw [hs] at hrel
      cases hrel
  · intro hnone
    rw [hnone] at hrel
    cases hs : s'.runs r with
    | none => rfl
    | some run =>
      rw [hs] at hrel
      cases hrel

theorem Quiet.exec_some (h : s.Quiet s') {e : Nat} {x' : Exec} (hx : s'.execs e = some x') :
    ∃ x, s.execs e = some x ∧ SameWork x x' := by
  have hrel := h.execs e
  rw [hx] at hrel
  exact rel_some_right hrel

theorem Core.quiet (h : s.Core codec sessionDir) (hq : s.Quiet s') : s'.Core codec sessionDir where
  unused := fun r hr => hq.run_none.mpr (h.unused r (hq.nextRun ▸ hr))
  bare := fun r hr => by
    rw [hq.disks]
    exact h.bare r (hq.run_none.mp hr)
  known := by
    intro e x' hx'
    obtain ⟨x, hx, _, _, rfl⟩ := hq.exec_some hx'
    rw [hq.nextExec, hq.nextRun]
    exact h.known e x hx
  ended := by
    intro e x' hx' hdead
    obtain ⟨x, hx, _, _, rfl⟩ := hq.exec_some hx'
    exact h.ended e x hx hdead
  alone := by
    intro e e' x x' hx hx' hlive hlive' hr
    obtain ⟨y, hy, _, _, rfl⟩ := hq.exec_some hx
    obtain ⟨y', hy', _, _, rfl⟩ := hq.exec_some hx'
    exact h.alone e e' y y' hy hy' hlive hlive' hr
  working := by
    intro e x' hx' hlive
    obtain ⟨x, hx, cancel, pauseIntent, rfl⟩ := hq.exec_some hx'
    have hwork := h.working e x hx hlive
    obtain ⟨run, hrun, hbudget, hfiled, hused⟩ := hwork.run
    have hrel := hq.runs x.runId
    rw [show s.runs x.runId = some run from hrun] at hrel
    obtain ⟨run', hrun', hsame⟩ := rel_some_left hrel
    rw [hq.disks]
    refine ⟨⟨run', hrun', hbudget.same hsame, ?_, ?_⟩, hwork.counted, hwork.backed⟩
    · rw [hsame.2]
      exact hfiled
    · rw [hsame.2]
      exact hused
  resting := by
    intro r run' hrun'
    obtain ⟨run, hrun, hsame⟩ := hq.run_some hrun'
    obtain ⟨hbudget, hfiled⟩ := h.resting r run hrun
    rw [hq.disks, hsame.2]
    exact ⟨hbudget.same hsame, hfiled⟩

theorem Inv.quiet (h : s.Inv codec sessionDir) (hq : s.Quiet s')
    (hhandles : ∀ e x, s.execs e = some x → x.live → (x.runId, e) ∈ s.handles →
      (x.runId, e) ∈ s'.handles)
    (hstage : ∀ l, s'.stage ≠ .loaded l) : s'.Inv codec sessionDir where
  toCore := h.toCore.quiet hq
  handled := by
    intro e x' hx' hlive
    obtain ⟨x, hx, _, _, rfl⟩ := hq.exec_some hx'
    exact hhandles e x hx hlive (h.handled e x hx hlive)
  loaded := fun l hl => absurd hl (hstage l)

/-! ## The manager -/

theorem not_fired {e : Nat} {x : Exec} (hx : s.execs e = some x)
    (hlive : x.live) (r : Nat) : s.fired (r, e) = false := by
  simp only [fired, hx, decide_eq_false_iff_not]
  exact hlive

theorem mem_handles_idle (hidle : s.stage = .idle) {h : Nat × Nat} :
    h ∈ s.handles ↔ h ∈ s.active ∨ h ∈ s.retiring ∨ h ∈ s.abandoned := by
  simp [handles, hidle]

theorem not_loaded (hidle : s.stage = .idle) (l : Loaded) : s.stage ≠ .loaded l := by
  rw [hidle]
  intro h
  cases h

theorem Inv.reap (h : s.Inv codec sessionDir) (hidle : s.stage = .idle) :
    s.reap.Inv codec sessionDir := by
  refine h.quiet ⟨rfl, rfl, rfl, fun _ => relAccount_rfl _, fun _ => relWork_rfl _⟩ ?_ ?_
  · intro e x hx hlive hmem
    have hfired := not_fired hx hlive x.runId
    rw [mem_handles_idle (s := s.reap) hidle]
    rcases (mem_handles_idle hidle).mp hmem with hactive | hretiring | habandoned
    · cases hterminal : s.isTerminal x.runId with
      | true => exact .inr (.inl (by simp [System.reap, hactive, hterminal, hfired]))
      | false => exact .inl (by simp [System.reap, hactive, hterminal])
    · exact .inr (.inl (by simp [System.reap, hretiring, hfired]))
    · exact .inr (.inr habandoned)
  · exact not_loaded hidle

theorem mem_retire (s : System) (runId : Nat) {h : Nat × Nat} :
    h ∈ s.active ∨ h ∈ s.retiring ↔ h ∈ (s.retire runId).active ∨ h ∈ (s.retire runId).retiring := by
  by_cases hr : h.1 = runId <;> simp [retire, hr, or_comm]

theorem signal_lists (s : System) (handles : List (Nat × Nat)) (pauses : Bool) :
    (s.signal handles pauses).active = s.active ∧ (s.signal handles pauses).retiring = s.retiring ∧
      (s.signal handles pauses).abandoned = s.abandoned ∧
      (s.signal handles pauses).stage = s.stage := by
  unfold signal
  induction handles generalizing s with
  | nil => exact ⟨rfl, rfl, rfl, rfl⟩
  | cons h handles ih => exact ih _

theorem Inv.retire (h : s.Inv codec sessionDir) (hidle : s.stage = .idle) {t : System}
    (hq : s.Quiet t) (hactive : t.active = s.active) (hretiring : t.retiring = s.retiring)
    (habandoned : t.abandoned = s.abandoned) (hstage : t.stage = s.stage) (runId : Nat) :
    (t.retire runId).Inv codec sessionDir := by
  refine h.quiet (hq.lists _ _ _ _) ?_ ?_
  · intro e x hx hlive hmem
    rw [mem_handles_idle (s := t.retire runId) (hstage.trans hidle), ← or_assoc,
      ← mem_retire t runId, hactive, hretiring, or_assoc]
    have hmem := (mem_handles_idle hidle).mp hmem
    rwa [← habandoned] at hmem
  · exact not_loaded (hstage.trans hidle)

theorem Inv.setRun (h : s.Inv codec sessionDir) (hidle : s.stage = .idle) {r : Nat}
    {track : TrackedRun → TrackedRun} (hsame : ∀ run : TrackedRun, run.SameAccount (track run)) :
    (s.setRun r ((s.runs r).map track)).Inv codec sessionDir := by
  exact h.quiet (quiet_setRun hsame) (fun _ _ _ _ hmem => hmem) (not_loaded hidle)

theorem Inv.pause (h : s.Inv codec sessionDir) (hidle : s.stage = .idle) (runId : Nat) :
    (s.pause runId).Inv codec sessionDir := by
  unfold System.pause
  split
  · exact h.retire hidle (quiet_rfl s) rfl rfl rfl rfl runId
  split
  · exact h
  · obtain ⟨hactive, hretiring, habandoned, hstage⟩ :=
      signal_lists s (s.active.filter (·.1 = runId)) true
    exact (h.retire hidle (quiet_signal s _ _) hactive hretiring habandoned hstage runId).setRun
      (hstage.trans hidle) TrackedRun.sameAccount_pauseUser

theorem Inv.cancel (h : s.Inv codec sessionDir) (hidle : s.stage = .idle) (runId : Nat) :
    (s.cancel runId).Inv codec sessionDir := by
  unfold System.cancel
  split
  · exact h.retire hidle (quiet_rfl s) rfl rfl rfl rfl runId
  · obtain ⟨hactive, hretiring, habandoned, hstage⟩ :=
      signal_lists s (s.active.filter (·.1 = runId)) false
    exact (h.retire hidle (quiet_signal s _ _) hactive hretiring habandoned hstage runId).setRun
      (hstage.trans hidle) fun run => run.sameAccount_applyOutcome _

theorem Inv.drain (h : s.Inv codec sessionDir) (hidle : s.stage = .idle) :
    s.drain.Inv codec sessionDir := by
  refine h.quiet ((quiet_signal s _ _).lists _ _ _ _) ?_ (fun l => nofun)
  intro e x _ _ hmem
  have habandoned := (signal_lists s s.active false).2.2.1
  have hmem := (mem_handles_idle hidle).mp hmem
  simp only [handles, System.drain, nil_append, mem_append, habandoned]
  tauto

theorem giveUps_lists (s : System) (handles : List (Nat × Nat)) :
    (handles.foldl giveUp s).active = s.active ∧ (handles.foldl giveUp s).retiring = s.retiring := by
  induction handles generalizing s with
  | nil => exact ⟨rfl, rfl⟩
  | cons h handles ih =>
    have hone : (s.giveUp h).active = s.active ∧ (s.giveUp h).retiring = s.retiring := by
      unfold giveUp
      split
      · exact ⟨rfl, rfl⟩
      · split <;> exact ⟨rfl, rfl⟩
    obtain ⟨hactive, hretiring⟩ := ih (s.giveUp h)
    exact ⟨hactive.trans hone.1, hretiring.trans hone.2⟩

theorem Inv.drainEnd (h : s.Inv codec sessionDir) {pending : List (Nat × Nat)}
    (hstage : s.stage = .draining pending) (timedOut : List (Nat × Nat)) :
    (s.drainEnd pending timedOut).Inv codec sessionDir := by
  unfold System.drainEnd
  split
  · next hwaited =>
    refine h.quiet ((quiet_giveUps s timedOut).lists _ _ _ _) ?_ (fun l => nofun)
    intro e x hx hlive hmem
    obtain ⟨hactive, hretiring⟩ := giveUps_lists s timedOut
    simp only [handles, hstage, mem_append] at hmem
    simp only [handles, append_nil, mem_append, hactive, hretiring]
    rcases hmem with ((hmem | hmem) | hmem) | hmem
    · exact .inl (.inl hmem)
    · exact .inl (.inr hmem)
    · exact .inr (.inl hmem)
    · -- a live executor has no signal to wait for
      rcases hwaited.2 _ hmem with hmem | hfired
      · exact .inr (.inr hmem)
      · rw [not_fired hx hlive x.runId] at hfired
        cases hfired
  · exact h

end

end System

end GrokBuild.Workflow
