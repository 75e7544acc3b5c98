import GrokBuild.Workflow.Manager

/-!
# Workflows: one executor at work

What holds of an executor, its run and its file as long as no other executor
works on the same run: the file is the journal, and the account of the run
covers the agents in the journal and the ones that are reserved
(`Working.step`).
-/

namespace GrokBuild.Workflow

open TextLines Str LineLog

/-- The agents in a journal. -/
def agentEntries (entries : List JournalEntry) : Nat :=
  (entries.filter fun e => e.kind == spawnAgent).length

@[simp] theorem agentEntries_append (as bs : List JournalEntry) :
    agentEntries (as ++ bs) = agentEntries as + agentEntries bs := by
  simp [agentEntries]

theorem agentEntries_singleton (e : JournalEntry) :
    agentEntries [e] = if e.kind = spawnAgent then 1 else 0 := by
  by_cases h : e.kind = spawnAgent <;> simp [agentEntries, h]

theorem agentEntries_dropLast_le (entries : List JournalEntry) :
    agentEntries entries.dropLast ≤ agentEntries entries :=
  ((List.dropLast_sublist entries).filter _).length_le

/-! ## The file -/

/-- The file is a log with at most a torn end, and not more agents in it than
this, the torn end included. -/
def Filed (codec : Codec JournalEntry) (disk : Disk) (agents : Nat) : Prop :=
  ∃ kept torn, Session.Sound codec ⟨disk, none, kept, torn⟩ ∧
    agentEntries (kept ++ Session.survivor codec ⟨disk, none, kept, torn⟩) ≤ agents

/-- The agents that the file of a run may hold. -/
def onFile (sessionDir : Bool) (used : Nat) : Nat := if sessionDir then used else 0

/-- The file is the journal, if there are files. -/
def Backed (codec : Codec JournalEntry) (sessionDir : Bool) (disk : Disk) (j : Journal) : Prop :=
  if sessionDir then Session.Sound codec ⟨disk, some j, j.entries, none⟩ else j.path = false

section

variable {codec : Codec JournalEntry} {sessionDir : Bool} {disk : Disk} {j : Journal}

theorem filed_none (agents : Nat) : Filed codec none agents :=
  ⟨[], none, (Session.Sound.start codec).stopped, Nat.zero_le _⟩

theorem Filed.mono {n m : Nat} (h : Filed codec disk n) (hle : n ≤ m) : Filed codec disk m := by
  obtain ⟨kept, torn, hsound, hagents⟩ := h
  exact ⟨kept, torn, hsound, hagents.trans hle⟩

theorem Backed.filed (h : Backed codec true disk j) : Filed codec disk (agentEntries j.entries) := by
  have hsound : Session.Sound codec ⟨disk, some j, j.entries, none⟩ := h
  refine ⟨j.entries, none, hsound.stopped, ?_⟩
  simp [Session.survivor]

theorem backed_new : Backed codec sessionDir none (.new sessionDir) := by
  cases sessionDir with
  | true => exact Session.Sound.start codec
  | false => rfl

theorem Backed.record (h : Backed codec sessionDir disk j) {e : JournalEntry}
    (hlawful : codec.Lawful e) (write : Write) :
    (∃ j' disk', j.record codec e.seq e.kind e.reqHash e.result e.atMs disk write = (.ok j', disk') ∧
      j'.entries = j.entries ++ [e] ∧ Backed codec sessionDir disk' j' ∧
      (sessionDir = false → disk' = disk)) ∨
    ∃ err disk', j.record codec e.seq e.kind e.reqHash e.result e.atMs disk write =
        (.error err, disk') ∧ (sessionDir = false → disk' = disk) ∧
      (sessionDir = true → Filed codec disk' (agentEntries (j.entries ++ [e]))) := by
  rcases Session.record_cases j e disk write with ⟨err, _, hrecord⟩ | ⟨hseq, hfits⟩
  · -- refused before anything is written
    refine .inr ⟨err, disk, hrecord, fun _ => rfl, ?_⟩
    intro hdir
    subst hdir
    exact h.filed.mono (by simp)
  · cases sessionDir with
    | true =>
      have hsound : Session.Sound codec ⟨disk, some j, j.entries, none⟩ := h
      have hpath : j.path = true := (hsound.memory j rfl).2.2.1
      have hrecord := Session.record_append hpath hseq hfits disk write
      cases write with
      | done =>
        have hnext := @Session.Sound.record codec _ hsound e.seq e.kind e.reqHash e.result e.atMs hlawful
        simp only [Session.step, hrecord] at hnext
        refine .inl ⟨_, _, hrecord, rfl, hnext, ?_⟩
        intro hdir
        cases hdir
      | fails written =>
        -- the torn entry may still be read, and was counted as reserved
        have hnext := @Session.Sound.recordStopped codec _ hsound e.seq e.kind e.reqHash e.result e.atMs
          written hlawful
        simp only [Session.step, hrecord] at hnext
        refine .inr ⟨_, _, hrecord, ?_, ?_⟩
        · intro hdir
          cases hdir
        · intro _
          refine ⟨_, _, hnext, ?_⟩
          simp only [Session.survivor]
          split <;> simp
    | false =>
      have hpath : j.path = false := h
      have hvalid : validateSequence j.entries e = .ok () := if_neg (not_not.mpr hseq)
      have hsum := Session.saturatingAdd_le hfits
      refine .inl ⟨⟨j.entries ++ [e], false, j.bytes + (codec.line e).length, some j.bytes⟩, disk,
        ?_, rfl, rfl, fun _ => rfl⟩
      simp only [Journal.record, hvalid]
      show (if saturatingAdd j.bytes (codec.line e).length > maxJournalBytes then _ else _) = _
      rw [hsum, if_neg (by omega), hpath]
      rfl
variable {disk' : Disk}

theorem prune_false {failureDetail : Text} {j' : Journal}
    (h : j.pruneTrailingHostError failureDetail disk = (.ok (false, j'), disk')) :
    j' = j ∧ disk' = disk := by
  unfold Journal.pruneTrailingHostError at h
  split at h
  · cases h
    exact ⟨rfl, rfl⟩
  split at h
  · cases h
    exact ⟨rfl, rfl⟩
  split at h
  · cases h
    exact ⟨rfl, rfl⟩
  split at h
  · cases h
  · split at h
    · split at h <;> cases h
    · cases h

theorem Backed.prune (h : Backed codec true disk j) (failureDetail : Text) {j' : Journal}
    {pruned : Bool}
    (hprune : j.pruneTrailingHostError failureDetail disk = (.ok (pruned, j'), disk')) :
    Backed codec true disk' j' ∧ agentEntries j'.entries ≤ agentEntries j.entries := by
  have hsound : Session.Sound codec ⟨disk, some j, j.entries, none⟩ := h
  have hnext := hsound.prune failureDetail
  simp only [Session.step, hprune] at hnext
  cases pruned with
  | true =>
    have hentries : j'.entries = j.entries.dropLast := (hnext.memory j' rfl).2.1
    refine ⟨?_, hentries ▸ agentEntries_dropLast_le _⟩
    show Session.Sound codec ⟨disk', some j', j'.entries, none⟩
    rw [hentries]
    exact hnext
  | false =>
    obtain ⟨rfl, rfl⟩ := prune_false hprune
    exact ⟨h, le_rfl⟩

theorem prune_error {failureDetail : Text} {e : JournalError}
    (hprune : j.pruneTrailingHostError failureDetail disk = (.error e, disk')) :
    disk' = disk := by
  unfold Journal.pruneTrailingHostError at hprune
  split at hprune
  · cases hprune
  split at hprune
  · cases hprune
  split at hprune
  · cases hprune
  split at hprune
  · cases hprune
    rfl
  · split at hprune
    · split at hprune <;> cases hprune
      rfl
    · cases hprune

section Load

variable (hblank : ∀ b, isBlank b = true → codec.decode b = none)

include hblank

theorem Filed.load {agents : Nat} (h : Filed codec disk agents) :
    (∃ j disk', Journal.load codec disk = (.ok j, disk') ∧ Backed codec true disk' j ∧
      agentEntries j.entries ≤ agents) ∨
    Journal.load codec disk = (.error tooManyEntries, disk) := by
  obtain ⟨kept, torn, hsound, hagents⟩ := h
  by_cases hcap : (kept ++ Session.survivor codec ⟨disk, none, kept, torn⟩).length
      ≤ maxJournalEntries
  · obtain ⟨disk', hload, _⟩ := hsound.load hblank hcap
    exact .inl ⟨_, disk', hload, hsound.loaded hblank hload, hagents⟩
  · exact .inr (hsound.load_refused hblank (Nat.lt_of_not_le hcap))

theorem Filed.openJournal {run : TrackedRun}
    (h : Filed codec disk (onFile sessionDir run.agentsUsed)) :
    (∃ disk', System.openJournal codec sessionDir run disk = (none, disk') ∧
      Filed codec disk' (onFile sessionDir run.agentsUsed)) ∨
    ∃ j disk', System.openJournal codec sessionDir run disk = (some j, disk') ∧
      Backed codec sessionDir disk' j ∧ agentEntries j.entries ≤ run.agentsUsed ∧
      Filed codec disk' (onFile sessionDir (agentEntries j.entries)) := by
  cases sessionDir with
  | false =>
    refine .inr ⟨.new false, disk, ?_, rfl, Nat.zero_le _, h⟩
    simp only [System.openJournal, System.loadJournal, Bool.false_eq_true, if_false]
    split <;> rfl
  | true =>
    rcases h.load hblank with ⟨j, disk', hload, hbacked, hagents⟩ | hrefused
    · simp only [System.openJournal, System.loadJournal, if_true, hload]
      split
      · -- a failed run: its last entry may be taken away
        cases hprune : j.pruneTrailingHostError (run.pauseMessage.getD []) disk' with
        | mk result disk'' =>
          cases result with
          | error e =>
            obtain rfl := prune_error hprune
            exact .inl ⟨disk'', rfl, hbacked.filed.mono hagents⟩
          | ok p =>
            obtain ⟨pruned, j'⟩ := p
            obtain ⟨hbacked', hle⟩ := hbacked.prune _ hprune
            exact .inr ⟨j', disk'', rfl, hbacked', hle.trans hagents, hbacked'.filed⟩
      · exact .inr ⟨j, disk', rfl, hbacked, hagents, hbacked.filed⟩
    · exact .inl ⟨disk, by simp [System.openJournal, System.loadJournal, hrefused], h⟩

end Load

end

/-! ## An executor alone on its run -/

/-- The agents that a phase still answers for. -/
def Phase.count : Phase → Nat
  | .persisting count | .agents count | .recording count | .releasing count _ => count
  | _ => 0

def Phase.isEnded : Phase → Bool
  | .ended _ => true
  | _ => false

/-- What holds of an executor until its done signal, as long as it is alone. -/
structure Station.Working (codec : Codec JournalEntry) (sessionDir : Bool) (w : Station) :
    Prop where
  run : ∃ run, w.run = some run ∧ run.WithinBudget ∧
    Filed codec w.disk (onFile sessionDir run.agentsUsed) ∧
    agentEntries w.exec.journal.entries + w.exec.reserved ≤ run.agentsUsed
  counted : w.exec.phase.count ≤ w.exec.reserved
  backed : w.exec.phase.isEnded = false → Backed codec sessionDir w.disk w.exec.journal

/-- The entry that a step wants to record. -/
def ExecAct.entry? : ExecAct → Option JournalEntry
  | .record seq kind hash result now _ _ => some ⟨seq, kind, hash, result, now⟩
  | .recordAgent seq hash result now _ _ => some ⟨seq, spawnAgent, hash, result, now⟩
  | _ => none

namespace Station

variable {codec : Codec JournalEntry} {sessionDir : Bool} {w : Station} {phase : Phase}
theorem Working.goto (h : w.Working codec sessionDir)
    (hcount : phase.count ≤ w.exec.reserved)
    (hended : phase.isEnded = false → w.exec.phase.isEnded = false) :
    (w.goto phase).Working codec sessionDir :=
  ⟨h.run, hcount, fun hphase => h.backed (hended hphase)⟩

theorem Working.write (h : w.Working codec sessionDir) {entry : JournalEntry}
    (hlawful : codec.Lawful entry) {write : Write} {refusal : Text} {next : Phase} {agents : Nat}
    (hopen : w.exec.phase.isEnded = false) (hagents : agents ≤ w.exec.reserved)
    (hkind : agentEntries [entry] = agents) (hnext : next.count ≤ w.exec.reserved - agents) :
    (w.write codec entry write refusal next agents).Working codec sessionDir := by
  obtain ⟨run, hrun, hbudget, hfiled, hused⟩ := h.run
  have hsum : agentEntries (w.exec.journal.entries ++ [entry]) ≤ run.agentsUsed := by
    rw [agentEntries_append, hkind]
    omega
  rcases (h.backed hopen).record hlawful write with
    ⟨j, disk, hrecord, hentries, hbacked, hsame⟩ | ⟨err, disk, hrecord, hsame, hfiled'⟩
  · simp only [Station.write, hrecord]
    refine ⟨⟨run, hrun, hbudget, ?_, ?_⟩, hnext, fun _ => hbacked⟩
    · show Filed codec disk (onFile sessionDir run.agentsUsed)
      cases sessionDir with
      | true => exact hbacked.filed.mono (hentries ▸ hsum)
      | false => exact hsame rfl ▸ hfiled
    · show agentEntries j.entries + (w.exec.reserved - agents) ≤ run.agentsUsed
      rw [hentries, agentEntries_append, hkind]
      omega
  · simp only [Station.write, hrecord]
    refine ⟨⟨run, hrun, hbudget, ?_, hused⟩, Nat.zero_le _, nofun⟩
    show Filed codec disk (onFile sessionDir run.agentsUsed)
    cases sessionDir with
    | true => exact (hfiled' rfl).mono hsum
    | false => exact hsame rfl ▸ hfiled

theorem Working.release (h : w.Working codec sessionDir) {count : Nat}
    (hcount : count ≤ w.exec.reserved) (hopen : w.exec.phase.isEnded = false)
    (hphase : phase.count = 0) :
    Working codec sessionDir { w with
      run := w.run.map (·.releaseAgents count)
      exec := { w.exec with phase := phase, reserved := w.exec.reserved - count } } := by
  obtain ⟨run, hrun, hbudget, hfiled, hused⟩ := h.run
  have hbacked := h.backed hopen
  refine ⟨⟨run.releaseAgents count, by simp [hrun], hbudget.lower (Nat.sub_le _ _), ?_, ?_⟩, ?_,
    fun _ => hbacked⟩
  · show Filed codec w.disk (onFile sessionDir (run.agentsUsed - count))
    cases sessionDir with
    | true =>
      -- what is released was reserved, and so it is not in the file
      refine hbacked.filed.mono ?_
      show _ ≤ run.agentsUsed - count
      omega
    | false => exact hfiled
  · show agentEntries w.exec.journal.entries + (w.exec.reserved - count) ≤ run.agentsUsed - count
    omega
  · show phase.count ≤ w.exec.reserved - count
    omega

theorem Working.retrack (h : w.Working codec sessionDir) {run run' : TrackedRun}
    (hrun : w.run = some run) (hsame : run.SameAccount run') (watch : Watch) :
    Working codec sessionDir { w with run := some run', exec := { w.exec with watch := watch } } := by
  obtain ⟨run₀, hrun₀, hbudget, hfiled, hused⟩ := h.run
  rw [hrun] at hrun₀
  cases hrun₀
  exact ⟨⟨run', rfl, hbudget.same hsame, by rw [hsame.2]; exact hfiled, by rw [hsame.2]; exact hused⟩,
    h.counted, h.backed⟩

theorem Working.count_le (h : w.Working codec sessionDir)
    (hphase : w.exec.phase = phase) : phase.count ≤ w.exec.reserved := hphase ▸ h.counted

theorem Working.serveReserve (h : w.Working codec sessionDir) {count : Nat}
    (hphase : w.exec.phase = .reserving count) :
    (w.step codec .serveReserve).Working codec sessionDir := by
  obtain ⟨run, hrun, hbudget, hfiled, hused⟩ := h.run
  simp only [step, hphase, hrun]
  cases hreserve : run.reserveAgents count with
  | error e => exact h.goto (Nat.zero_le _) nofun
  | ok run' =>
    obtain ⟨hbudget', hsum⟩ := hbudget.reserve hreserve
    refine ⟨⟨run', rfl, hbudget', ?_, ?_⟩, Nat.le_add_left _ _, fun _ => h.backed (by rw [hphase]; rfl)⟩
    · show Filed codec w.disk (onFile sessionDir run'.agentsUsed)
      cases sessionDir with
      | true =>
        refine hfiled.mono ?_
        show run.agentsUsed ≤ run'.agentsUsed
        omega
      | false => exact hfiled
    · show agentEntries w.exec.journal.entries + (w.exec.reserved + count) ≤ run'.agentsUsed
      omega
variable {outcome : RunOutcome}

theorem settled_same {x : Exec} {drained : Bool} {run run' : TrackedRun}
    (h : settled x outcome drained run = some run') : run.SameAccount run' := by
  unfold settled at h
  split at h
  · cases h
  split at h
  · cases h
    exact run.sameAccount_interrupt _
  · split at h <;> cases h
    · exact run.sameAccount_pauseUser
    · exact run.sameAccount_pauseUser
    · exact run.sameAccount_applyOutcome _

theorem Working.settle (h : w.Working codec sessionDir)
    (hphase : w.exec.phase = .ended outcome) (drained : Bool) :
    (w.step codec (.settle drained)).Working codec sessionDir := by
  obtain ⟨_, disk, runId, epoch, journal, cancel, pauseIntent, _, reserved, watch⟩ := w
  obtain rfl : _ = Phase.ended outcome := hphase
  obtain ⟨run, rfl, _⟩ := h.run
  cases watch with
  | waiting =>
    simp only [Station.step, Option.bind_some]
    cases hsettled : settled _ outcome drained run with
    | none => exact ⟨h.run, h.counted, h.backed⟩
    | some run' => exact h.retrack rfl (settled_same hsettled) .updated
  | updated => exact h
  | done => exact h

theorem Working.persistAck (h : w.Working codec sessionDir)
    (hphase : w.exec.phase = .ended outcome) (error : Option Text) :
    (w.step codec (.persistAck error)).Working codec sessionDir := by
  obtain ⟨_, disk, runId, epoch, journal, cancel, pauseIntent, _, reserved, watch⟩ := w
  obtain rfl : _ = Phase.ended outcome := hphase
  obtain ⟨run, rfl, _⟩ := h.run
  cases watch with
  | waiting => exact h
  | updated =>
    cases error with
    | none => exact ⟨h.run, h.counted, h.backed⟩
    | some error => exact h.retrack rfl (run.sameAccount_interrupt _) .done
  | done => exact h

/-- Whatever the executor, its host service or its watcher does. -/
theorem Working.step (h : w.Working codec sessionDir) {act : ExecAct}
    (hlawful : ∀ e ∈ act.entry?, codec.Lawful e) :
    (w.step codec act).Working codec sessionDir := by
  cases hphase : w.exec.phase with
  | script =>
    have hopen : w.exec.phase.isEnded = false := by rw [hphase]; rfl
    cases act with
    | record seq kind hash result now write refusal =>
      simp only [Station.step, hphase]
      split
      · exact h
      · next hkind =>
        exact h.write (hlawful _ rfl) hopen (Nat.zero_le _)
          (by rw [agentEntries_singleton, if_neg hkind]) (Nat.zero_le _)
    | finish outcome =>
      simp only [Station.step, hphase]
      exact h.goto (Nat.zero_le _) nofun
    | reserve count =>
      simp only [Station.step, hphase]
      split
      · exact h
      · exact h.goto (Nat.zero_le _) fun _ => hopen
    | _ => simpa only [Station.step, hphase] using h
  | reserving count =>
    cases act with
    | serveReserve => exact h.serveReserve hphase
    | refuse gone =>
      simp only [Station.step, hphase]
      split
      · exact h.goto (Nat.zero_le _) nofun
      · exact h
    | _ => simpa only [Station.step, hphase] using h
  | persisting count =>
    have hopen : w.exec.phase.isEnded = false := by rw [hphase]; rfl
    have hcount : count ≤ w.exec.reserved := h.count_le hphase
    cases act with
    | persistReserve ok =>
      simp only [Station.step, hphase]
      split
      · exact h.goto hcount fun _ => hopen
      · exact h.release hcount hopen rfl
    | _ => simpa only [Station.step, hphase] using h
  | agents count =>
    have hopen : w.exec.phase.isEnded = false := by rw [hphase]; rfl
    have hcount : count ≤ w.exec.reserved := h.count_le hphase
    cases act with
    | answer =>
      simp only [Station.step, hphase]
      exact h.goto hcount fun _ => hopen
    | lose =>
      rcases count with _ | _ | count
      · simpa only [Station.step, hphase] using h
      · simp only [Station.step, hphase]
        exact h.goto (Nat.zero_le _) fun _ => hopen
      · simpa only [Station.step, hphase] using h
    | abort error =>
      simp only [Station.step, hphase]
      exact h.goto (Nat.zero_le _) nofun
    | giveBack outcome =>
      simp only [Station.step, hphase]
      split
      · exact h.goto hcount fun _ => hopen
      · exact h
    | _ => simpa only [Station.step, hphase] using h
  | recording count =>
    have hopen : w.exec.phase.isEnded = false := by rw [hphase]; rfl
    have hcount : count ≤ w.exec.reserved := h.count_le hphase
    cases act with
    | recordAgent seq hash result now write refusal =>
      cases count with
      | zero => simpa only [Station.step, hphase] using h
      | succ count =>
        simp only [Station.step, hphase]
        refine h.write (hlawful _ rfl) hopen (by omega) rfl ?_
        split
        · exact Nat.zero_le _
        · show count ≤ w.exec.reserved - 1
          omega
    | _ => simpa only [Station.step, hphase] using h
  | releasing count outcome =>
    have hopen : w.exec.phase.isEnded = false := by rw [hphase]; rfl
    have hcount : count ≤ w.exec.reserved := h.count_le hphase
    cases act with
    | refuse gone =>
      simp only [Station.step, hphase]
      split
      · exact h.goto (Nat.zero_le _) nofun
      · exact h
    | serveRelease =>
      simp only [Station.step, hphase]
      exact h.release hcount hopen rfl
    | _ => simpa only [Station.step, hphase] using h
  | ended outcome =>
    cases act with
    | settle drained => exact h.settle hphase drained
    | persistAck error => exact h.persistAck hphase error
    | _ => simpa only [Station.step, hphase] using h

/-! ### What a step leaves alone -/

theorem write_exec (w : Station) (entry : JournalEntry) (write : Write) (refusal : Text)
    (next : Phase) (agents : Nat) :
    (w.write codec entry write refusal next agents).exec.runId = w.exec.runId ∧
      (w.write codec entry write refusal next agents).exec.watch = w.exec.watch := by
  unfold Station.write
  split <;> exact ⟨rfl, rfl⟩

theorem step_runId (w : Station) (act : ExecAct) :
    (w.step codec act).exec.runId = w.exec.runId := by
  unfold Station.step
  split
  all_goals try rfl
  all_goals repeat' split
  all_goals first
    | rfl
    | exact (write_exec _ _ _ _ _ _).1

/-- Before its end an executor has no done signal. -/
theorem step_watch {w : Station} (hopen : w.exec.phase.isEnded = false) (act : ExecAct) :
    (w.step codec act).exec.watch = w.exec.watch := by
  unfold Station.step
  split
  all_goals try rfl
  all_goals repeat' split
  all_goals first
    | rfl
    | exact (write_exec _ _ _ _ _ _).2
    | simp_all [Phase.isEnded]

/-- Behind its end only the watcher is left. -/
theorem step_ended {w : Station} (hended : w.exec.phase.isEnded = true) (act : ExecAct) :
    (w.step codec act).exec.phase = w.exec.phase := by
  obtain ⟨run, disk, runId, epoch, journal, cancel, pauseIntent, phase, reserved, watch⟩ := w
  cases phase with
  | ended outcome =>
    cases act with
    | settle drained =>
      cases watch with
      | waiting =>
        simp only [Station.step]
        split <;> rfl
      | _ => rfl
    | persistAck error => cases watch <;> rfl
    | _ => rfl
  | _ => cases hended

theorem step_done {w : Station} (hended : w.exec.phase.isEnded = true)
    (hdone : w.exec.watch = .done) (act : ExecAct) : w.step codec act = w := by
  obtain ⟨run, disk, runId, epoch, journal, cancel, pauseIntent, phase, reserved, watch⟩ := w
  obtain rfl : watch = .done := hdone
  cases phase with
  | ended outcome => cases act <;> rfl
  | _ => cases hended

end Station

end GrokBuild.Workflow
