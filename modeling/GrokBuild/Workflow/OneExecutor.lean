import GrokBuild.Workflow.Accounts

/-!
# Workflows: one executor for each run

`launch` looks at the status of a run to resume, and not at its executors.
When a run is resumed only behind the done signals of the executors before
(`Waits`), no two executors work on one run, its journal stays dense, and its
agents stay accounted for. The headlines are `one_executor` and
`agents_within_budget`.
-/

namespace GrokBuild.Workflow

open TextLines Str LineLog List

/-- The entry that a step wants to record. -/
def Step.entry? : Step → Option JournalEntry
  | .exec _ act => act.entry?
  | _ => none

namespace System

/-- A run is resumed, and the resume not refused, only when the signals for it
have come: from the executors in `active` and `retiring`, and from the ones that
a drain did not wait for. -/
def Waits (s : System) : Step → Prop
  | .load runId _ sourcesMatch =>
    s.stage = .idle → s.reap.full = false → sourcesMatch = true →
      (∃ run, s.runs runId = some run ∧ mayResume run = true) →
      ∀ h ∈ s.active ++ s.retiring ++ s.abandoned, h.1 = runId → s.fired h = true
  | _ => True

/-- Every step of the run waits. -/
def WaitsAll (codec : Codec JournalEntry) (sessionDir : Bool) : System → List Step → Prop
  | _, [] => True
  | s, st :: steps => s.Waits st ∧ WaitsAll codec sessionDir (s.step codec sessionDir st) steps

section

variable {codec : Codec JournalEntry} {sessionDir : Bool} {s : System} {t : System}
/-! ## Steps on one run -/
variable {r : Nat} {disk : Disk}
/-- What a step may do to the run it is about: all other runs keep their
files, their accounts and their executors. -/
theorem Core.touch (h : s.Core codec sessionDir) {run : TrackedRun}
    (hr : r < t.nextRun) (hnext : s.nextRun ≤ t.nextRun)
    (hruns : t.runs = Function.update s.runs r (some run))
    (hdisks : t.disks = Function.update s.disks r disk) (hbudget : run.WithinBudget)
    (hfiled : Filed codec disk (onFile sessionDir run.agentsUsed))
    (hother : ∀ e x, t.execs e = some x → x.runId ≠ r → s.execs e = some x)
    (hknown : ∀ e x, t.execs e = some x → e < t.nextExec)
    (hended : ∀ e x, t.execs e = some x → x.runId = r → ¬ x.live → x.phase.isEnded = true)
    (halone : ∀ e e' x x', t.execs e = some x → t.execs e' = some x' → x.live → x'.live →
      x.runId = r → x'.runId = r → e = e')
    (hworking : ∀ e x, t.execs e = some x → x.live → x.runId = r →
      Station.Working codec sessionDir ⟨some run, disk, x⟩) :
    t.Core codec sessionDir where
  unused := by
    intro r' hr'
    rw [hruns, Function.update_of_ne (by omega)]
    exact h.unused r' (by omega)
  bare := by
    intro r' hnone
    rw [hruns] at hnone
    rw [hdisks]
    by_cases heq : r' = r
    · rw [heq, Function.update_self] at hnone
      cases hnone
    · rw [Function.update_of_ne heq] at hnone ⊢
      exact h.bare r' hnone
  known := by
    intro e x hx
    refine ⟨hknown e x hx, ?_⟩
    by_cases heq : x.runId = r
    · omega
    · have := (h.known e x (hother e x hx heq)).2
      omega
  ended := by
    intro e x hx hdead
    by_cases heq : x.runId = r
    · exact hended e x hx heq hdead
    · exact h.ended e x (hother e x hx heq) hdead
  alone := by
    intro e e' x x' hx hx' hlive hlive' hsame
    by_cases heq : x.runId = r
    · exact halone e e' x x' hx hx' hlive hlive' heq (hsame ▸ heq)
    · exact h.alone e e' x x' (hother e x hx heq) (hother e' x' hx' (hsame ▸ heq)) hlive hlive' hsame
  working := by
    intro e x hx hlive
    rw [hruns, hdisks]
    by_cases heq : x.runId = r
    · rw [heq, Function.update_self, Function.update_self]
      exact hworking e x hx hlive heq
    · rw [Function.update_of_ne heq, Function.update_of_ne heq]
      exact h.working e x (hother e x hx heq) hlive
  resting := by
    intro r' run' hrun'
    rw [hruns] at hrun'
    rw [hdisks]
    by_cases heq : r' = r
    · rw [heq, Function.update_self] at hrun'
      cases hrun'
      rw [heq, Function.update_self]
      exact ⟨hbudget, hfiled⟩
    · rw [Function.update_of_ne heq] at hrun' ⊢
      exact h.resting r' run' hrun'

theorem Core.tracked_lt (h : s.Core codec sessionDir) {run : TrackedRun}
    (hrun : s.runs r = some run) : r < s.nextRun := by
  by_contra hge
  have hnone := h.unused r (Nat.le_of_not_lt hge)
  rw [hrun] at hnone
  cases hnone

/-- The file and the account of a run that no executor works on. -/
theorem Core.settle (h : s.Core codec sessionDir) {run run' : TrackedRun}
    (hrun : s.runs r = some run) (hfree : ¬ s.Busy r) (hbudget : run'.WithinBudget)
    (hfiled : Filed codec disk (onFile sessionDir run'.agentsUsed))
    (hruns : t.runs = Function.update s.runs r (some run'))
    (hdisks : t.disks = Function.update s.disks r disk) (hexecs : t.execs = s.execs)
    (hnextRun : t.nextRun = s.nextRun) (hnextExec : t.nextExec = s.nextExec) :
    t.Core codec sessionDir := by
  refine h.touch (hnextRun ▸ h.tracked_lt hrun) hnextRun.ge hruns hdisks hbudget hfiled ?_ ?_ ?_ ?_ ?_
  · exact fun e x hx _ => hexecs ▸ hx
  · exact fun e x hx => hnextExec ▸ (h.known e x (hexecs ▸ hx)).1
  · exact fun e x hx _ hdead => h.ended e x (hexecs ▸ hx) hdead
  · exact fun e _ x _ hx _ hlive _ hr _ => absurd ⟨e, x, hexecs ▸ hx, hlive, hr⟩ hfree
  · exact fun e x hx hlive hr => absurd ⟨e, x, hexecs ▸ hx, hlive, hr⟩ hfree

/-! ## Launching -/

theorem update_some {α : Type} {f : Nat → Option α} {i j : Nat} {a b : α}
    (h : Function.update f i (some a) j = some b) : (j = i ∧ b = a) ∨ (j ≠ i ∧ f j = some b) := by
  by_cases hj : j = i
  · subst hj
    rw [Function.update_self, Option.some.injEq] at h
    exact .inl ⟨rfl, h.symm⟩
  · rw [Function.update_of_ne hj] at h
    exact .inr ⟨hj, h⟩

/-- The manager starts an executor on a run that has none, with the account of
the run set to the journal. -/
theorem Inv.spawn (h : s.Inv codec sessionDir) (hidle : s.stage = .idle)
    {run : TrackedRun} {journal : Journal} (hfree : ¬ s.Busy r) (hr : r < t.nextRun)
    (hnext : s.nextRun ≤ t.nextRun) (hruns : t.runs = Function.update s.runs r (some run))
    (hdisks : t.disks = s.disks) (hexecs : t.execs = s.execs) (hnextExec : t.nextExec = s.nextExec)
    (hlists : t.active = s.active ∧ t.retiring = s.retiring ∧ t.abandoned = s.abandoned ∧
      t.stage = .idle) (hbudget : run.WithinBudget)
    (hbacked : Backed codec sessionDir (s.disks r) journal)
    (hfiled : Filed codec (s.disks r) (onFile sessionDir run.agentsUsed))
    (hused : agentEntries journal.entries ≤ run.agentsUsed) (epoch : Nat) :
    (t.spawn r epoch journal).Inv codec sessionDir := by
  have hother : ∀ {e : Nat} {x : Exec}, s.execs e = some x → x.live → x.runId ≠ r :=
    fun hx hlive hr => hfree ⟨_, _, hx, hlive, hr⟩
  have hcases : ∀ {e : Nat} {x : Exec}, (t.spawn r epoch journal).execs e = some x →
      (e = s.nextExec ∧ x = ⟨r, epoch, journal, false, false, .script, 0, .waiting⟩) ∨
        (e ≠ s.nextExec ∧ s.execs e = some x) := by
    intro e x hx
    have hx : Function.update t.execs t.nextExec _ e = some x := hx
    rw [hexecs, hnextExec] at hx
    exact update_some hx
  have hdisks' : (t.spawn r epoch journal).disks = Function.update s.disks r (s.disks r) := by
    rw [Function.update_eq_self]
    exact hdisks
  refine ⟨?_, ?_, ?_⟩
  · refine h.toCore.touch hr hnext hruns hdisks' hbudget hfiled ?_ ?_ ?_ ?_ ?_
    · intro e x hx hne
      rcases hcases hx with ⟨rfl, rfl⟩ | ⟨_, hx⟩
      · exact absurd rfl hne
      · exact hx
    · intro e x hx
      show e < t.nextExec + 1
      rw [hnextExec]
      rcases hcases hx with ⟨rfl, rfl⟩ | ⟨_, hx⟩
      · exact Nat.lt_succ_self _
      · exact Nat.lt_succ_of_lt (h.known e x hx).1
    · intro e x hx _ hdead
      rcases hcases hx with ⟨rfl, rfl⟩ | ⟨_, hx⟩
      · exact absurd nofun hdead
      · exact h.ended e x hx hdead
    · -- the new executor is the only live one of the run
      intro e e' x x' hx hx' hlive hlive' hxr hxr'
      rcases hcases hx with ⟨he, _⟩ | ⟨_, hx⟩
      · rcases hcases hx' with ⟨he', _⟩ | ⟨_, hx'⟩
        · exact he.trans he'.symm
        · exact absurd hxr' (hother hx' hlive')
      · exact absurd hxr (hother hx hlive)
    · intro e x hx hlive hxr
      rcases hcases hx with ⟨rfl, rfl⟩ | ⟨_, hx⟩
      · exact ⟨⟨run, rfl, hbudget, hfiled, hused⟩, Nat.zero_le _, fun _ => hbacked⟩
      · exact absurd hxr (hother hx hlive)
  · intro e x hx hlive
    obtain ⟨hactive, hretiring, habandoned, hstage⟩ := hlists
    rw [mem_handles_idle (s := t.spawn r epoch journal) hstage]
    rcases hcases hx with ⟨rfl, rfl⟩ | ⟨_, hx⟩
    · exact .inl (by simp [System.spawn, hnextExec])
    · have hne := hother hx hlive
      rcases (mem_handles_idle hidle).mp (h.handled e x hx hlive) with hmem | hmem | hmem
      · exact .inl (by simp [System.spawn, hactive, hmem, hne])
      · exact .inr (.inl (hretiring ▸ hmem))
      · exact .inr (.inr (habandoned ▸ hmem))
  · intro l hl
    have hl : t.stage = .loaded l := hl
    rw [hlists.2.2.2] at hl
    cases hl

theorem Inv.not_busy (h : s.Inv codec sessionDir) (hnone : s.runs r = none) : ¬ s.Busy r := by
  intro ⟨e, x, hx, hlive, hr⟩
  obtain ⟨run, hrun, _⟩ := (h.working e x hx hlive).run
  have hrun : s.runs x.runId = some run := hrun
  rw [hr, hnone] at hrun
  cases hrun

theorem Inv.launch (h : s.Inv codec sessionDir) (hidle : s.stage = .idle)
    (agentBudget : Option AgentBudget) (registered persisted : Bool) :
    (s.launch sessionDir agentBudget registered persisted).Inv codec sessionDir := by
  have hreap := h.reap hidle
  unfold System.launch
  simp only
  split
  · exact hreap
  split
  · have hnone := hreap.unused s.reap.nextRun le_rfl
    have hdisk := hreap.bare _ hnone
    refine hreap.spawn (t := ({ s.reap with nextRun := s.reap.nextRun + 1 } : System).setRun
      s.reap.nextRun (some (.start (agentBudget.getD defaultAgentBudget).1)))
      hidle (hreap.not_busy hnone) (Nat.lt_succ_self _) (Nat.le_succ _) rfl rfl rfl
      rfl ⟨rfl, rfl, rfl, hidle⟩ (TrackedRun.withinBudget_start _) ?_ ?_ ?_ 0
    · rw [hdisk]
      exact backed_new
    · rw [hdisk]
      exact filed_none _
    · exact Nat.zero_le _
  · exact
      { hreap with
        unused := fun r hr => hreap.unused r (Nat.le_of_succ_le hr)
        known := by
          intro e x hx
          obtain ⟨he, hr⟩ := hreap.known e x hx
          exact ⟨he, Nat.lt_succ_of_lt hr⟩ }

theorem Inv.setDisk (h : s.Inv codec sessionDir) {run : TrackedRun}
    (hrun : s.runs r = some run) (hfree : ¬ s.Busy r)
    (hfiled : Filed codec disk (onFile sessionDir run.agentsUsed)) :
    { s with disks := Function.update s.disks r disk }.Core codec sessionDir := by
  refine h.toCore.settle hrun hfree (h.resting r run hrun).1 hfiled ?_ rfl rfl rfl rfl
  rw [← hrun, Function.update_eq_self]

theorem Inv.load (hblank : ∀ b, isBlank b = true → codec.decode b = none)
    (h : s.Inv codec sessionDir) (hidle : s.stage = .idle) {runId : Nat}
    {agentBudget : Option AgentBudget} {sourcesMatch : Bool}
    (hwaits : s.Waits (.load runId agentBudget sourcesMatch)) :
    (s.load codec sessionDir runId agentBudget sourcesMatch).Inv codec sessionDir := by
  have hreap := h.reap hidle
  unfold System.load
  simp only
  cases hrun : s.reap.runs runId with
  | none => exact hreap
  | some run =>
    simp only
    split
    · exact hreap
    · next hchecks =>
      simp only [Bool.or_eq_true, Bool.not_eq_true', not_or, Bool.not_eq_false] at hchecks
      -- the executors of the run have sent their signals
      have hfree : ¬ s.reap.Busy runId := by
        intro ⟨e, x, hx, hlive, hr⟩
        have hx : s.execs e = some x := hx
        have hmem := (mem_handles_idle hidle).mp (h.handled e x hx hlive)
        have hfired := hwaits hidle (Bool.eq_false_iff.mpr hchecks.1.1) hchecks.2 ⟨run, hrun, hchecks.1.2⟩ (x.runId, e)
          (by simpa [or_assoc] using hmem) hr
        rw [not_fired hx hlive x.runId] at hfired
        cases hfired
      have hfiled := (hreap.resting runId run hrun).2
      -- the journal that is opened accounts for no more agents than the run has used
      rcases hfiled.openJournal hblank with ⟨disk, hopen, hfiled'⟩ | ⟨j, disk, hopen, hbacked, hle, hfiled'⟩
      · simp only [hopen]
        exact
          { hreap.setDisk hrun hfree hfiled' with
            handled := hreap.handled
            loaded := by
              intro l hl
              have hl : s.stage = .loaded l := hl
              rw [hidle] at hl
              cases hl }
      · simp only [hopen]
        have hfiled'' : Filed codec disk (onFile sessionDir run.agentsUsed) := by
          refine hfiled'.mono ?_
          unfold onFile
          split
          · exact hle
          · exact le_rfl
        refine
          { hreap.setDisk hrun hfree hfiled'' with
            handled := ?_
            loaded := ?_ }
        · intro e x hx hlive
          have hmem := (mem_handles_idle (s := s.reap) hidle).mp (hreap.handled e x hx hlive)
          simp only [handles, append_nil, mem_append]
          exact or_assoc.mpr hmem
        · intro l hl
          cases hl
          refine ⟨hfree, ?_, ?_, run, hrun, hle⟩
          · simpa only [Function.update_self] using hbacked
          · simpa only [Function.update_self] using hfiled'

theorem Inv.setAccount (h : s.Inv codec sessionDir) (hidle : s.stage = .idle)
    {run run' : TrackedRun} (hrun : s.runs r = some run) (hfree : ¬ s.Busy r)
    (hbudget : run'.WithinBudget)
    (hfiled : Filed codec (s.disks r) (onFile sessionDir run'.agentsUsed)) :
    (s.setRun r (some run')).Inv codec sessionDir where
  toCore := by
    refine h.toCore.settle hrun hfree hbudget hfiled rfl ?_ rfl rfl rfl
    rw [Function.update_eq_self]
    rfl
  handled := h.handled
  loaded := by
    intro l hl
    have hl : s.stage = .loaded l := hl
    rw [hidle] at hl
    cases hl

theorem Inv.unload (h : s.Inv codec sessionDir) {l : Loaded} (hstage : s.stage = .loaded l) :
    { s with stage := .idle }.Inv codec sessionDir :=
  { h with
    handled := by
      intro e x hx hlive
      have hmem := h.handled e x hx hlive
      simpa only [handles, hstage, append_nil] using hmem
    loaded := fun _ => nofun }

theorem Inv.resume (h : s.Inv codec sessionDir) {l : Loaded} (hstage : s.stage = .loaded l)
    (persisted : Bool) : (s.resume l persisted).Inv codec sessionDir := by
  have hidle := h.unload hstage
  obtain ⟨hfree, hbacked, hfiled, run, hrun, hle⟩ := h.loaded l hstage
  have hreconciled : (run.reconcileAgentsUsed (agentEntries l.journal.entries)).WithinBudget :=
    (h.resting l.runId run hrun).1.lower hle
  unfold System.resume
  simp only [hrun]
  cases hresume : (run.reconcileAgentsUsed l.journal.agentReservationCount).resume
      (l.agentBudget.map (·.1)) with
  | none => exact hidle.setAccount rfl hrun hfree hreconciled hfiled
  | some run' =>
    obtain ⟨hbudget, hused⟩ := hreconciled.resume hresume
    have hfiled' : Filed codec (s.disks l.runId) (onFile sessionDir run'.agentsUsed) := by
      rw [hused]
      exact hfiled
    simp only
    split
    · have hr : l.runId < s.nextRun := h.tracked_lt hrun
      exact hidle.spawn (t := ({ s with stage := .idle } : System).setRun l.runId (some run')) rfl
        hfree hr le_rfl rfl rfl rfl rfl ⟨rfl, rfl, rfl, rfl⟩ hbudget hbacked hfiled' hused.ge
        run'.executionEpoch
    · exact hidle.setAccount rfl hrun hfree (hbudget.same (run'.sameAccount_interrupt _)) hfiled'

/-! ## Executors at work -/

theorem Inv.exec (h : s.Inv codec sessionDir) {id : Nat} {act : ExecAct}
    (hlawful : ∀ e ∈ act.entry?, codec.Lawful e) : (s.execStep codec id act).Inv codec sessionDir := by
  unfold System.execStep
  cases hx : s.execs id with
  | none => exact h
  | some x =>
    simp only
    by_cases hlive : x.live
    · have hworking := h.working id x hx hlive
      have hnext := hworking.step hlawful
      have hrunId := @Station.step_runId codec ⟨s.runs x.runId, s.disks x.runId, x⟩ act
      have hwatch := fun hopen =>
        @Station.step_watch codec ⟨s.runs x.runId, s.disks x.runId, x⟩ hopen act
      have hended := fun hended =>
        @Station.step_ended codec ⟨s.runs x.runId, s.disks x.runId, x⟩ hended act
      obtain ⟨run₀, hrun₀, _⟩ := hworking.run
      have hrun₀ : s.runs x.runId = some run₀ := hrun₀
      generalize Station.step codec ⟨s.runs x.runId, s.disks x.runId, x⟩ act = w
        at hnext hrunId hwatch hended ⊢
      obtain ⟨run, hrun, hbudget, hfiled, _⟩ := hnext.run
      have hr : w.exec.runId = x.runId := hrunId
      -- the other executors work on other runs
      have hother : ∀ {e : Nat} {y : Exec}, e ≠ id → s.execs e = some y → y.live →
          y.runId ≠ x.runId :=
        fun hne hy hylive heq => hne (h.alone _ _ _ _ hy hx hylive hlive heq)
      have hcases : ∀ {e : Nat} {y : Exec},
          Function.update s.execs id (some w.exec) e = some y →
            (e = id ∧ y = w.exec) ∨ (e ≠ id ∧ s.execs e = some y) := update_some
      refine ⟨?_, ?_, ?_⟩
      · refine h.toCore.touch (h.known id x hx).2 le_rfl ?_ rfl hbudget hfiled ?_ ?_ ?_ ?_ ?_
        · rw [← hrun]
        · intro e y hy hne
          rcases hcases hy with ⟨_, rfl⟩ | ⟨_, hy⟩
          · exact absurd hr hne
          · exact hy
        · intro e y hy
          rcases hcases hy with ⟨rfl, _⟩ | ⟨_, hy⟩
          · exact (h.known e x hx).1
          · exact (h.known e y hy).1
        · intro e y hy _ hdead
          rcases hcases hy with ⟨_, rfl⟩ | ⟨_, hy⟩
          · cases hphase : x.phase.isEnded with
            | true =>
              have hsame : w.exec.phase = x.phase := hended hphase
              rw [hsame, hphase]
            | false =>
              -- it is live before the step, and the step has not ended it
              have hsame : w.exec.watch = x.watch := hwatch hphase
              refine absurd ?_ hdead
              show w.exec.watch ≠ .done
              rw [hsame]
              exact hlive
          · exact h.ended e y hy hdead
        · intro e e' y y' hy hy' hylive hylive' hyr hyr'
          rcases hcases hy with ⟨he, _⟩ | ⟨hne, hy⟩
          · rcases hcases hy' with ⟨he', _⟩ | ⟨hne', hy'⟩
            · exact he.trans he'.symm
            · exact absurd hyr' (hother hne' hy' hylive')
          · exact absurd hyr (hother hne hy hylive)
        · intro e y hy hylive hyr
          rcases hcases hy with ⟨_, rfl⟩ | ⟨hne, hy⟩
          · rw [← hrun]
            exact hnext
          · exact absurd hyr (hother hne hy hylive)
      · intro e y hy hylive
        rcases hcases hy with ⟨rfl, rfl⟩ | ⟨_, hy⟩
        · rw [hr]
          exact h.handled e x hx hlive
        · exact h.handled e y hy hylive
      · intro l hl
        obtain ⟨hfree, hbacked, hfiled', run', hrun', hle⟩ := h.loaded l hl
        have hne : l.runId ≠ x.runId := fun heq => hfree ⟨id, x, hx, hlive, heq.symm⟩
        show _ ∧ Backed codec sessionDir (Function.update s.disks x.runId w.disk l.runId) _ ∧
          Filed codec (Function.update s.disks x.runId w.disk l.runId) _ ∧
          ∃ run', Function.update s.runs x.runId w.run l.runId = some run' ∧ _
        rw [Function.update_of_ne hne, Function.update_of_ne hne]
        refine ⟨?_, hbacked, hfiled', run', hrun', hle⟩
        intro ⟨e, y, hy, hylive, hyr⟩
        rcases hcases hy with ⟨_, rfl⟩ | ⟨_, hy⟩
        · exact hne (hyr.symm.trans hr)
        · exact hfree ⟨e, y, hy, hylive, hyr⟩
    · -- behind its done signal an executor does nothing
      have hdone : x.watch = .done := not_not.mp hlive
      have hsame := @Station.step_done codec ⟨s.runs x.runId, s.disks x.runId, x⟩
        (h.ended id x hx hlive) hdone act
      rw [hsame]
      have hself : { s with
          runs := Function.update s.runs x.runId (s.runs x.runId)
          disks := Function.update s.disks x.runId (s.disks x.runId)
          execs := Function.update s.execs id (some x) } = s := by
        rw [← hx, Function.update_eq_self, Function.update_eq_self, Function.update_eq_self]
      rw [hself]
      exact h

/-! ## Runs -/

theorem Inv.step (hblank : ∀ b, isBlank b = true → codec.decode b = none)
    (h : s.Inv codec sessionDir) {st : Step} (hlawful : ∀ e ∈ st.entry?, codec.Lawful e)
    (hwaits : s.Waits st) : (s.step codec sessionDir st).Inv codec sessionDir := by
  unfold System.step
  split
  · next hidle => exact h.launch hidle _ _ _
  · next hidle => exact h.load hblank hidle hwaits
  · next hloaded => exact h.resume hloaded _
  · next hidle => exact h.pause hidle _
  · next hidle => exact h.cancel hidle _
  · next hidle => exact h.drain hidle
  · next hdraining => exact h.drainEnd hdraining _
  · exact h.exec hlawful
  · exact h

theorem inv_run (hblank : ∀ b, isBlank b = true → codec.decode b = none) {steps : List Step}
    (hlawful : ∀ st ∈ steps, ∀ e ∈ st.entry?, codec.Lawful e)
    (hwaits : WaitsAll codec sessionDir start steps) :
    (run codec sessionDir steps).Inv codec sessionDir := by
  unfold run
  have hfold : ∀ (steps : List Step) (s : System), s.Inv codec sessionDir →
      (∀ st ∈ steps, ∀ e ∈ st.entry?, codec.Lawful e) → WaitsAll codec sessionDir s steps →
      (steps.foldl (System.step codec sessionDir) s).Inv codec sessionDir := by
    intro steps
    induction steps with
    | nil => intro s h _ _; exact h
    | cons st steps ih =>
      intro s h hlawful hwaits
      rw [forall_mem_cons] at hlawful
      exact ih _ (h.step hblank hlawful.1 hwaits.1) hlawful.2 hwaits.2
  exact hfold steps start (inv_start codec sessionDir) hlawful hwaits

end

/-- When resumes wait for the done signals: no two executors of one run are
live, and every journal file is read as a dense journal, as long as it has no
more entries than loading takes. -/
theorem one_executor (codec : Codec JournalEntry) (sessionDir : Bool)
    (hblank : ∀ b, isBlank b = true → codec.decode b = none) (steps : List Step)
    (hlawful : ∀ st ∈ steps, ∀ e ∈ st.entry?, codec.Lawful e)
    (hwaits : WaitsAll codec sessionDir start steps) :
    let s := run codec sessionDir steps
    (∀ e e' x x', s.execs e = some x → s.execs e' = some x' → x.live → x'.live →
      x.runId = x'.runId → e = e') ∧
    ∀ r, (∃ j disk, Journal.load codec (s.disks r) = (.ok j, disk) ∧ Dense j.entries) ∨
      (Journal.load codec (s.disks r)).1 = .error tooManyEntries := by
  intro s
  have hinv : s.Inv codec sessionDir := inv_run hblank hlawful hwaits
  refine ⟨hinv.alone, ?_⟩
  intro r
  have hfiled : ∃ agents, Filed codec (s.disks r) agents := by
    cases hrun : s.runs r with
    | none => exact ⟨0, by rw [hinv.bare r hrun]; exact filed_none 0⟩
    | some run => exact ⟨_, (hinv.resting r run hrun).2⟩
  obtain ⟨agents, hfiled⟩ := hfiled
  rcases hfiled.load hblank with ⟨j, disk, hload, hbacked, _⟩ | hrefused
  · have hsound : Session.Sound codec ⟨disk, some j, j.entries, none⟩ := hbacked
    exact .inl ⟨j, disk, hload, hsound.dense⟩
  · exact .inr (by rw [hrefused])

/-- A paused run is resumed behind the done signal. -/
def patient : List Step :=
  [.launch none true true, .exec 0 (.record 0 "budget".toList [] .null 0 .done []), .pause 0,
    .exec 0 (.finish .cancelled), .exec 0 (.settle true), .exec 0 (.persistAck none),
    .load 0 none true, .resume true]

theorem patient_waits : WaitsAll Session.entryCodec true start patient :=
  ⟨trivial, trivial, trivial, trivial, trivial, trivial,
    fun _ _ _ _ => by decide, trivial, trivial⟩

theorem patient_lawful : ∀ st ∈ patient, ∀ e ∈ st.entry?, Session.entryCodec.Lawful e := by
  intro st hst e he
  simp only [patient, mem_cons, not_mem_nil, or_false] at hst
  rcases hst with rfl | rfl | rfl | rfl | rfl | rfl | rfl | rfl <;> cases he
  exact Session.budgetEntry_lawful 0

/-- Both executors of the run are known, and only one of them is live. -/
theorem one_executor_patient :
    let s := run Session.entryCodec true patient
    ((s.execs 0).isSome ∧ (s.execs 1).isSome) ∧
      (∀ e e' x x', s.execs e = some x → s.execs e' = some x' → x.live → x'.live →
        x.runId = x'.runId → e = e') :=
  ⟨by decide, (one_executor Session.entryCodec true Session.entryCodec_blank patient patient_lawful
    patient_waits).1⟩

/-- The run is resumed while its executor handles a reply. -/
def hasty : List Step :=
  [.launch none true true, .pause 0, .load 0 none true, .resume true,
    .exec 0 (.record 0 "budget".toList [] .null 0 .done []),
    .exec 1 (.record 0 "budget".toList [] .null 0 .done [])]

/-- Then two executors are live, and what both record is not read again. -/
theorem two_executors :
    ∃ x x', (run Session.entryCodec true hasty).execs 0 = some x ∧
      (run Session.entryCodec true hasty).execs 1 = some x' ∧ x.live ∧ x'.live ∧ x.runId = x'.runId ∧
      (Journal.load Session.entryCodec ((run Session.entryCodec true hasty).disks 0)).1 =
        .error (.sequence 1 1 0) :=
  ⟨_, _, rfl, rfl, nofun, nofun, rfl, rfl⟩

/-- When resumes wait for the done signals: a run has not used more agents
than its budget, and it has used as many as are in its journal and reserved,
in the memory of a live executor or in the file to resume from. -/
theorem agents_within_budget (codec : Codec JournalEntry) (sessionDir : Bool)
    (hblank : ∀ b, isBlank b = true → codec.decode b = none) (steps : List Step)
    (hlawful : ∀ st ∈ steps, ∀ e ∈ st.entry?, codec.Lawful e)
    (hwaits : WaitsAll codec sessionDir start steps) :
    let s := run codec sessionDir steps
    ∀ r run, s.runs r = some run →
      (∃ limit, run.agentBudget = some limit ∧ run.agentsUsed ≤ limit) ∧
      (∀ e x, s.execs e = some x → x.live → x.runId = r →
        x.journal.agentReservationCount + x.reserved ≤ run.agentsUsed) ∧
      ∀ j disk, loadJournal codec sessionDir (s.disks r) = (.ok j, disk) →
        j.agentReservationCount ≤ run.agentsUsed := by
  intro s r run hrun
  have hinv : s.Inv codec sessionDir := inv_run hblank hlawful hwaits
  obtain ⟨hbudget, hfiled⟩ := hinv.resting r run hrun
  obtain ⟨limit, hlimit, _, hused⟩ := hbudget.budget
  refine ⟨⟨limit, hlimit, hused⟩, ?_, ?_⟩
  · intro e x hx hlive hr
    obtain ⟨run', hrun', _, _, hcovered⟩ := (hinv.working e x hx hlive).run
    have hrun' : s.runs x.runId = some run' := hrun'
    rw [hr, hrun] at hrun'
    cases hrun'
    exact hcovered
  · intro j disk hload
    cases sessionDir with
    | false =>
      cases hload
      exact Nat.zero_le _
    | true =>
      have hload : Journal.load codec (s.disks r) = (.ok j, disk) := hload
      rcases hfiled.load hblank with ⟨j', disk', hload', _, hagents⟩ | hrefused
      · rw [hload] at hload'
        cases hload'
        exact hagents
      · rw [hload] at hrefused
        cases hrefused

/-- The run is resumed behind an agent that was recorded, and reserves another. -/
def resumedAgents : List Step :=
  [.launch none true true, .exec 0 (.reserve 1), .exec 0 .serveReserve,
    .exec 0 (.persistReserve true), .exec 0 .answer, .exec 0 (.recordAgent 0 [] .null 0 .done []),
    .pause 0, .exec 0 (.finish .cancelled), .exec 0 (.settle true), .exec 0 (.persistAck none),
    .load 0 none true, .resume true, .exec 1 (.reserve 1), .exec 1 .serveReserve,
    .exec 1 (.persistReserve true)]

theorem resumedAgents_waits : WaitsAll Session.entryCodec true start resumedAgents :=
  ⟨trivial, trivial, trivial, trivial, trivial, trivial, trivial, trivial, trivial, trivial,
    fun _ _ _ _ => by decide, trivial, trivial, trivial, trivial, trivial⟩

theorem resumedAgents_lawful :
    ∀ st ∈ resumedAgents, ∀ e ∈ st.entry?, Session.entryCodec.Lawful e := by
  intro st hst e he
  simp only [resumedAgents, mem_cons, not_mem_nil, or_false] at hst
  rcases hst with rfl | rfl | rfl | rfl | rfl | rfl | rfl | rfl | rfl | rfl | rfl | rfl | rfl | rfl | rfl <;>
    cases he
  exact Session.entryCodec_lawful (by decide) 0

theorem agents_within_budget_resumed :
    let s := System.run Session.entryCodec true resumedAgents
    ∃ run x, s.runs 0 = some run ∧ s.execs 1 = some x ∧ x.journal.agentReservationCount = 1 ∧
      x.reserved = 1 ∧ (∃ limit, run.agentBudget = some limit ∧ run.agentsUsed ≤ limit) ∧
      x.journal.agentReservationCount + x.reserved ≤ run.agentsUsed ∧
      ∀ j disk, loadJournal Session.entryCodec true (s.disks 0) = (.ok j, disk) →
        j.agentReservationCount ≤ run.agentsUsed := by
  obtain ⟨hbudget, hlive, hfile⟩ := agents_within_budget Session.entryCodec true
    Session.entryCodec_blank resumedAgents resumedAgents_lawful resumedAgents_waits 0 _ rfl
  refine ⟨_, _, rfl, rfl, by decide, by decide, hbudget, hlive 1 _ rfl ?_ rfl, hfile⟩
  intro hdone
  cases hdone

/-- An agent is reserved, and its run is paused. -/
def reserved : List Step :=
  [.launch none true true, .exec 0 (.reserve 1), .exec 0 .serveReserve,
    .exec 0 (.persistReserve true), .pause 0]

/-- A resume at this point forgets the agent that the executor before still
has reserved. -/
theorem agents_forgotten :
    ∃ run x, (System.run Session.entryCodec true (reserved ++ [.load 0 none true, .resume true])).runs 0 =
        some run ∧
      (System.run Session.entryCodec true (reserved ++ [.load 0 none true, .resume true])).execs 0 =
        some x ∧
      x.live ∧ x.runId = 0 ∧ run.agentsUsed < x.journal.agentReservationCount + x.reserved :=
  ⟨_, _, rfl, rfl, nofun, rfl, by decide⟩

end System

end GrokBuild.Workflow
