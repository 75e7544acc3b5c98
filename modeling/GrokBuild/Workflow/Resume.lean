import GrokBuild.Workflow.Live

/-!
# Workflows: a resumed run

A script is run again with the journal of a run that was paused, cancelled or
out of budget. As long as no answer is lost (`Env.kept`), the journal tells
the script what it saw before. The headline is `resume_tells`.
-/

namespace GrokBuild.Workflow

open TextLines Str LineLog Replay List

namespace Script

/-- The call that the script makes next. -/
def next (script : Script) (seen : List Seen) : Option HostCall :=
  match script seen with
  | .call c => some c
  | _ => none

/-- What a journal tells the script, with the position behind it. -/
abbrev Tells (requestHash : Text → Json → Text) (script : Script) (entries : List JournalEntry) :
    List Seen → Nat → Prop :=
  Replay.Tells script.next (toldCall requestHash entries) 0

end Script

namespace WorkflowOutcome

/-- The outcomes behind which a run is resumed. -/
def resumable : WorkflowOutcome → Bool
  | .paused _ _ => true
  | .budgetExceeded _ => true
  | .cancelled => true
  | _ => false

end WorkflowOutcome

section

variable (codec : Codec JournalEntry) (requestHash : Text → Json → Text) (script : Script)

/-- No step of the run loses an answer. -/
def Run.Kept : Run → List Env → Prop
  | _, [] => True
  | r, env :: envs =>
    (∀ c, r.outcome = none → env.cancelled = false → script r.seen = .call c →
      env.kept r.ctx c = true) ∧
    (r.step codec requestHash script env).Kept envs

/-- The journals that such runs leave, one after another. -/
inductive Left : List JournalEntry → Prop
  | fresh : Left []
  | run {journal : Journal} (h : Left journal.entries) {disk : Disk} {envs : List Env}
      (hkept : (Run.start journal disk).Kept codec requestHash script envs)
      {outcome : WorkflowOutcome}
      (houtcome : (Run.exec codec requestHash script journal disk envs).outcome = some outcome)
      (hresumable : outcome.resumable = true) :
      Left (Run.exec codec requestHash script journal disk envs).ctx.journal.entries

end

/-! ## Journals that are told to their end -/

section

variable {codec : Codec JournalEntry} {requestHash : Text → Json → Text} {script : Script}

/-- The journal is sound, and the script reads all of it. -/
structure Whole (requestHash : Text → Json → Text) (script : Script)
    (entries : List JournalEntry) : Prop extends Sound entries where
  read : ∃ seen, script.Tells requestHash entries seen entries.length
variable {seen : List Seen} {k : Nat}
theorem tells_mono {entries entries' : List JournalEntry} (hle : entries <+: entries')
    (h : script.Tells requestHash entries seen k) :
    script.Tells requestHash entries' seen k :=
  h.mono (toldCall_mono hle)
variable {entries : List JournalEntry}

theorem tells_bound
    (h : script.Tells requestHash entries seen k) : k ≤ entries.length := by
  induction h with
  | start => exact Nat.zero_le _
  | call _ _ hanswer ih => exact (toldCall_position hanswer).2 ih

theorem Whole.at_end (h : Whole requestHash script entries)
    (htells : script.Tells requestHash entries seen k)
    (hnone : ∀ c, script.next seen = some c → toldCall requestHash entries k c = none) :
    k = entries.length := by
  obtain ⟨full, hfull⟩ := h.read
  have hle := htells.length_le hnone hfull
  have hpos := hfull.position_le (fun _ _ _ _ h => (toldCall_position h).1) htells hle
  have := tells_bound htells
  omega

/-- The invariant of a run from a journal. -/
structure Faithful (requestHash : Text → Json → Text) (script : Script)
    (left : List JournalEntry) (r : Run) : Prop where
  grown : left <+: r.ctx.journal.entries
  /-- What was seen is told from now on. -/
  tells : ∃ k, script.Tells requestHash r.ctx.journal.entries r.seen k ∧
    (r.outcome = none → k = r.ctx.seq)
  whole : (∀ cause, r.outcome ≠ some (.failed cause)) →
    Whole requestHash script r.ctx.journal.entries
  /-- Only a cancelled run stops where the journal goes on. -/
  stopped : r.outcome = none ∨ r.outcome = some .cancelled ∨
    ∀ seen k, script.Tells requestHash left seen k → seen.length ≤ r.seen.length
  quiet : ∀ x ∈ r.trace, x.call ≠ .emit → x.seq < left.length → x.requests = []
  clean : ∀ cause, r.outcome = some (.failed cause) → cause.ofReplay = false

theorem faithful_start {journal : Journal} (h : Whole requestHash script journal.entries)
    (disk : Disk) : Faithful requestHash script journal.entries (Run.start journal disk) where
  grown := prefix_rfl
  tells := ⟨0, .start, fun _ => rfl⟩
  whole := fun _ => h
  stopped := .inl rfl
  quiet := nofun
  clean := nofun

variable {left : List JournalEntry} {r : Run} {env : Env}

theorem Faithful.step_told (h : Faithful requestHash script left r) (houtcome : r.outcome = none)
    (hcancelled : env.cancelled = false) {c : HostCall} (hcall : script r.seen = .call c)
    {s : Seen}
    (htold : toldCall requestHash r.ctx.journal.entries r.ctx.seq c = some (s, k)) :
    Faithful requestHash script left (r.step codec requestHash script env) := by
  obtain ⟨k₀, htells, hk⟩ := h.tells
  obtain rfl := hk houtcome
  have hwhole := h.whole (by rw [houtcome]; nofun)
  obtain ⟨requests, hrun, hquiet⟩ :=
    @run_told codec requestHash r.ctx env hwhole.capped (tells_bound htells) c s k htold
  simp only [Run.step, houtcome, hcancelled, Bool.false_eq_true, if_false, hcall, hrun]
  exact
    { grown := h.grown
      tells := ⟨k, .call htells (by rw [Script.next, hcall]) htold, fun _ => rfl⟩
      whole := fun _ => hwhole
      stopped := .inl rfl
      quiet := by
        intro x hx hne hlt
        rcases mem_append.mp hx with hx | hx
        · exact h.quiet x hx hne hlt
        · obtain rfl := mem_singleton.mp hx
          exact hquiet hne
      clean := nofun }

theorem Faithful.step_live (h : Faithful requestHash script left r) (houtcome : r.outcome = none)
    (hcancelled : env.cancelled = false) {c : HostCall} (hcall : script r.seen = .call c)
    (hnone : toldCall requestHash r.ctx.journal.entries r.ctx.seq c = none)
    (hkept : env.kept r.ctx c = true) :
    Faithful requestHash script left (r.step codec requestHash script env) := by
  obtain ⟨k₀, htells, hk⟩ := h.tells
  obtain rfl := hk houtcome
  have hwhole := h.whole (by rw [houtcome]; nofun)
  have hnext : script.next r.seen = some c := by rw [Script.next, hcall]
  have hunknown : ∀ c', script.next r.seen = some c' →
      toldCall requestHash r.ctx.journal.entries r.ctx.seq c' = none := by
    intro c' hc'
    rw [hnext] at hc'
    cases hc'
    exact hnone
  have hend : r.ctx.seq = r.ctx.journal.entries.length := hwhole.at_end htells hunknown
  have hstopped : ∀ seen k, script.Tells requestHash left seen k → seen.length ≤ r.seen.length :=
    fun seen k hseen => htells.length_le hunknown (tells_mono h.grown hseen)
  have hquiet : ∀ x ∈ r.trace ++ [⟨c, r.ctx.seq, (c.run codec requestHash env r.ctx).requests⟩],
      x.call ≠ .emit → x.seq < left.length → x.requests = [] := by
    intro x hx hne hlt
    rcases mem_append.mp hx with hx | hx
    · exact h.quiet x hx hne hlt
    · -- the call lies behind the journal that the run started from
      obtain rfl := mem_singleton.mp hx
      have := h.grown.length_le
      have hlt : r.ctx.seq < left.length := hlt
      omega
  -- from here on only the context, the requests and the end of the call matter
  have hlives := @run_live codec requestHash r.ctx env hwhole.toSound hend c hnone hkept
  simp only [Run.step, houtcome, hcancelled, Bool.false_eq_true, if_false, hcall]
  generalize (c.run codec requestHash env r.ctx).requests = requests at hquiet ⊢
  generalize (c.run codec requestHash env r.ctx).ctx = ctx' at hlives ⊢
  generalize (c.run codec requestHash env r.ctx).callEnd = callEnd at hlives ⊢
  cases hlives with
  | @tells s hgrown hsound hlast htold =>
    have htells' := Replay.Tells.call (tells_mono hgrown htells) hnext htold
    exact
      { grown := h.grown.trans hgrown
        tells := ⟨_, htells', fun _ => rfl⟩
        whole := fun _ => ⟨hsound, _, hlast ▸ htells'⟩
        stopped := .inl rfl
        quiet := hquiet
        clean := nofun }
  | awaits hgrown hsound htold =>
    -- the entry is there, but only the next run sees what it tells
    have htells' := tells_mono hgrown htells
    exact
      { grown := h.grown.trans hgrown
        tells := ⟨_, htells', nofun⟩
        whole := fun _ => ⟨hsound, _, .call htells' hnext htold⟩
        stopped := .inr (.inr hstopped)
        quiet := hquiet
        clean := nofun }
  | @stops token hsame htoken =>
    refine
      { grown := hsame ▸ h.grown
        tells := ⟨_, hsame ▸ htells, nofun⟩
        whole := fun _ => hsame ▸ hwhole
        stopped := .inr (.inr hstopped)
        quiet := hquiet
        clean := ?_ }
    intro cause hcause
    cases token with
    | fatal cause' => exact absurd rfl (htoken cause')
    | complete value => cases hcause
    | pause kind message => cases hcause
    | budget message => cases hcause
    | cancelled => cases hcause
  | @fails cause hgrown hcause =>
    refine
      { grown := h.grown.trans hgrown
        tells := ⟨_, tells_mono hgrown htells, nofun⟩
        whole := fun hne => absurd rfl (hne cause)
        stopped := .inr (.inr hstopped)
        quiet := hquiet
        clean := ?_ }
    intro cause' heq
    cases heq
    exact hcause

theorem Faithful.step (h : Faithful requestHash script left r)
    (hkept : ∀ c, r.outcome = none → env.cancelled = false → script r.seen = .call c →
      env.kept r.ctx c = true) :
    Faithful requestHash script left (r.step codec requestHash script env) := by
  cases houtcome : r.outcome with
  | some outcome =>
    simp only [Run.step, houtcome]
    exact h
  | none =>
    by_cases hcancelled : env.cancelled = true
    · simp only [Run.step, houtcome, hcancelled, if_true]
      exact
        { h with
          tells := by
            obtain ⟨k, htells, _⟩ := h.tells
            exact ⟨k, htells, nofun⟩
          whole := fun _ => h.whole (by rw [houtcome]; nofun)
          stopped := .inr (.inl rfl)
          clean := nofun }
    · rw [Bool.not_eq_true] at hcancelled
      -- a script that ends of itself has no next call
      have hend : ∀ outcome, (∀ cause, outcome ≠ WorkflowOutcome.failed cause) →
          script.next r.seen = none →
          Faithful requestHash script left { r with outcome := some outcome } := by
        intro outcome hne hnext
        obtain ⟨k, htells, _⟩ := h.tells
        exact
          { h with
            tells := ⟨k, htells, nofun⟩
            whole := fun _ => h.whole (by rw [houtcome]; nofun)
            stopped := .inr (.inr fun seen k' hseen =>
              htells.length_le (by rw [hnext]; nofun) (tells_mono h.grown hseen))
            clean := by
              intro cause hcause
              cases hcause
              exact absurd rfl (hne cause) }
      cases hmove : script r.seen with
      | finish value =>
        have hfinish := hend (.completed value) nofun (by rw [Script.next, hmove])
        simpa only [Run.step, houtcome, hcancelled, Bool.false_eq_true, if_false, hmove] using hfinish
      | fail message =>
        have hfail := hend (.scriptFailed message) nofun (by rw [Script.next, hmove])
        simpa only [Run.step, houtcome, hcancelled, Bool.false_eq_true, if_false, hmove] using hfail
      | call c =>
        cases htold : toldCall requestHash r.ctx.journal.entries r.ctx.seq c with
        | some p => exact h.step_told houtcome hcancelled hmove htold
        | none => exact h.step_live houtcome hcancelled hmove htold (hkept c houtcome hcancelled hmove)

theorem Faithful.exec (h : Faithful requestHash script left r) {envs : List Env}
    (hkept : r.Kept codec requestHash script envs) :
    Faithful requestHash script left (envs.foldl (Run.step codec requestHash script) r) := by
  induction envs generalizing r with
  | nil => exact h
  | cons env envs ih => exact ih (h.step hkept.1) hkept.2

theorem Left.whole (h : Left codec requestHash script entries) :
    Whole requestHash script entries := by
  induction h with
  | fresh => exact ⟨⟨dense_nil, Nat.zero_le _⟩, [], .start⟩
  | run _ hkept houtcome hresumable ih =>
    refine ((faithful_start ih _).exec hkept).whole ?_
    intro cause hcause
    rw [Run.exec, hcause] at houtcome
    cases houtcome
    cases hresumable

end

/-! ## The resumed run -/

/-- A run that was paused, cancelled or out of budget, and another one of the
same script with the journal it left: the script sees the same as far as both
go, and a shorter second run was cancelled or is still going; no journaled
call sends a request; and the journal never fails the second run. -/
theorem resume_tells (codec : Codec JournalEntry) (requestHash : Text → Json → Text)
    (script : Script) (journal journal' : Journal) (disk disk' : Disk) (envs envs' : List Env)
    (hleft : Left codec requestHash script journal.entries)
    (hkept : (Run.start journal disk).Kept codec requestHash script envs)
    {outcome : WorkflowOutcome}
    (houtcome : (Run.exec codec requestHash script journal disk envs).outcome = some outcome)
    (hresumable : outcome.resumable = true)
    (hjournal : journal'.entries =
      (Run.exec codec requestHash script journal disk envs).ctx.journal.entries)
    (hkept' : (Run.start journal' disk').Kept codec requestHash script envs') :
    let run := Run.exec codec requestHash script journal disk envs
    let resumed := Run.exec codec requestHash script journal' disk' envs'
    (run.seen <+: resumed.seen ∨
      (resumed.seen <+: run.seen ∧
        (resumed.outcome = none ∨ resumed.outcome = some .cancelled))) ∧
    (∀ x ∈ resumed.trace, x.call ≠ .emit → x.seq < journal'.entries.length → x.requests = []) ∧
    ∀ cause, resumed.outcome = some (.failed cause) → cause.ofReplay = false := by
  intro run resumed
  have hrun : Faithful requestHash script journal.entries run :=
    (faithful_start hleft.whole disk).exec hkept
  have hwhole : Whole requestHash script journal'.entries :=
    hjournal ▸ (Left.run hleft hkept houtcome hresumable).whole
  have hresumed : Faithful requestHash script journal'.entries resumed :=
    (faithful_start hwhole disk').exec hkept'
  obtain ⟨k, htells, _⟩ := hrun.tells
  obtain ⟨k', htells', _⟩ := hresumed.tells
  rw [← hjournal] at htells
  refine ⟨?_, hresumed.quiet, hresumed.clean⟩
  -- both lists are told by the journal that the second run has in the end
  have htells₀ := tells_mono hresumed.grown htells
  by_cases hle : run.seen.length ≤ resumed.seen.length
  · exact .inl (htells₀.comparable htells' hle)
  · refine .inr ⟨htells'.comparable htells₀ (by omega), ?_⟩
    rcases hresumed.stopped with hnone | hcancelled | hlong
    · exact .inl hnone
    · exact .inr hcancelled
    · exact absurd (hlong _ _ htells) hle

/-! ## Runs of small scripts -/

/-- A codec and a hash for journals without a file. -/
def plainCodec : Codec JournalEntry := ⟨fun _ => [], fun _ => none⟩

def kindHash (kind : Text) (_ : Json) : Text := kind

/-- A host that answers everything. -/
def willing : Env where
  cancelled := false
  reserve := .ok ()
  agent := fun _ => .ok ⟨[], true, .null, false, 0, 0⟩
  budget := .ok ⟨none, 0, 0, none⟩
  text := .ok []
  now := fun _ => 0
  write := fun _ => .done

/-- Ask for the budget, pause, and finish. -/
def budgetThenPause : Script
  | [] => .call (.host .budget .null)
  | _ => .call (.pause "user".toList [])

/-- Spawn an agent, ask for the budget whatever came of it, and pause. -/
def agentThenBudget : Script
  | [] => .call (.agent .null)
  | [_] => .call (.host .budget .null)
  | _ => .call (.pause "user".toList [])

/-- The resumed run reads the budget from the journal. -/
theorem resume_tells_budget :
    let resumed := Run.exec plainCodec kindHash budgetThenPause
      (Run.exec plainCodec kindHash budgetThenPause (.new false) none [willing, willing]).ctx.journal
      none [willing]
    resumed.trace.length = 1 ∧ ∀ x ∈ resumed.trace, x.call ≠ .emit → x.seq < 1 → x.requests = [] := by
  obtain ⟨_, hquiet, _⟩ := resume_tells plainCodec kindHash budgetThenPause (.new false)
    (Run.exec plainCodec kindHash budgetThenPause (.new false) none [willing, willing]).ctx.journal
    none none [willing, willing] [willing] .fresh
    ⟨by
      intro c _ _ hc
      cases hc
      rfl, by
      intro c _ _ hc
      cases hc
      rfl, trivial⟩
    rfl rfl rfl
    ⟨by
      intro c _ _ hc
      cases hc
      rfl, trivial⟩
  exact ⟨rfl, hquiet⟩

/-- Answers that are lost. A quota error for the budget is another result when
the paused run is resumed. An agent call whose reservation failed is looked up
where the budget was journaled. And behind a quota error the journal takes no
entry. -/
theorem resume_loses_answers :
    (let run := Run.exec plainCodec kindHash budgetThenPause (.new false) none
        [{ willing with budget := .error (.agentCallQuotaExceeded 1 0) }, willing]
      let resumed := Run.exec plainCodec kindHash budgetThenPause run.ctx.journal none [willing]
      run.outcome = some (.paused .user []) ∧
        run.seen = [.error (quotaMessage "workflow agent-call quota exceeded: requested " 1 0)] ∧
        resumed.seen = [.value (BudgetState.toJson ⟨none, 0, 0, none⟩)]) ∧
    (let run := Run.exec plainCodec kindHash agentThenBudget (.new false) none
        [{ willing with reserve := .error (.failed []) }, willing, willing]
      let resumed := Run.exec plainCodec kindHash agentThenBudget run.ctx.journal none [willing]
      run.outcome = some (.paused .user []) ∧
        resumed.outcome = some (.failed (.journal (.divergence 0 spawnAgent)))) ∧
    (let run := Run.exec plainCodec kindHash agentThenBudget (.new false) none
        [{ willing with cancelled := true }]
      let resumed := Run.exec plainCodec kindHash agentThenBudget run.ctx.journal none
        [{ willing with agent := fun _ => .error (.agentCallQuotaExceeded 1 0) }, willing]
      run.outcome = some .cancelled ∧
        resumed.outcome = some (.failed (.journal (.sequence 0 0 1)))) :=
  ⟨⟨rfl, rfl, rfl⟩, ⟨rfl, rfl⟩, ⟨rfl, rfl⟩⟩

end GrokBuild.Workflow
