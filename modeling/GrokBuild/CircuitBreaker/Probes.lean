import GrokBuild.CircuitBreaker.Runs

/-!
# Circuit breaker: who decides recovery

`record` is told an outcome, not a request. Here a run also remembers the
requests that were admitted: each is recorded at most once, at any later
time. A half-open breaker is decided by the first record it gets, of a probe
or of an older request that was still under way when the period began.
-/

namespace GrokBuild.CircuitBreaker

/-- An admitted request. The number says how many half-open periods had
begun when it was admitted. -/
structure Request where
  id : Nat
  period : Nat
  deriving DecidableEq, Repr

/-- A run with its requests: those not recorded yet, and those of them that
were already under way when the latest half-open period began. -/
structure Session where
  world : World
  period : Nat
  outstanding : List Request
  carried : List Request
  nextId : Nat

inductive SessionAction where
  | check
  | record (request : Request) (outcome : Outcome)
  | errorRate
  | advance (d : Duration)
  deriving DecidableEq, Repr

namespace Session

def start (config : BreakerConfig) (now : Instant) : Session where
  world := .start config now
  period := 0
  outstanding := []
  carried := []
  nextId := 0

def state (s : Session) : BreakerState := s.world.breaker.state

/-- The session after a call on the breaker: a half-open period may have
begun. -/
def after (s : Session) (w : World) : Session :=
  if s.state ≠ .halfOpen ∧ w.breaker.state = .halfOpen then
    { s with world := w, period := s.period + 1, carried := s.outstanding }
  else { s with world := w }

/-- An admitted check is a new request. -/
def accept (s : Session) : Session :=
  { s with
    outstanding := s.outstanding ++ [⟨s.nextId, s.period⟩]
    nextId := s.nextId + 1 }

/-- One call. Only a request that is still outstanding can be recorded. -/
def step (s : Session) : SessionAction → Session
  | .check =>
    let next := s.after (s.world.step .check)
    if (s.world.breaker.check s.world.now).1 = .admitted then next.accept else next
  | .record request outcome =>
    if request ∈ s.outstanding then
      { s.after (s.world.step (.record outcome)) with
        outstanding := s.outstanding.erase request }
    else s
  | .errorRate => s.after (s.world.step .errorRate)
  | .advance d => s.after (s.world.step (.advance d))

def run (s : Session) (acts : List SessionAction) : Session := acts.foldl step s

theorem step_check_cases (s : Session) :
    s.step .check = s.after (s.world.step .check) ∨
      s.step .check = (s.after (s.world.step .check)).accept := by
  simp only [step]
  split
  · exact .inr rfl
  · exact .inl rfl

variable {s : Session}

theorem step_record_absent {request : Request} (h : request ∉ s.outstanding) (outcome : Outcome) :
    s.step (.record request outcome) = s :=
  if_neg h

theorem step_record {request : Request} (h : request ∈ s.outstanding) (outcome : Outcome) :
    s.step (.record request outcome) =
      { s.after (s.world.step (.record outcome)) with
        outstanding := s.outstanding.erase request } :=
  if_pos h

/-! ## Requests from before -/

/-- A request from before the latest half-open period was under way when it
began. -/
def Dated (s : Session) : Prop :=
  ∀ r ∈ s.outstanding, r.period = s.period ∨ r ∈ s.carried

theorem Dated.after (h : s.Dated) (w : World) : (s.after w).Dated := by
  unfold Session.after
  split
  · exact fun r hr => .inr hr
  · exact h

theorem Dated.accept (h : s.Dated) : s.accept.Dated := by
  intro r hr
  rcases List.mem_append.mp hr with hr | hr
  · exact h r hr
  · rw [List.mem_singleton.mp hr]
    exact .inl rfl

theorem Dated.step (h : s.Dated) (a : SessionAction) : (s.step a).Dated := by
  cases a with
  | check =>
    rcases s.step_check_cases with heq | heq <;> rw [heq]
    · exact h.after _
    · exact (h.after _).accept
  | record request outcome =>
    by_cases hmem : request ∈ s.outstanding
    · rw [step_record hmem]
      have hnext := h.after (s.world.step (.record outcome))
      have hsame : (s.after (s.world.step (.record outcome))).outstanding = s.outstanding := by
        unfold Session.after
        split <;> rfl
      intro r hr
      exact hnext r (hsame.symm ▸ List.mem_of_mem_erase hr)
    · rw [step_record_absent hmem]
      exact h
  | errorRate => exact h.after _
  | advance d => exact h.after _

theorem start_dated (config : BreakerConfig) (now : Instant) : (start config now).Dated := by
  intro r hr
  cases hr

theorem dated_run (acts : List SessionAction) : ∀ {s : Session}, s.Dated → (s.run acts).Dated := by
  induction acts with
  | nil => exact fun h => h
  | cons a acts ih => exact fun h => ih (h.step a)

/-! ## Leaving the half-open state -/

theorem state_after (s : Session) (w : World) : (s.after w).state = w.breaker.state := by
  unfold after
  split <;> rfl

end Session

namespace Breaker

theorem state_tryHalfOpenProbe (b : Breaker) (now : Instant) :
    (b.tryHalfOpenProbe now).2.state = b.state := by
  unfold tryHalfOpenProbe
  dsimp only
  split
  · rfl
  · split <;> rfl

theorem trip_state (b : Breaker) (now : Instant) (prev : BreakerState) (reason : String) :
    (b.trip now prev reason).state = .open := by
  unfold trip
  dsimp only
  split <;> rfl

theorem state_check_halfOpen {b : Breaker} (h : b.state = .halfOpen) (now : Instant) :
    (b.check now).2.state = .halfOpen := by
  unfold check
  split
  · exact h
  · rw [h]
    exact (state_tryHalfOpenProbe b now).trans h

theorem state_record_halfOpen {b : Breaker} (h : b.state = .halfOpen)
    (henabled : b.config.enabled = true) (outcome : Outcome) (now : Instant) :
    (b.record outcome now).state = if outcome = .failure then .open else .closed := by
  unfold record
  rw [if_neg (by simp [henabled])]
  dsimp only
  rw [h]
  dsimp only
  split
  · exact trip_state b now _ _
  · exact close_state b _ _

end Breaker

namespace Session

theorem fixed_after_run (acts : List SessionAction) : ∀ s : Session,
    (s.run acts).world.breaker.config = s.world.breaker.config := by
  induction acts with
  | nil => exact fun s => rfl
  | cons a acts ih =>
    intro s
    have hafter : ∀ b : Action, (s.after (s.world.step b)).world.breaker.config =
        s.world.breaker.config := by
      intro b
      unfold after
      split <;> exact (World.fixed_step s.world b).1
    refine (ih (s.step a)).trans ?_
    cases a with
    | check => rcases s.step_check_cases with heq | heq <;> rw [heq] <;> exact hafter .check
    | record request outcome =>
      by_cases hmem : request ∈ s.outstanding
      · rw [step_record hmem]
        exact hafter (.record outcome)
      · rw [step_record_absent hmem]
    | errorRate => exact hafter .errorRate
    | advance d => exact hafter (.advance d)

/-- **Who decides recovery.** A half-open breaker moves on only when an
admitted request is recorded, to `Closed` on a success and to `Open` on a
failure. The request is a probe of this period or one that was under way
when the period began; if all of those have been recorded already, it is a
probe. -/
theorem recovery_decided_by_record (config : BreakerConfig) (henabled : config.enabled = true)
    (t₀ : Instant) (acts : List SessionAction) (a : SessionAction) :
    let s := (start config t₀).run acts
    s.state = .halfOpen → (s.step a).state ≠ .halfOpen →
    ∃ request outcome, a = .record request outcome ∧ request ∈ s.outstanding ∧
      (outcome = .success ∧ (s.step a).state = .closed ∨
        outcome = .failure ∧ (s.step a).state = .open) ∧
      (request.period = s.period ∨ request ∈ s.carried) ∧
      ((∀ r ∈ s.carried, r ∉ s.outstanding) → request.period = s.period) := by
  intro s hs hleft
  have hdated : s.Dated := dated_run acts (start_dated config t₀)
  have hon : s.world.breaker.config.enabled = true := by
    rw [fixed_after_run acts (start config t₀)]
    exact henabled
  cases a with
  | check =>
    have hstay : (s.step .check).state = .halfOpen := by
      rcases s.step_check_cases with heq | heq <;> rw [heq] <;>
        exact (state_after s _).trans (Breaker.state_check_halfOpen hs _)
    exact absurd hstay hleft
  | errorRate => exact absurd ((state_after s (s.world.step .errorRate)).trans hs) hleft
  | advance d => exact absurd ((state_after s (s.world.step (.advance d))).trans hs) hleft
  | record request outcome =>
    by_cases hmem : request ∈ s.outstanding
    · have hnext : (s.step (.record request outcome)).state =
          if outcome = .failure then .open else .closed := by
        rw [step_record hmem]
        exact (state_after s _).trans (Breaker.state_record_halfOpen hs hon outcome _)
      refine ⟨request, outcome, rfl, hmem, ?_, hdated request hmem, fun hdone => ?_⟩
      · cases outcome with
        | success => exact .inl ⟨rfl, hnext⟩
        | failure => exact .inr ⟨rfl, hnext⟩
      · rcases hdated request hmem with hp | hc
        · exact hp
        · exact absurd hmem (hdone request hc)
    · rw [step_record_absent hmem] at hleft
      exact absurd hs hleft

/-- A request `⟨0, 0⟩` takes its time; another one fails and trips the
breaker, and after the cool-down a probe is under way. -/
def slowRequest : Session :=
  (start (World.touchy (fromMillis 50)) 0).run
    [.check, .check, .record ⟨1, 0⟩ .failure, .advance (fromMillis 50), .check]

theorem recovery_decided_by_record_probe :
    (slowRequest.step (.record ⟨2, 1⟩ .failure)).state = .open ∧
      ∃ request outcome, SessionAction.record ⟨2, 1⟩ .failure = .record request outcome ∧
        request ∈ slowRequest.outstanding ∧ outcome = .failure := by
  obtain ⟨request, outcome, ha, hmem, hdecided, -, -⟩ :=
    recovery_decided_by_record (World.touchy (fromMillis 50)) rfl 0 _ (.record ⟨2, 1⟩ .failure)
      (by decide : slowRequest.state = .halfOpen) (by decide)
  refine ⟨by decide, request, outcome, ha, hmem, ?_⟩
  rcases hdecided with ⟨-, hclosed⟩ | ⟨hfail, -⟩
  · exact absurd hclosed (by decide)
  · exact hfail

/-- The slow request succeeds and closes the breaker: it was admitted before
the half-open period began. -/
theorem slowRequest_closes :
    slowRequest.state = .halfOpen ∧ slowRequest.period = 1 ∧ ⟨0, 0⟩ ∈ slowRequest.outstanding ∧
      (slowRequest.step (.record ⟨0, 0⟩ .success)).state = .closed := by
  decide

end Session

end GrokBuild.CircuitBreaker
