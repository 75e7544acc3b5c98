import GrokBuild.CircuitBreaker.Breaker

/-!
# Circuit breaker: runs

A run is a sequence of calls and clock advances. `Sound` holds in every
state of a run; how long an open breaker refuses and how many probes a
half-open one admits is read off the checks of a run (`checks`). The
breaker measures time in whole milliseconds since it was built, and so do
the statements here.
-/

namespace GrokBuild.CircuitBreaker

open List

/-! ## The window counts its failures -/

namespace SlidingWindow

/-- The counter is the number of failed samples. -/
structure Exact (w : SlidingWindow) : Prop where
  failures : w.failures = w.entries.countP (·.2)
  bounded : w.entries.length ≤ maxWindowEntries

theorem wrappingSub_countP (s : Instant × Bool) (rest : List (Instant × Bool))
    (h : (s :: rest).length ≤ maxWindowEntries) :
    (if s.2 then wrappingSub ((s :: rest).countP (·.2)) 1 else (s :: rest).countP (·.2)) =
      rest.countP (·.2) := by
  have hle : rest.countP (·.2) ≤ rest.length := countP_le_length
  unfold maxWindowEntries at h
  rw [length_cons] at h
  cases hs : s.2 with
  | false => simp [hs]
  | true =>
    rw [countP_cons, hs, if_pos rfl, if_pos rfl, wrappingSub_of_le (by omega) (by omega)]
    omega

theorem Exact.new : Exact .new := ⟨rfl, by decide⟩

variable {w : SlidingWindow}

theorem Exact.popFront (h : w.Exact) : w.popFront.Exact := by
  obtain ⟨entries, failures⟩ := w
  obtain ⟨hf, hb⟩ := h
  cases entries with
  | nil => exact ⟨hf, hb⟩
  | cons s rest =>
    refine ⟨?_, ?_⟩
    · show (if s.2 then wrappingSub failures 1 else failures) = _
      rw [show failures = (s :: rest).countP (·.2) from hf]
      exact wrappingSub_countP s rest hb
    · show rest.length ≤ _
      rw [length_cons] at hb
      omega

theorem Exact.push (h : w.Exact) (isFailure : Bool) (t : Instant) : (w.push isFailure t).Exact := by
  -- the cap makes room before the new sample comes in
  have hroom : ∃ v : SlidingWindow, v.Exact ∧ v.entries.length < maxWindowEntries ∧
      w.push isFailure t =
        ⟨v.entries ++ [(t, isFailure)], if isFailure then v.failures + 1 else v.failures⟩ := by
    by_cases hfull : w.entries.length ≥ maxWindowEntries
    · refine ⟨w.popFront, h.popFront, ?_, by simp only [SlidingWindow.push, if_pos hfull]⟩
      have hb := h.bounded
      obtain ⟨entries, failures⟩ := w
      cases entries with
      | nil => simp [maxWindowEntries] at hfull
      | cons s rest =>
        show rest.length < _
        simp only [length_cons] at hb
        omega
    · exact ⟨w, h, by omega, by simp only [SlidingWindow.push, if_neg hfull]⟩
  obtain ⟨v, hv, hlt, heq⟩ := hroom
  rw [heq]
  constructor
  · rw [countP_append, ← hv.failures]
    cases isFailure <;> simp
  · simp only [length_append, length_singleton]
    omega

theorem Exact.evictBefore (cutoff : Instant) (entries : List (Instant × Bool)) :
    entries.length ≤ maxWindowEntries →
    (SlidingWindow.evictBefore cutoff entries (entries.countP (·.2))).Exact := by
  induction entries with
  | nil => exact fun h => ⟨rfl, h⟩
  | cons s rest ih =>
    intro h
    obtain ⟨ts, wasFailure⟩ := s
    have hnext := wrappingSub_countP (ts, wasFailure) rest h
    unfold SlidingWindow.evictBefore
    split
    · rw [hnext]
      apply ih
      rw [length_cons] at h
      omega
    · exact ⟨rfl, h⟩

theorem Exact.evict (h : w.Exact) (window : Duration) (now : Instant) : (w.evict window now).Exact := by
  unfold SlidingWindow.evict
  split
  · rw [h.failures]
    exact Exact.evictBefore _ _ h.bounded
  · exact h

end SlidingWindow

/-! ## What every call preserves -/

namespace Breaker

/-- The mirror, the probe counter and the window are in step with the
state. -/
structure Sound (b : Breaker) : Prop where
  fast : b.isOpenFast = decide (b.state = .open)
  slots : 1 ≤ b.config.halfOpenMaxProbes
  probes : b.halfOpenProbes ≤ b.config.halfOpenMaxProbes
  noProbes : b.state ≠ .halfOpen → b.halfOpenProbes = 0
  window : b.window.Exact

theorem Sound.withClock (config : BreakerConfig) (now : Instant) :
    (withClock config now).Sound where
  fast := rfl
  slots := Nat.le_max_right _ _
  probes := Nat.zero_le _
  noProbes _ := rfl
  window := .new

variable {b : Breaker}

theorem Sound.notify (h : b.Sound) (n : Notification) : (b.notify n).Sound :=
  ⟨h.fast, h.slots, h.probes, h.noProbes, h.window⟩

theorem Sound.trip (h : b.Sound) (now : Instant) (prev : BreakerState) (reason : String) :
    (b.trip now prev reason).Sound := by
  have hopen : Sound { b with
      state := .open
      openedAtMillis := b.elapsedMillis now
      halfOpenProbes := 0
      isOpenFast := true } :=
    ⟨rfl, h.slots, Nat.zero_le _, fun _ => rfl, h.window⟩
  unfold Breaker.trip
  dsimp only
  split
  · exact hopen.notify _
  · exact hopen

theorem Sound.close (h : b.Sound) (prev : BreakerState) (reason : String) :
    (b.close prev reason).Sound := by
  have hclosed : Sound { b with
      state := .closed
      window := b.window.clear
      halfOpenProbes := 0
      isOpenFast := false } :=
    ⟨rfl, h.slots, Nat.zero_le _, fun _ => rfl, .new⟩
  unfold Breaker.close
  dsimp only
  split
  · exact hclosed.notify _
  · exact hclosed

theorem Sound.pushSample (h : b.Sound) (isFailure : Bool) (now : Instant) :
    (b.pushSample isFailure now).Sound :=
  ⟨h.fast, h.slots, h.probes, h.noProbes, (h.window.push isFailure now).evict _ now⟩

theorem Sound.record (h : b.Sound) (outcome : Outcome) (now : Instant) :
    (b.record outcome now).Sound := by
  unfold Breaker.record
  split
  · exact h
  · apply Sound.notify
    split
    · dsimp only
      split
      · exact (h.pushSample _ now).trip now _ _
      · exact h.pushSample _ now
    · split
      · exact h.trip now _ _
      · exact h.close _ _
    · exact h.pushSample _ now

theorem Sound.tryHalfOpenProbe (h : b.Sound) (hs : b.state = .halfOpen) (now : Instant) :
    (b.tryHalfOpenProbe now).2.Sound := by
  have hnot : ∀ {c : Breaker}, c.state = b.state → c.state ≠ .halfOpen → c.halfOpenProbes = 0 :=
    fun hc hne => absurd (hc.trans hs) hne
  unfold Breaker.tryHalfOpenProbe
  dsimp only
  split
  · next hlt =>
    apply Sound.notify
    exact ⟨h.fast, h.slots, hlt, hnot rfl, h.window⟩
  · split
    · apply Sound.notify
      exact ⟨h.fast, h.slots, h.probes, hnot rfl, h.window⟩
    · exact h.notify _

/-- The breaker as it enters `HalfOpen`. -/
def enterHalfOpen (b : Breaker) : Breaker :=
  { b with state := .halfOpen, isOpenFast := false }.notify
    (.stateChange .open .halfOpen "open_elapsed")

/-- Between calls the exchange of `check_open` does not fail. -/
theorem checkOpen_eq (hs : b.state = .open) (now : Instant) :
    b.checkOpen now =
      if b.sinceOpened now ≥ b.config.openDuration then b.enterHalfOpen.tryHalfOpenProbe now
      else (b.refuseOpen now, b) := by
  unfold checkOpen casState
  rw [if_pos hs]
  rfl

theorem Sound.enterHalfOpen (h : b.Sound) : b.enterHalfOpen.Sound := by
  apply Sound.notify
  exact ⟨rfl, h.slots, h.probes, fun hne => absurd rfl hne, h.window⟩

theorem Sound.check (h : b.Sound) (now : Instant) : (b.check now).2.Sound := by
  unfold Breaker.check
  split
  · exact h
  · split
    · exact h
    · next hs =>
      rw [checkOpen_eq hs]
      split
      · exact h.enterHalfOpen.tryHalfOpenProbe rfl now
      · exact h
    · next hs => exact h.tryHalfOpenProbe hs now

theorem Sound.errorRate (h : b.Sound) (now : Instant) : (b.errorRate now).Sound :=
  ⟨h.fast, h.slots, h.probes, h.noProbes, h.window.evict _ now⟩

end Breaker

/-! ## Runs -/

/-- The breaker and the clock. -/
structure World where
  breaker : Breaker
  now : Instant

inductive Action where
  | check
  | record (outcome : Outcome)
  | errorRate
  | advance (d : Duration)
  deriving DecidableEq, Repr

namespace World

def start (config : BreakerConfig) (now : Instant) : World := ⟨.withClock config now, now⟩

def step (w : World) : Action → World
  | .check => { w with breaker := (w.breaker.check w.now).2 }
  | .record outcome => { w with breaker := w.breaker.record outcome w.now }
  | .errorRate => { w with breaker := w.breaker.errorRate w.now }
  | .advance d => { w with now := w.now + d }

def run (w : World) (acts : List Action) : World := acts.foldl step w

/-- The checks of a run: when, and what was answered. -/
def checks (w : World) : List Action → List (Instant × Verdict)
  | [] => []
  | .check :: acts => (w.now, (w.breaker.check w.now).1) :: (w.step .check).checks acts
  | a :: acts => (w.step a).checks acts

/-- When the checks of a run were admitted. -/
def admissions (w : World) (acts : List Action) : List Instant :=
  ((w.checks acts).filter (·.2 = .admitted)).map (·.1)

end World

namespace Breaker

/-- A call leaves the configuration and the time base alone. -/
def Fixed (b c : Breaker) : Prop := c.config = b.config ∧ c.baseline = b.baseline

theorem Fixed.refl (b : Breaker) : Fixed b b := ⟨rfl, rfl⟩

theorem Fixed.trans {a b c : Breaker} (h : Fixed a b) (h' : Fixed b c) : Fixed a c :=
  ⟨h'.1.trans h.1, h'.2.trans h.2⟩

theorem fixed_tryHalfOpenProbe (b : Breaker) (now : Instant) :
    Fixed b (b.tryHalfOpenProbe now).2 := by
  unfold tryHalfOpenProbe
  dsimp only
  split
  · exact ⟨rfl, rfl⟩
  · split <;> exact ⟨rfl, rfl⟩

theorem fixed_check (b : Breaker) (now : Instant) : Fixed b (b.check now).2 := by
  unfold check
  split
  · exact .refl b
  · split
    · exact .refl b
    · next hs =>
      rw [checkOpen_eq hs]
      split
      · exact Fixed.trans (b := b.enterHalfOpen) ⟨rfl, rfl⟩ (fixed_tryHalfOpenProbe _ now)
      · exact .refl b
    · exact fixed_tryHalfOpenProbe b now

theorem fixed_trip (b : Breaker) (now : Instant) (prev : BreakerState) (reason : String) :
    Fixed b (b.trip now prev reason) := by
  unfold trip
  dsimp only
  split <;> exact ⟨rfl, rfl⟩

theorem fixed_close (b : Breaker) (prev : BreakerState) (reason : String) :
    Fixed b (b.close prev reason) := by
  unfold close
  dsimp only
  split <;> exact ⟨rfl, rfl⟩

theorem fixed_record (b : Breaker) (outcome : Outcome) (now : Instant) :
    Fixed b (b.record outcome now) := by
  unfold record
  split
  · exact .refl b
  · dsimp only
    split
    · split
      · exact fixed_trip (b.pushSample _ now) now _ _
      · exact ⟨rfl, rfl⟩
    · split
      · exact fixed_trip b now _ _
      · exact fixed_close b _ _
    · exact ⟨rfl, rfl⟩

end Breaker

namespace World

theorem sound_step {w : World} (h : w.breaker.Sound) (a : Action) : (w.step a).breaker.Sound := by
  cases a with
  | check => exact h.check w.now
  | record outcome => exact h.record outcome w.now
  | errorRate => exact h.errorRate w.now
  | advance d => exact h

theorem fixed_step (w : World) (a : Action) : Breaker.Fixed w.breaker (w.step a).breaker := by
  cases a with
  | check => exact Breaker.fixed_check w.breaker w.now
  | record outcome => exact Breaker.fixed_record w.breaker outcome w.now
  | errorRate => exact ⟨rfl, rfl⟩
  | advance d => exact .refl _

theorem sound_run (acts : List Action) : ∀ {w : World}, w.breaker.Sound →
    (w.run acts).breaker.Sound := by
  induction acts with
  | nil => exact fun h => h
  | cons a acts ih => exact fun h => ih (sound_step h a)

theorem fixed_run (acts : List Action) : ∀ w : World,
    Breaker.Fixed w.breaker (w.run acts).breaker := by
  induction acts with
  | nil => exact fun w => .refl _
  | cons a acts ih => exact fun w => (fixed_step w a).trans (ih (w.step a))

end World

/-! ## Cooling down -/

/-- What the breaker reads between two instants: whole milliseconds since
it was built. -/
def readBetween (start t u : Instant) : Duration :=
  fromMillis (asMillisU64 (u - start) - asMillisU64 (t - start))

namespace World

/-- The breaker tripped at `t` and has been open since. -/
structure OpenSince (config : BreakerConfig) (start t : Instant) (w : World) : Prop where
  configured : w.breaker.config = config
  baseline : w.breaker.baseline = start
  state : w.breaker.state = .open
  opened : w.breaker.openedAtMillis = asMillisU64 (t - start)

variable {config : BreakerConfig} {start t : Instant} {w : World}

theorem OpenSince.sinceOpened (h : OpenSince config start t w) (u : Instant) :
    w.breaker.sinceOpened u = readBetween start t u := by
  unfold Breaker.sinceOpened Breaker.elapsedMillis
  rw [h.baseline, h.opened]
  rfl

theorem OpenSince.check_early (h : OpenSince config start t w) (henabled : config.enabled = true)
    (hearly : readBetween start t w.now < config.openDuration) :
    w.breaker.check w.now =
      (.refused (config.openDuration - readBetween start t w.now), w.breaker) := by
  have hlt : ¬ w.breaker.sinceOpened w.now ≥ w.breaker.config.openDuration := by
    rw [h.sinceOpened, h.configured]
    exact Nat.not_le_of_lt hearly
  have hon : w.breaker.config.enabled ≠ false := by simp [h.configured, henabled]
  rw [Breaker.check, if_neg hon, h.state]
  show w.breaker.checkOpen w.now = _
  rw [Breaker.checkOpen_eq h.state, if_neg hlt, Breaker.refuseOpen, h.sinceOpened, h.configured]

theorem OpenSince.check_late (h : OpenSince config start t w) (hs : w.breaker.Sound)
    (henabled : config.enabled = true)
    (hlate : config.openDuration ≤ readBetween start t w.now) :
    (w.breaker.check w.now).1 = .admitted := by
  have hge : w.breaker.sinceOpened w.now ≥ w.breaker.config.openDuration := by
    rw [h.sinceOpened, h.configured]
    exact hlate
  have hon : w.breaker.config.enabled ≠ false := by simp [h.configured, henabled]
  have hslot : w.breaker.enterHalfOpen.halfOpenProbes <
      w.breaker.enterHalfOpen.config.halfOpenMaxProbes := by
    have hzero := hs.noProbes (by rw [h.state]; decide)
    have hone := hs.slots
    show w.breaker.halfOpenProbes < w.breaker.config.halfOpenMaxProbes
    omega
  rw [Breaker.check, if_neg hon, h.state]
  show (w.breaker.checkOpen w.now).1 = _
  rw [Breaker.checkOpen_eq h.state, if_pos hge, Breaker.tryHalfOpenProbe,
    if_pos hslot]

theorem OpenSince.record (h : OpenSince config start t w) (henabled : config.enabled = true)
    (outcome : Outcome) : OpenSince config start t (w.step (.record outcome)) := by
  have hon : w.breaker.config.enabled ≠ false := by simp [h.configured, henabled]
  have heq : (w.step (.record outcome)).breaker =
      (w.breaker.pushSample (decide (outcome = .failure)) w.now).notify
        (.outcome outcome .open) := by
    show w.breaker.record outcome w.now = _
    rw [Breaker.record, if_neg hon]
    simp only [h.state]
    rw [Breaker.pushSample, h.state]
  exact ⟨heq ▸ h.configured, heq ▸ h.baseline, heq ▸ h.state, heq ▸ h.opened⟩

/-- As long as all checks come early the breaker stays open, and each check
is told the time that remains. -/
theorem OpenSince.run (henabled : config.enabled = true) (acts : List Action) : ∀ {w : World},
    OpenSince config start t w →
    (∀ c ∈ w.checks acts, readBetween start t c.1 < config.openDuration) →
    OpenSince config start t (w.run acts) ∧
      ∀ c ∈ w.checks acts, c.2 = .refused (config.openDuration - readBetween start t c.1) := by
  induction acts with
  | nil => exact fun h _ => ⟨h, fun c hc => by cases hc⟩
  | cons a acts ih =>
    intro w h hearly
    cases a with
    | check =>
      have hnow : readBetween start t w.now < config.openDuration :=
        hearly (w.now, (w.breaker.check w.now).1) mem_cons_self
      have hfirst := h.check_early henabled hnow
      -- a refused check leaves the breaker as it was, so the induction goes on from here
      have hsame : w.step .check = w := by
        show ({ w with breaker := (w.breaker.check w.now).2 } : World) = w
        rw [hfirst]
      have hrest : ∀ c ∈ (w.step .check).checks acts,
          readBetween start t c.1 < config.openDuration :=
        fun c hc => hearly c (mem_cons_of_mem _ hc)
      obtain ⟨hrun, hall⟩ := ih (hsame.symm ▸ h) hrest
      refine ⟨hrun, fun c hc => ?_⟩
      rcases mem_cons.mp hc with rfl | hc
      · rw [hfirst]
      · exact hall c hc
    | record outcome => exact ih (h.record henabled outcome) hearly
    | errorRate => exact ih ⟨h.configured, h.baseline, h.state, h.opened⟩ hearly
    | advance d => exact ih ⟨h.configured, h.baseline, h.state, h.opened⟩ hearly

end World

/-! ## Probing -/

/-- Admissions after the one at `t`: `free` more at once, then each at least
a lease after the one before it. -/
def Spaced (start : Instant) (lease : Nat) : Nat → Instant → List Instant → Prop
  | _, _, [] => True
  | free + 1, _, u :: us => Spaced start lease free u us
  | 0, t, u :: us =>
    lease ≤ asMillisU64 (u - start) - asMillisU64 (t - start) ∧ Spaced start lease 0 u us

namespace World

/-- Half-open, with the last probe admitted at `t` and `free` slots left. -/
structure Probing (config : BreakerConfig) (start t : Instant) (free : Nat) (w : World) : Prop where
  configured : w.breaker.config = config
  baseline : w.breaker.baseline = start
  state : w.breaker.state = .halfOpen
  claimed : w.breaker.probeClaimedAtMillis = asMillisU64 (t - start)
  slots : w.breaker.halfOpenProbes + free = config.halfOpenMaxProbes

variable {config : BreakerConfig} {start t : Instant} {w : World}

theorem check_halfOpen (hs : w.breaker.state = .halfOpen) (hon : w.breaker.config.enabled = true) :
    w.breaker.check w.now = w.breaker.tryHalfOpenProbe w.now := by
  rw [Breaker.check, if_neg (by simp [hon]), hs]

/-- A check of a half-open breaker takes a free slot, or an old lease, or is
refused. -/
theorem Probing.check {free : Nat} (h : Probing config start t free w)
    (henabled : config.enabled = true) :
    (∃ left, free = left + 1 ∧ (w.breaker.check w.now).1 = .admitted ∧
      Probing config start w.now left (w.step .check)) ∨
    (free = 0 ∧ asMillisU64 config.openDuration ≤
        asMillisU64 (w.now - start) - asMillisU64 (t - start) ∧
      (w.breaker.check w.now).1 = .admitted ∧ Probing config start w.now 0 (w.step .check)) ∨
    ((w.breaker.check w.now).1 ≠ .admitted ∧ Probing config start t free (w.step .check)) := by
  have heq := check_halfOpen h.state (by rw [h.configured]; exact henabled)
  have hnow : w.breaker.elapsedMillis w.now = asMillisU64 (w.now - start) := by
    rw [Breaker.elapsedMillis, h.baseline]
  have hlease : w.breaker.leaseMillis = asMillisU64 config.openDuration := by
    rw [Breaker.leaseMillis, h.configured]
  have hstep : (w.step .check).breaker = (w.breaker.tryHalfOpenProbe w.now).2 := by
    rw [← heq]
    rfl
  rw [heq]
  unfold Breaker.tryHalfOpenProbe at hstep ⊢
  rw [hnow, hlease, h.claimed, h.configured] at hstep ⊢
  by_cases hslot : w.breaker.halfOpenProbes < config.halfOpenMaxProbes
  · -- a free slot is taken
    rw [if_pos hslot] at hstep ⊢
    have hslots := h.slots
    refine .inl ⟨free - 1, by omega, rfl, ?_⟩
    constructor
    · rw [hstep]; rfl
    · rw [hstep]; exact h.baseline
    · rw [hstep]; exact h.state
    · rw [hstep]; rfl
    · rw [hstep]
      show w.breaker.halfOpenProbes + 1 + (free - 1) = _
      omega
  · rw [if_neg hslot] at hstep ⊢
    have hfree : free = 0 := by
      have hslots := h.slots
      omega
    by_cases hold : asMillisU64 (w.now - start) - asMillisU64 (t - start) ≥
        asMillisU64 config.openDuration
    · -- the lease is over: one more probe, and a new claim
      rw [if_pos hold] at hstep ⊢
      refine .inr (.inl ⟨hfree, hold, rfl, ?_⟩)
      constructor
      · rw [hstep]; rfl
      · rw [hstep]; exact h.baseline
      · rw [hstep]; exact h.state
      · rw [hstep]; rfl
      · rw [hstep]; exact hfree ▸ h.slots
    · -- refused, and nothing changes
      rw [if_neg hold] at hstep ⊢
      refine .inr (.inr ⟨(by intro e; cases e), ?_⟩)
      constructor
      · rw [hstep]; exact h.configured
      · rw [hstep]; exact h.baseline
      · rw [hstep]; exact h.state
      · rw [hstep]; exact h.claimed
      · rw [hstep]; exact h.slots

theorem admissions_check (w : World) (acts : List Action) :
    w.admissions (.check :: acts) =
      if (w.breaker.check w.now).1 = .admitted then w.now :: (w.step .check).admissions acts
      else (w.step .check).admissions acts := by
  unfold admissions
  rw [checks, filter_cons]
  split <;> simp_all

theorem Probing.spaced (henabled : config.enabled = true) (acts : List Action)
    (hacts : ∀ o, Action.record o ∉ acts) : ∀ {w : World} {t : Instant} {free : Nat},
    Probing config start t free w →
    Spaced start (asMillisU64 config.openDuration) free t (w.admissions acts) := by
  induction acts with
  | nil =>
    intro w t free h
    cases free <;> trivial
  | cons a acts ih =>
    intro w t free h
    have hrest : ∀ o, Action.record o ∉ acts := fun o ho => hacts o (mem_cons_of_mem _ ho)
    cases a with
    | check =>
      rw [admissions_check]
      rcases h.check henabled with ⟨left, hfree, hadm, hnext⟩ | ⟨hfree, hold, hadm, hnext⟩ |
        ⟨hadm, hnext⟩
      · rw [if_pos hadm, hfree]
        exact ih hrest hnext
      · rw [if_pos hadm, hfree]
        exact ⟨hold, ih hrest hnext⟩
      · rw [if_neg hadm]
        exact ih hrest hnext
    | record o => exact absurd mem_cons_self (hacts o)
    | errorRate => exact ih hrest ⟨h.configured, h.baseline, h.state, h.claimed, h.slots⟩
    | advance d => exact ih hrest ⟨h.configured, h.baseline, h.state, h.claimed, h.slots⟩

end World

/-! ## The run as a whole -/

namespace Breaker

theorem trip_openedAtMillis (b : Breaker) (now : Instant) (prev : BreakerState)
    (reason : String) : (b.trip now prev reason).openedAtMillis = b.elapsedMillis now := by
  unfold trip
  dsimp only
  split <;> rfl

theorem close_state (b : Breaker) (prev : BreakerState) (reason : String) :
    (b.close prev reason).state = .closed := by
  unfold close
  dsimp only
  split <;> rfl

theorem record_trips {b : Breaker} {outcome : Outcome} {now : Instant} (hs : b.state ≠ .open)
    (ho : (b.record outcome now).state = .open) :
    (b.record outcome now).openedAtMillis = b.elapsedMillis now := by
  unfold record at ho ⊢
  split
  · next hoff =>
    rw [if_pos hoff] at ho
    exact absurd ho hs
  · next hon =>
    rw [if_neg hon] at ho
    dsimp only at ho ⊢
    cases hstate : b.state with
    | closed =>
      simp only [hstate] at ho ⊢
      split
      · exact trip_openedAtMillis _ now _ _
      · next hno =>
        rw [if_neg hno] at ho
        exact absurd ho hs
    | halfOpen =>
      simp only [hstate] at ho ⊢
      split
      · exact trip_openedAtMillis b now _ _
      · next hno =>
        rw [if_neg hno] at ho
        rw [show ((b.close .halfOpen "probe_success").notify _).state = .closed from
          close_state b _ _] at ho
        cases ho
    | «open» => exact absurd hstate hs

end Breaker

theorem readBetween_eq {start t u : Instant} (ht : start ≤ t) (htu : t ≤ u)
    (hdt : nanosPerMilli ∣ t - start) (hdu : nanosPerMilli ∣ u - start)
    (hmax : (u - start) / nanosPerMilli < 2 ^ 64) : readBetween start t u = u - t := by
  unfold readBetween fromMillis asMillisU64
  unfold nanosPerMilli at *
  have hle : t - start ≤ u - start := Nat.sub_le_sub_right htu start
  have hdiv : (t - start) / 1000000 ≤ (u - start) / 1000000 := Nat.div_le_div_right hle
  rw [Nat.mod_eq_of_lt hmax, Nat.mod_eq_of_lt (Nat.lt_of_le_of_lt hdiv hmax), Nat.sub_mul,
    Nat.div_mul_cancel hdu, Nat.div_mul_cancel hdt]
  exact Nat.sub_sub_sub_cancel_right ht

namespace World

theorem start_sound (config : BreakerConfig) (now : Instant) : (start config now).breaker.Sound :=
  .withClock config now

/-- The configuration that a breaker runs with. -/
def clamped (config : BreakerConfig) : BreakerConfig :=
  { config with halfOpenMaxProbes := max config.halfOpenMaxProbes 1 }

theorem enters_probing {config : BreakerConfig} {t₀ : Instant} {w : World}
    (hsound : w.breaker.Sound) (hconfig : w.breaker.config = clamped config)
    (hbase : w.breaker.baseline = t₀) (henabled : config.enabled = true)
    (hs : w.breaker.state = .open) (ho : (w.step .check).breaker.state = .halfOpen) :
    (w.breaker.check w.now).1 = .admitted ∧
      Probing (clamped config) t₀ w.now (max config.halfOpenMaxProbes 1 - 1) (w.step .check) := by
  have hon : w.breaker.config.enabled ≠ false := by simp [hconfig, clamped, henabled]
  have hcheck : w.breaker.check w.now = w.breaker.checkOpen w.now := by
    rw [Breaker.check, if_neg hon, hs]
  have hstep : (w.step .check).breaker = (w.breaker.checkOpen w.now).2 := by
    rw [← hcheck]
    rfl
  have hlate : w.breaker.sinceOpened w.now ≥ w.breaker.config.openDuration := by
    by_contra hearly
    rw [hstep, Breaker.checkOpen_eq hs, if_neg hearly, hs] at ho
    cases ho
  have hzero : w.breaker.halfOpenProbes = 0 := hsound.noProbes (by rw [hs]; decide)
  have hslot : w.breaker.enterHalfOpen.halfOpenProbes <
      w.breaker.enterHalfOpen.config.halfOpenMaxProbes := by
    have hone := hsound.slots
    show w.breaker.halfOpenProbes < w.breaker.config.halfOpenMaxProbes
    omega
  rw [Breaker.checkOpen_eq hs, if_pos hlate, Breaker.tryHalfOpenProbe, if_pos hslot] at hcheck hstep
  refine ⟨by rw [hcheck], ?_⟩
  constructor
  · rw [hstep]; exact hconfig
  · rw [hstep]; exact hbase
  · rw [hstep]; rfl
  · rw [hstep]
    show asMillisU64 (w.now - w.breaker.baseline) = _
    rw [hbase]
  · rw [hstep]
    show w.breaker.halfOpenProbes + 1 + _ = max config.halfOpenMaxProbes 1
    omega

/-- **Runs of an enabled breaker.** The mirror is exact, probes are counted
within the slots and only while half-open, and the window counts its failed
samples. After a trip every check is refused with the time that remains,
and the first check after the cool-down is admitted. A half-open breaker
admits as many probes as it has slots, and from then on one for each
`open_duration` after the last. Times are read as whole milliseconds, which
for a clock that ticks in milliseconds are the times themselves. -/
theorem breaker_run (config : BreakerConfig) (henabled : config.enabled = true) (t₀ : Instant)
    (acts : List Action) :
    let w := (start config t₀).run acts
    (w.breaker.isOpen = decide (w.breaker.state = .open)) ∧
    (w.breaker.state = .halfOpen → w.breaker.halfOpenProbes ≤ max config.halfOpenMaxProbes 1) ∧
    (w.breaker.state ≠ .halfOpen → w.breaker.halfOpenProbes = 0) ∧
    (w.breaker.window.failures = w.breaker.window.entries.countP (·.2)) ∧
    (∀ outcome later, w.breaker.state ≠ .open →
      (w.step (.record outcome)).breaker.state = .open →
      (∀ c ∈ (w.step (.record outcome)).checks later,
        readBetween t₀ w.now c.1 < config.openDuration) →
      (∀ c ∈ (w.step (.record outcome)).checks later,
        c.2 = .refused (config.openDuration - readBetween t₀ w.now c.1)) ∧
      (config.openDuration ≤ readBetween t₀ w.now ((w.step (.record outcome)).run later).now →
        (((w.step (.record outcome)).run later).breaker.check
          ((w.step (.record outcome)).run later).now).1 = .admitted)) ∧
    (∀ later, w.breaker.state = .open → (w.step .check).breaker.state = .halfOpen →
      (∀ outcome, Action.record outcome ∉ later) →
      (w.breaker.check w.now).1 = .admitted ∧
      Spaced t₀ (asMillisU64 config.openDuration) (max config.halfOpenMaxProbes 1 - 1) w.now
        ((w.step .check).admissions later)) ∧
    (∀ t u, t₀ ≤ t → t ≤ u → nanosPerMilli ∣ t - t₀ → nanosPerMilli ∣ u - t₀ →
      (u - t₀) / nanosPerMilli < 2 ^ 64 → readBetween t₀ t u = u - t) := by
  intro w
  have hsound : w.breaker.Sound := sound_run acts (start_sound config t₀)
  obtain ⟨hconfig, hbase⟩ : w.breaker.config = clamped config ∧ w.breaker.baseline = t₀ :=
    fixed_run acts (start config t₀)
  refine ⟨hsound.fast, fun _ => ?_, hsound.noProbes, hsound.window.failures, ?_, ?_, ?_⟩
  · have hprobes := hsound.probes
    rw [hconfig] at hprobes
    exact hprobes
  · intro outcome later hs ho hearly
    have hfix := fixed_step w (.record outcome)
    have hopen : OpenSince (clamped config) t₀ w.now (w.step (.record outcome)) := by
      refine ⟨hfix.1.trans hconfig, hfix.2.trans hbase, ho, ?_⟩
      show (w.breaker.record outcome w.now).openedAtMillis = _
      rw [Breaker.record_trips hs ho, Breaker.elapsedMillis, hbase]
    obtain ⟨hrun, hall⟩ := OpenSince.run (show (clamped config).enabled = true from henabled) later
      hopen hearly
    have hsound' := sound_run later (sound_step hsound (.record outcome))
    exact ⟨hall, hrun.check_late hsound' henabled⟩
  · intro later hs ho hacts
    obtain ⟨hadm, hprobing⟩ := enters_probing hsound hconfig hbase henabled hs ho
    exact ⟨hadm, hprobing.spaced (show (clamped config).enabled = true from henabled) later hacts⟩
  · exact fun t u ht htu => readBetween_eq ht htu

/-- One failed request trips this breaker. -/
def touchy (openDuration : Duration) : BreakerConfig where
  windowDuration := fromMillis 60000
  minSamples := 1
  rateReached failures samples := decide (samples ≤ 2 * failures)
  openDuration := openDuration
  halfOpenMaxProbes := 1
  enabled := true

theorem breaker_run_refused :
    ∃ v, (fromMillis 20, v) ∈ ((start (touchy (fromMillis 50)) 0).step (.record .failure)).checks
        [.advance (fromMillis 20), .check] ∧ v = .refused (fromMillis 30) := by
  have hmem : (fromMillis 20, Verdict.refused (fromMillis 30)) ∈
      ((start (touchy (fromMillis 50)) 0).step (.record .failure)).checks
        [.advance (fromMillis 20), .check] := by decide
  obtain ⟨-, -, -, -, htrip, -⟩ := breaker_run (touchy (fromMillis 50)) rfl 0 []
  exact ⟨_, hmem, (htrip .failure [.advance (fromMillis 20), .check] (by decide) (by decide)
    (by decide)).1 _ hmem⟩

/-- Tripped 0.9 ms after it was built, with an `open_duration` of 1 ms, the
breaker admits a check 0.1 ms later. -/
theorem admits_early_within_a_millisecond :
    let w := (start (touchy (fromMillis 1)) 0).run [.advance 900000]
    let tripped := w.step (.record .failure)
    w.breaker.state = .closed ∧ tripped.breaker.state = .open ∧
      tripped.checks [.advance 100000, .check] = [(1000000, .admitted)] ∧
      1000000 < w.now + fromMillis 1 := by
  decide

end World

end GrokBuild.CircuitBreaker
