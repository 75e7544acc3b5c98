import Mathlib.Tactic

/-!
# Circuit breaker: the state machine

`window.rs` and `breaker.rs`. An instant is a number of nanoseconds, a
duration too; the calls that read the clock get the instant as an argument.
The atomics are plain fields: every call runs to completion, so a
compare-exchange is a test and a store. Telemetry is kept as a list.
-/

namespace GrokBuild.CircuitBreaker

abbrev Instant := Nat

abbrev Duration := Nat

def nanosPerMilli : Nat := 1000000

def fromMillis (ms : Nat) : Duration := ms * nanosPerMilli

/-- `as_millis() as u64`. -/
def asMillisU64 (d : Duration) : Nat := d / nanosPerMilli % 2 ^ 64

/-- Subtraction of `usize`, as a build without overflow checks does it. -/
def wrappingSub (a b : Nat) : Nat := (a + 2 ^ 64 - b) % 2 ^ 64

theorem wrappingSub_of_le {a b : Nat} (h : b ≤ a) (ha : a < 2 ^ 64) :
    wrappingSub a b = a - b := by
  unfold wrappingSub
  omega

/-! ## The sliding window -/

def maxWindowEntries : Nat := 10000

/-- `SlidingWindow`: the samples, oldest first, and the count of the failed
ones. -/
structure SlidingWindow where
  entries : List (Instant × Bool)
  failures : Nat
  deriving DecidableEq, Repr

namespace SlidingWindow

def new : SlidingWindow := ⟨[], 0⟩

/-- A sample leaves the window at the front. -/
def popFront (w : SlidingWindow) : SlidingWindow :=
  match w.entries with
  | [] => w
  | (_, wasFailure) :: rest =>
    ⟨rest, if wasFailure then wrappingSub w.failures 1 else w.failures⟩

def push (w : SlidingWindow) (isFailure : Bool) (instant : Instant) : SlidingWindow :=
  let w := if w.entries.length ≥ maxWindowEntries then w.popFront else w
  ⟨w.entries ++ [(instant, isFailure)], if isFailure then w.failures + 1 else w.failures⟩

/-- The loop of `evict`. -/
def evictBefore (cutoff : Instant) : List (Instant × Bool) → Nat → SlidingWindow
  | [], failures => ⟨[], failures⟩
  | (ts, wasFailure) :: rest, failures =>
    if ts < cutoff then
      evictBefore cutoff rest (if wasFailure then wrappingSub failures 1 else failures)
    else ⟨(ts, wasFailure) :: rest, failures⟩

/-- `evict`. `checked_sub` gives nothing when the cutoff would lie before
the first instant there is. -/
def evict (w : SlidingWindow) (window : Duration) (now : Instant) : SlidingWindow :=
  if window ≤ now then evictBefore (now - window) w.entries w.failures else w

def sampleCount (w : SlidingWindow) : Nat := w.entries.length

def clear (_ : SlidingWindow) : SlidingWindow := new

end SlidingWindow

/-! ## The breaker -/

inductive BreakerState where
  | closed
  | open
  | halfOpen
  deriving DecidableEq, Repr

inductive Outcome where
  | success
  | failure
  deriving DecidableEq, Repr

/-- `BreakerConfig`, without the failure codes, which the breaker only hands
out. `rateReached failures samples` is the comparison
`error_rate() >= error_rate_threshold` of floating point numbers. -/
structure BreakerConfig where
  windowDuration : Duration
  minSamples : Nat
  rateReached : Nat → Nat → Bool
  openDuration : Duration
  halfOpenMaxProbes : Nat
  enabled : Bool

/-- The calls of an `Observer`. -/
inductive Notification where
  | stateChange (old new : BreakerState) (reason : String)
  | probeAdmission (allowed : Bool)
  | outcome (outcome : Outcome) (status : BreakerState)
  deriving DecidableEq, Repr

/-- What `check` answers: go ahead, or the `retry_after` of a
`BreakerOpen`. -/
inductive Verdict where
  | admitted
  | refused (retryAfter : Duration)
  deriving DecidableEq, Repr

/-- `CircuitBreakerInner`. -/
structure Breaker where
  config : BreakerConfig
  state : BreakerState
  baseline : Instant
  openedAtMillis : Nat
  halfOpenProbes : Nat
  probeClaimedAtMillis : Nat
  isOpenFast : Bool
  window : SlidingWindow
  notifications : List Notification

namespace Breaker

def withClock (config : BreakerConfig) (now : Instant) : Breaker where
  config := { config with halfOpenMaxProbes := max config.halfOpenMaxProbes 1 }
  state := .closed
  baseline := now
  openedAtMillis := 0
  halfOpenProbes := 0
  probeClaimedAtMillis := 0
  isOpenFast := false
  window := .new
  notifications := []

def notify (b : Breaker) (n : Notification) : Breaker :=
  { b with notifications := b.notifications ++ [n] }

def isOpen (b : Breaker) : Bool := b.isOpenFast

def elapsedMillis (b : Breaker) (now : Instant) : Nat := asMillisU64 (now - b.baseline)

/-- `error_rate`, of which only the eviction is seen. -/
def errorRate (b : Breaker) (now : Instant) : Breaker :=
  { b with window := b.window.evict b.config.windowDuration now }

def trip (b : Breaker) (now : Instant) (prev : BreakerState) (reason : String) : Breaker :=
  let b := { b with
    state := .open
    openedAtMillis := b.elapsedMillis now
    halfOpenProbes := 0
    isOpenFast := true }
  if prev ≠ .open then b.notify (.stateChange prev .open reason) else b

def close (b : Breaker) (prev : BreakerState) (reason : String) : Breaker :=
  let b := { b with
    state := .closed
    window := b.window.clear
    halfOpenProbes := 0
    isOpenFast := false }
  if prev ≠ .closed then b.notify (.stateChange prev .closed reason) else b

def halfOpenProbeBackoff : Duration := fromMillis 50

def leaseMillis (b : Breaker) : Nat := asMillisU64 b.config.openDuration

def tryHalfOpenProbe (b : Breaker) (now : Instant) : Verdict × Breaker :=
  let nowMillis := b.elapsedMillis now
  if b.halfOpenProbes < b.config.halfOpenMaxProbes then
    (.admitted,
      { b with
        halfOpenProbes := b.halfOpenProbes + 1
        probeClaimedAtMillis := nowMillis }.notify (.probeAdmission true))
  else if nowMillis - b.probeClaimedAtMillis ≥ b.leaseMillis then
    (.admitted, { b with probeClaimedAtMillis := nowMillis }.notify (.probeAdmission true))
  else
    (.refused (min halfOpenProbeBackoff b.config.openDuration), b.notify (.probeAdmission false))

def casState (b : Breaker) (current new : BreakerState) : Option Breaker :=
  if b.state = current then some { b with state := new } else none

/-- The time since the breaker opened, as `check_open` computes it. -/
def sinceOpened (b : Breaker) (now : Instant) : Duration :=
  fromMillis (b.elapsedMillis now - b.openedAtMillis)

/-- The refusal of an open breaker. -/
def refuseOpen (b : Breaker) (now : Instant) : Verdict :=
  .refused (b.config.openDuration - b.sinceOpened now)

def checkOpen (b : Breaker) (now : Instant) : Verdict × Breaker :=
  if b.sinceOpened now ≥ b.config.openDuration then
    match b.casState .open .halfOpen with
    | some b =>
      ({ b with isOpenFast := false }.notify
        (.stateChange .open .halfOpen "open_elapsed")).tryHalfOpenProbe now
    | none =>
      match b.state with
      | .closed => (.admitted, b)
      | .halfOpen => b.tryHalfOpenProbe now
      | .open => (b.refuseOpen now, b)
  else (b.refuseOpen now, b)

def check (b : Breaker) (now : Instant) : Verdict × Breaker :=
  if b.config.enabled = false then (.admitted, b)
  else match b.state with
    | .closed => (.admitted, b)
    | .open => b.checkOpen now
    | .halfOpen => b.tryHalfOpenProbe now

/-- A sample enters the window. -/
def pushSample (b : Breaker) (isFailure : Bool) (now : Instant) : Breaker :=
  { b with window := (b.window.push isFailure now).evict b.config.windowDuration now }

/-- Does the window trip a closed breaker? -/
def shouldTrip (b : Breaker) : Bool :=
  b.window.sampleCount ≥ b.config.minSamples &&
    b.config.rateReached b.window.failures b.window.sampleCount

def record (b : Breaker) (outcome : Outcome) (now : Instant) : Breaker :=
  if b.config.enabled = false then b
  else
    let isFailure := outcome = .failure
    let b := match b.state with
      | .closed =>
        let b := b.pushSample isFailure now
        if b.shouldTrip then b.trip now .closed "trip" else b
      | .halfOpen =>
        if isFailure then b.trip now .halfOpen "probe_failure"
        else b.close .halfOpen "probe_success"
      | .open => b.pushSample isFailure now
    b.notify (.outcome outcome b.state)

end Breaker

end GrokBuild.CircuitBreaker
