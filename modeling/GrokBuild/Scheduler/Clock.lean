import GrokBuild.Scheduler.Types

/-!
# The scheduler: versions

A reservation says which versions the next transitions will have; committing
one of them moves the clock there. `Fits` is what the assertions of a
reservation ask of it and of the clock.
-/

namespace GrokBuild.Scheduler

def maxSchedulerTransitions : Nat := 50

structure SchedulerClock where
  version : SchedulerVersion
  deriving DecidableEq

structure GenerationRollover where
  oldGeneration : Uuid
  newGeneration : Uuid
  deriving DecidableEq

structure SchedulerReservation where
  source : SchedulerVersion
  generation : Uuid
  nextRevision : UInt64
  remaining : Nat
  rollover : Option GenerationRollover
  deriving DecidableEq

structure SchedulerCommit where
  version : SchedulerVersion
  rollover : Option GenerationRollover
  deriving DecidableEq

/-- `u64::checked_add`. -/
def checkedAdd (a : UInt64) (n : Nat) : Option UInt64 :=
  if a.toNat + n < 2 ^ 64 then some (UInt64.ofNat (a.toNat + n)) else none

/-- `SchedulerClock::new`, at the generation that is drawn. -/
def SchedulerClock.new (generation : Uuid) : SchedulerClock := ⟨⟨generation, 0⟩⟩

/-- `prepare_transition`; `newGeneration` is what `now_v7` would give. -/
def SchedulerClock.prepareTransition (clock : SchedulerClock) (count : Nat)
    (newGeneration : Uuid) : Option SchedulerReservation :=
  if 0 < count ∧ count ≤ maxSchedulerTransitions then
    let rollover :=
      if (checkedAdd clock.version.revision count).isNone then
        some ⟨clock.version.generation, newGeneration⟩
      else none
    some {
      source := clock.version
      generation := (rollover.map (·.newGeneration)).getD clock.version.generation
      nextRevision := if rollover.isSome then 1 else clock.version.revision + 1
      remaining := count
      rollover }
  else none

namespace SchedulerReservation

def versionAt (r : SchedulerReservation) (offset : Nat) : Option SchedulerVersion :=
  if offset < r.remaining then some ⟨r.generation, r.nextRevision + UInt64.ofNat offset⟩
  else none

def commitNext (r : SchedulerReservation) (clock : SchedulerClock) :
    Option (SchedulerCommit × SchedulerReservation × SchedulerClock) :=
  if r.remaining = 0 then none
  else
    let expectedSource :=
      match r.rollover with
      | some _ => r.source
      | none => ⟨r.generation, r.nextRevision - 1⟩
    if clock.version ≠ expectedSource then none
    else do
      let version ← r.versionAt 0
      let remaining := r.remaining - 1
      let nextRevision ←
        if remaining > 0 then checkedAdd r.nextRevision 1 else some r.nextRevision
      some (⟨version, r.rollover⟩, { r with rollover := none, remaining, nextRevision },
        ⟨version⟩)

/-! ## What the assertions ask for -/

/-- The version the next commit gives. -/
def next (r : SchedulerReservation) : SchedulerVersion := ⟨r.generation, r.nextRevision⟩

/-- The reservation is of the versions behind the clock: in its generation,
or, when that has too few left, in a new one from the start. -/
structure Fits (r : SchedulerReservation) (clock : SchedulerClock) : Prop where
  remaining : 0 < r.remaining
  room : r.nextRevision.toNat + r.remaining ≤ 2 ^ 64
  same : r.rollover = none →
    r.generation = clock.version.generation ∧
      r.nextRevision.toNat = clock.version.revision.toNat + 1
  rolled : r.rollover ≠ none → r.source = clock.version ∧ r.nextRevision = 1

theorem versionAt_zero {r : SchedulerReservation} (h : 0 < r.remaining) :
    r.versionAt 0 = some r.next := by
  rw [versionAt, if_pos h, next]
  simp

end SchedulerReservation

theorem prepareTransition_fits (clock : SchedulerClock) {count : Nat} (newGeneration : Uuid)
    (hpos : 0 < count) (hle : count ≤ maxSchedulerTransitions) :
    ∃ r, clock.prepareTransition count newGeneration = some r ∧ r.Fits clock ∧
      r.remaining = count ∧
      (r.rollover ≠ none → r.generation = newGeneration) := by
  unfold maxSchedulerTransitions at hle
  by_cases hroom : clock.version.revision.toNat + count < 2 ^ 64
  · have hadd : checkedAdd clock.version.revision count =
        some (UInt64.ofNat (clock.version.revision.toNat + count)) := if_pos hroom
    refine ⟨⟨clock.version, clock.version.generation, clock.version.revision + 1, count, none⟩,
      ?_, ?_, rfl, fun h => absurd rfl h⟩
    · simp [SchedulerClock.prepareTransition, maxSchedulerTransitions, hpos, hle, hadd]
    · have hnext : (clock.version.revision + 1).toNat = clock.version.revision.toNat + 1 := by
        rw [UInt64.toNat_add]
        exact Nat.mod_eq_of_lt (by simp; omega)
      refine ⟨hpos, ?_, fun _ => ⟨rfl, hnext⟩, fun h => absurd rfl h⟩
      show (clock.version.revision + 1).toNat + count ≤ 2 ^ 64
      omega
  · have hadd : checkedAdd clock.version.revision count = none := if_neg hroom
    refine ⟨⟨clock.version, newGeneration, 1, count,
      some ⟨clock.version.generation, newGeneration⟩⟩, ?_, ?_, rfl, fun _ => rfl⟩
    · simp [SchedulerClock.prepareTransition, maxSchedulerTransitions, hpos, hle, hadd]
    · refine ⟨hpos, ?_, (fun h => by cases h), fun _ => ⟨rfl, rfl⟩⟩
      show 1 + count ≤ 2 ^ 64
      omega

/-- A commit succeeds, moves the clock to the version, and leaves the rest of
the reservation fitting. -/
theorem commitNext_fits {r : SchedulerReservation} {clock : SchedulerClock} (h : r.Fits clock) :
    ∃ r', r.commitNext clock = some (⟨r.next, r.rollover⟩, r', ⟨r.next⟩) ∧
      r'.remaining = r.remaining - 1 ∧ r'.rollover = none ∧
      (0 < r'.remaining → r'.Fits ⟨r.next⟩) := by
  have hexpected : clock.version =
      match r.rollover with
      | some _ => r.source
      | none => ⟨r.generation, r.nextRevision - 1⟩ := by
    cases hroll : r.rollover with
    | some rollover => exact (h.rolled (by simp [hroll])).1.symm
    | none =>
      obtain ⟨hgen, hrev⟩ := h.same hroll
      have hprev : r.nextRevision - 1 = clock.version.revision := by
        apply UInt64.toNat_inj.mp
        rw [UInt64.toNat_sub_of_le _ _ (UInt64.le_iff_toNat_le.mpr (by rw [hrev]; simp)), hrev]
        rfl
      rw [hprev, hgen]
  have hversion := SchedulerReservation.versionAt_zero h.remaining
  have hroom := h.room
  have hne : r.remaining ≠ 0 := by have := h.remaining; omega
  unfold SchedulerReservation.commitNext
  rw [if_neg hne]
  simp only [hexpected, ne_eq, not_true_eq_false, if_false, hversion, Option.bind_eq_bind,
    Option.bind_some]
  by_cases hmore : 0 < r.remaining - 1
  · have hlt : r.nextRevision.toNat + 1 < 2 ^ 64 := by omega
    have hadd : checkedAdd r.nextRevision 1 = some (UInt64.ofNat (r.nextRevision.toNat + 1)) :=
      if_pos hlt
    have hnat : (UInt64.ofNat (r.nextRevision.toNat + 1)).toNat = r.nextRevision.toNat + 1 :=
      UInt64.toNat_ofNat_of_lt hlt
    rw [if_pos hmore, hadd]
    refine ⟨_, rfl, rfl, rfl, fun _ => ⟨hmore, ?_, fun _ => ⟨rfl, hnat⟩, fun h => absurd rfl h⟩⟩
    show (UInt64.ofNat (r.nextRevision.toNat + 1)).toNat + (r.remaining - 1) ≤ _
    rw [hnat]
    omega
  · rw [if_neg hmore]
    exact ⟨_, rfl, rfl, rfl, fun hpos => absurd hpos hmore⟩

/-! ## The order of versions -/

/-- In one generation the revision grows. -/
def Precedes (v w : SchedulerVersion) : Prop :=
  v.generation = w.generation → v.revision.toNat < w.revision.toNat

end GrokBuild.Scheduler
