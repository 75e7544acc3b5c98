import GrokBuild.Scheduler.Actor

/-!
# The scheduler: intervals

`interval.rs`, and the dates that `types.rs` computes from an interval. A
panic is a `none`: `split_at` panics inside a character, and `chrono` outside
of the durations and dates it has. The first and last date are a parameter.
-/

namespace GrokBuild.Scheduler

open TextLines Str Option

def minimumIntervalSecs : Nat := 60

/-- The messages of `SchedulerError::InvalidInterval`. -/
inductive InvalidInterval where
  | empty
  | format (s : Text)
  | zero
  | suffix (suffix : Text)
  | tooLarge (s : Text)
  deriving DecidableEq

def unitSecs : Text → Option Nat
  | ['s'] => some 1
  | ['m'] => some 60
  | ['h'] => some 3600
  | ['d'] => some 86400
  | _ => none

/-- `s.split_at(s.len() - 1)`. -/
def splitLastByte (s : Text) : Option (Text × Text) :=
  match s.getLast? with
  | none => none
  | some c => if c.utf8Size = 1 then some (s.dropLast, [c]) else none

def parseInterval (s : Text) : Option (Except InvalidInterval UInt64) :=
  let s := trim s
  if s = [] then some (.error .empty)
  else
    (splitLastByte s).map fun (digits, suffix) =>
      match parseUsize digits with
      | none => .error (.format s)
      | some value =>
        if value = 0 then .error .zero
        else
          match unitSecs suffix with
          | none => .error (.suffix suffix)
          | some unitSecs =>
            if value * unitSecs ≤ usizeMax then
              .ok (UInt64.ofNat (max (value * unitSecs) minimumIntervalSecs))
            else .error (.tooLarge s)

/-! ## Dates -/

/-- `i64::MAX / 1000`. -/
def maxDurationSecs : Int := 9223372036854775

/-- `chrono::Duration::seconds`, in nanoseconds. -/
def durationSeconds (secs : Int64) : Option Int :=
  if -maxDurationSecs ≤ secs.toInt ∧ secs.toInt ≤ maxDurationSecs then
    some (secs.toInt * 1000000000)
  else none

/-- The dates there are, in nanoseconds since the epoch. -/
structure Calendar where
  minUtc : Int
  maxUtc : Int

def Calendar.Has (c : Calendar) (t : Int) : Prop := c.minUtc ≤ t ∧ t ≤ c.maxUtc

instance (c : Calendar) (t : Int) : Decidable (c.Has t) :=
  inferInstanceAs (Decidable (_ ∧ _))

/-- `DateTime<Utc> + Duration`. -/
def Calendar.add (c : Calendar) (t d : Int) : Option DateTime :=
  if c.Has (t + d) then some (t + d) else none

/-- `chrono::Duration::days(7)`. -/
def sevenDays : Int := 7 * 86400 * 1000000000

namespace ScheduledTask

/-- `created_at` of a task that is made at `now`. -/
def creation (c : Calendar) (now : DateTime) (intervalSecs : UInt64) (fireImmediately : Bool) :
    Option DateTime :=
  if fireImmediately then (durationSeconds intervalSecs.toInt64).bind fun d => c.add now (-d)
  else some now

/-- `expires_at` of a task that is made at `now`. -/
def expiry (c : Calendar) (now : DateTime) (recurring : Bool) : Option (Option DateTime) :=
  if recurring then (c.add now sevenDays).map some else some none

def withFireImmediately (c : Calendar) (id : Text) (now : DateTime) (intervalSecs : UInt64)
    (prompt : Text) (recurring durable fireImmediately : Bool) : Option ScheduledTask := do
  let createdAt ← creation c now intervalSecs fireImmediately
  let expiresAt ← expiry c now recurring
  some {
    id, intervalSecs, prompt, recurring, durable, foreground := false, createdAt
    lastFiredAt := none, expiresAt, lastSubagentId := none, iterationsSinceFresh := 0
    chainResetPending := false }

/-- `next_fire_at`, with its panics. -/
def checkedNextFireAt (c : Calendar) (task : ScheduledTask) : Option DateTime := do
  c.add (task.lastFiredAt.getD task.createdAt) (← durationSeconds task.intervalSecs.toInt64)

end ScheduledTask

/-! ## What an interval is -/

/-- `s` is a number and a unit, which make `secs` seconds. -/
def Written (s : Text) (secs : Nat) : Prop :=
  ∃ digits suffix value unit, s = digits ++ suffix ∧ parseUsize digits = some value ∧
    value ≠ 0 ∧ unitSecs suffix = some unit ∧ secs = value * unit

theorem unitSecs_eq_some {suffix : Text} {unit : Nat} (h : unitSecs suffix = some unit) :
    ∃ c, suffix = [c] ∧ c.utf8Size = 1 := by
  unfold unitSecs at h
  split at h
  · exact ⟨'s', rfl, rfl⟩
  · exact ⟨'m', rfl, rfl⟩
  · exact ⟨'h', rfl, rfl⟩
  · exact ⟨'d', rfl, rfl⟩
  · cases h

/-- The last character is a byte. -/
def EndsInByte (s : Text) : Prop := ∀ c ∈ s.getLast?, c.utf8Size = 1

theorem parseInterval_eq_none {s : Text} : parseInterval s = none ↔ ¬ EndsInByte (trim s) := by
  unfold parseInterval EndsInByte
  by_cases hempty : trim s = []
  · simp [hempty]
  · rw [if_neg hempty, map_eq_none_iff, splitLastByte]
    cases hlast : (trim s).getLast? with
    | none => exact absurd (List.getLast?_eq_none_iff.mp hlast) hempty
    | some c => simp

variable {n : UInt64}

theorem parseInterval_eq_ok {s : Text} :
    parseInterval s = some (.ok n) ↔
      ∃ secs, Written (trim s) secs ∧ secs ≤ usizeMax ∧
        n = UInt64.ofNat (max secs minimumIntervalSecs) := by
  unfold parseInterval
  constructor
  · intro h
    by_cases hempty : trim s = []
    · simp [hempty] at h
    rw [if_neg hempty, map_eq_some_iff] at h
    obtain ⟨⟨digits, suffix⟩, hsplit, hn⟩ := h
    have happend : trim s = digits ++ suffix := by
      unfold splitLastByte at hsplit
      cases hlast : (trim s).getLast? with
      | none => simp [hlast] at hsplit
      | some c =>
        rw [hlast] at hsplit
        obtain ⟨-, rfl, rfl⟩ : _ ∧ (trim s).dropLast = digits ∧ [c] = suffix := by
          simpa using hsplit
        exact (List.dropLast_append_getLast? c hlast).symm
    dsimp only at hn
    split at hn
    · cases hn
    next value hvalue =>
      split at hn
      · cases hn
      next hzero =>
        split at hn
        · cases hn
        next unit hunit =>
          split at hn
          next hle =>
            cases hn
            exact ⟨value * unit, ⟨digits, suffix, value, unit, happend, hvalue, hzero, hunit, rfl⟩,
              hle, rfl⟩
          · cases hn
  · rintro ⟨secs, ⟨digits, suffix, value, unit, happend, hvalue, hzero, hunit, rfl⟩, hle, rfl⟩
    obtain ⟨c, rfl, hsize⟩ := unitSecs_eq_some hunit
    have hempty : trim s ≠ [] := by simp [happend]
    have hsplit : splitLastByte (trim s) = some (digits, [c]) := by
      simp [splitLastByte, happend, hsize]
    rw [if_neg hempty, hsplit, map_some]
    simp only [hvalue, hunit, if_neg hzero, if_pos hle]

/-! ## What is scheduled -/

theorem toInt_toInt64 (n : UInt64) :
    n.toInt64.toInt = if 2 * n.toNat < 2 ^ 64 then (n.toNat : Int) else n.toNat - 2 ^ 64 := by
  show n.toBitVec.toInt = _
  rw [BitVec.toInt_eq_toNat_cond]
  rfl

theorem durationSeconds_of_le (h : (n.toNat : Int) ≤ maxDurationSecs) :
    durationSeconds n.toInt64 = some ((n.toNat : Int) * 1000000000) := by
  unfold maxDurationSecs at h
  have hcast : n.toInt64.toInt = n.toNat := by
    rw [toInt_toInt64, if_pos (by omega)]
  rw [durationSeconds, hcast, if_pos]
  unfold maxDurationSecs
  omega

theorem durationSeconds_of_lt (h : maxDurationSecs < n.toNat) :
    durationSeconds n.toInt64 ≠ some ((n.toNat : Int) * 1000000000) := by
  unfold maxDurationSecs at h
  intro hsome
  unfold durationSeconds maxDurationSecs at hsome
  have hlt := n.toNat_lt
  split at hsome
  next hrange =>
    rw [toInt_toInt64] at hsome hrange
    have heq := some.inj hsome
    split at hrange
    · omega
    next hbig =>
      rw [if_neg hbig] at heq
      omega
  · cases hsome

/-- The situation a task is made and asked in. -/
structure Making where
  id : Text
  now : Int
  prompt : Text
  recurring : Bool
  durable : Bool
  fireImmediately : Bool
  /-- When it has fired since. -/
  lastFiredAt : Option Int

/-- The dates of a situation are dates. -/
structure Making.Dated (c : Calendar) (m : Making) : Prop where
  now : c.Has m.now
  fired : ∀ t ∈ m.lastFiredAt, c.Has t

/-- A task of the situation with `n` seconds is made, and fires next exactly so
many seconds behind its last fire, or behind its making. -/
def FiresBehind (c : Calendar) (m : Making) (n : UInt64) : Prop :=
  ∃ task, ScheduledTask.withFireImmediately c m.id m.now n m.prompt m.recurring m.durable
      m.fireImmediately = some task ∧
    ∃ next, { task with lastFiredAt := m.lastFiredAt }.checkedNextFireAt c = some next ∧
      next = m.lastFiredAt.getD task.createdAt + n.toNat * 1000000000 ∧
      m.lastFiredAt.getD task.createdAt < next

/-- The interval is refused, or a task with it fires when it should. -/
def Schedules (c : Calendar) (s : Text) (m : Making) : Prop :=
  match parseInterval s with
  | none => False
  | some (.error _) => True
  | some (.ok n) => FiresBehind c m n

/-- A duration of so many seconds, and every date that is asked for. -/
structure InRange (c : Calendar) (m : Making) (secs : Nat) : Prop where
  duration : (secs : Int) ≤ maxDurationSecs
  created : m.fireImmediately = true → c.minUtc ≤ m.now - secs * 1000000000
  expiry : m.recurring = true → m.now + sevenDays ≤ c.maxUtc
  next : ∀ t, m.lastFiredAt = some t ∨ (m.lastFiredAt = none ∧ m.fireImmediately = false ∧ t = m.now) →
    t + secs * 1000000000 ≤ c.maxUtc

variable {c : Calendar}

theorem add_of_has {t d : Int} (h : c.Has (t + d)) : c.add t d = some (t + d) := if_pos h

theorem add_eq_some {t t' d : Int} (h : c.add t d = some t') : c.Has (t + d) ∧ t' = t + d := by
  unfold Calendar.add at h
  split at h
  next hhas =>
    cases h
    exact ⟨hhas, rfl⟩
  · cases h

theorem withFireImmediately_eq_some {m : Making} {task : ScheduledTask}
    (h : ScheduledTask.withFireImmediately c m.id m.now n m.prompt m.recurring m.durable m.fireImmediately = some task) :
    task.intervalSecs = n ∧
      ScheduledTask.creation c m.now n m.fireImmediately = some task.createdAt ∧
      (m.recurring = true → c.Has (m.now + sevenDays)) := by
  obtain ⟨createdAt, hcreated, h⟩ := bind_eq_some_iff.mp h
  obtain ⟨expiresAt, hexpires, h⟩ := bind_eq_some_iff.mp h
  cases h
  refine ⟨rfl, hcreated, fun hrec => ?_⟩
  rw [ScheduledTask.expiry, hrec, if_pos rfl, map_eq_some_iff] at hexpires
  obtain ⟨t, ht, -⟩ := hexpires
  exact (add_eq_some ht).1

theorem firesBehind_iff {m : Making} (hm : m.Dated c) (hpos : 0 < n.toNat) :
    FiresBehind c m n ↔ InRange c m n.toNat := by
  obtain ⟨hnow, hfired⟩ := hm
  constructor
  · rintro ⟨task, htask, next, hnext, heq, -⟩
    obtain ⟨rfl, hcreation, hexpiry⟩ := withFireImmediately_eq_some htask
    obtain ⟨d, hd, hadd⟩ := bind_eq_some_iff.mp hnext
    obtain ⟨hhas, rfl⟩ := add_eq_some hadd
    obtain rfl : d = task.intervalSecs.toNat * 1000000000 := Int.add_left_cancel heq
    have hduration : (task.intervalSecs.toNat : Int) ≤ maxDurationSecs := by
      by_contra hlt
      exact durationSeconds_of_lt (Int.not_le.mp hlt) hd
    refine ⟨hduration, fun hfire => ?_, fun hrec => (hexpiry hrec).2, fun t ht => ?_⟩
    · rw [ScheduledTask.creation, hfire, if_pos rfl, hd, bind_some] at hcreation
      exact (add_eq_some hcreation).1.1
    · have hanchor : m.lastFiredAt.getD task.createdAt = t := by
        obtain hsome | ⟨hnone, hfire, rfl⟩ := ht
        · rw [hsome, getD_some]
        · rw [ScheduledTask.creation, hfire, if_neg Bool.false_ne_true] at hcreation
          rw [hnone, getD_none, some.inj hcreation]
      rw [← hanchor]
      exact hhas.2
  · rintro ⟨hduration, hcreated, hexpiry, hnext⟩
    have hd := durationSeconds_of_le hduration
    have hpos' : (0 : Int) < n.toNat * 1000000000 := by omega
    obtain ⟨createdAt, hcreation, hanchor⟩ : ∃ createdAt,
        ScheduledTask.creation c m.now n m.fireImmediately = some createdAt ∧
          c.Has (m.lastFiredAt.getD createdAt + n.toNat * 1000000000) := by
      unfold ScheduledTask.creation
      cases hfire : m.fireImmediately with
      | true =>
        have hearlier := hcreated hfire
        have hhas : c.Has (m.now + -(n.toNat * 1000000000)) := ⟨hearlier, by have := hnow.2; omega⟩
        refine ⟨m.now + -(n.toNat * 1000000000), ?_, ?_⟩
        · rw [if_pos rfl, hd, bind_some, add_of_has hhas]
        · cases hlast : m.lastFiredAt with
          | none =>
            rw [getD_none, Int.add_assoc, Int.add_left_neg, Int.add_zero]
            exact hnow
          | some t =>
            have hmin := (hfired t hlast).1
            exact ⟨by rw [getD_some]; omega, hnext t (.inl hlast)⟩
      | false =>
        refine ⟨m.now, by rw [if_neg Bool.false_ne_true], ?_⟩
        cases hlast : m.lastFiredAt with
        | none =>
          have hmin := hnow.1
          exact ⟨by rw [getD_none]; omega, hnext m.now (.inr ⟨hlast, hfire, rfl⟩)⟩
        | some t =>
          have hmin := (hfired t hlast).1
          exact ⟨by rw [getD_some]; omega, hnext t (.inl hlast)⟩
    obtain ⟨expiresAt, hexpires⟩ : ∃ e, ScheduledTask.expiry c m.now m.recurring = some e := by
      unfold ScheduledTask.expiry
      cases hrec : m.recurring with
      | false => exact ⟨none, rfl⟩
      | true =>
        have hseven : (0 : Int) ≤ sevenDays := by decide
        have hhas : c.Has (m.now + sevenDays) := ⟨by have := hnow.1; omega, hexpiry hrec⟩
        exact ⟨some (m.now + sevenDays), by rw [if_pos rfl, add_of_has hhas, map_some]⟩
    obtain ⟨task, htask, rfl, rfl⟩ : ∃ task,
        ScheduledTask.withFireImmediately c m.id m.now n m.prompt m.recurring m.durable
          m.fireImmediately = some task ∧ task.intervalSecs = n ∧ task.createdAt = createdAt := by
      unfold ScheduledTask.withFireImmediately
      rw [hcreation, hexpires]
      exact ⟨_, rfl, rfl, rfl⟩
    refine ⟨task, htask, m.lastFiredAt.getD task.createdAt + task.intervalSecs.toNat * 1000000000,
      ?_, rfl, Int.lt_add_of_pos_right _ hpos'⟩
    show (durationSeconds task.intervalSecs.toInt64).bind _ = _
    rw [hd]
    exact add_of_has hanchor

/-- An interval always schedules into the future, exactly when its last
character is a byte and its seconds are within the range of the dates. -/
theorem schedules_iff (c : Calendar) (s : Text) (m : Making) (hm : m.Dated c) :
    Schedules c s m ↔ EndsInByte (trim s) ∧
      ∀ secs, Written (trim s) secs → secs ≤ usizeMax →
        InRange c m (max secs minimumIntervalSecs) := by
  have hvalue {secs : Nat} (h : secs ≤ usizeMax) :
      (UInt64.ofNat (max secs minimumIntervalSecs)).toNat = max secs minimumIntervalSecs :=
    UInt64.toNat_ofNat_of_lt (by unfold usizeMax minimumIntervalSecs at *; unfold UInt64.size; omega)
  have hpos (secs : Nat) : 0 < max secs minimumIntervalSecs := by
    unfold minimumIntervalSecs
    omega
  unfold Schedules
  cases hparse : parseInterval s with
  | none =>
    have hnot := parseInterval_eq_none.mp hparse
    exact iff_of_false id fun h => hnot h.1
  | some result =>
    have hbyte : EndsInByte (trim s) := by
      by_contra hnot
      rw [parseInterval_eq_none.mpr hnot] at hparse
      cases hparse
    cases result with
    | error e =>
      refine iff_of_true trivial ⟨hbyte, fun secs hwritten hle => ?_⟩
      have hok := parseInterval_eq_ok.mpr ⟨secs, hwritten, hle, rfl⟩
      rw [hparse] at hok
      cases hok
    | ok n =>
      obtain ⟨secs, hwritten, hle, rfl⟩ := parseInterval_eq_ok.mp hparse
      have hiff := firesBehind_iff hm (n := UInt64.ofNat (max secs minimumIntervalSecs))
        (by rw [hvalue hle]; exact hpos secs)
      rw [hvalue hle] at hiff
      show FiresBehind c m _ ↔ _
      rw [hiff]
      constructor
      · intro h
        refine ⟨hbyte, fun secs' hwritten' hle' => ?_⟩
        have hok := parseInterval_eq_ok.mpr ⟨secs', hwritten', hle', rfl⟩
        rw [hparse] at hok
        have heq := congrArg UInt64.toNat (Except.ok.inj (some.inj hok))
        rw [hvalue hle, hvalue hle'] at heq
        rwa [← heq]
      · exact fun h => h.2 secs hwritten hle

/-- The dates of `chrono`, to the second. -/
def utcCalendar : Calendar := ⟨-8334601228800 * 1000000000, 8210266876799 * 1000000000⟩

/-- At the epoch. -/
def Making.atEpoch : Making := ⟨[], 0, [], true, false, false, none⟩

theorem schedules_iff_two_hours :
    Schedules utcCalendar "2h".toList Making.atEpoch ↔ EndsInByte (trim "2h".toList) ∧
      ∀ secs, Written (trim "2h".toList) secs → secs ≤ usizeMax →
        InRange utcCalendar Making.atEpoch (max secs minimumIntervalSecs) :=
  schedules_iff utcCalendar "2h".toList Making.atEpoch
    ⟨by decide, fun t ht => by cases ht⟩

/-- A character of several bytes, a number of seconds that no duration has, and
one that is negative as an `i64`. -/
theorem not_schedules :
    ¬ Schedules utcCalendar ['5', '分'] Making.atEpoch ∧
    ¬ Schedules utcCalendar "9223372036854776s".toList Making.atEpoch ∧
    ¬ Schedules utcCalendar "18446744073709551615s".toList Making.atEpoch := by
  have hdated : Making.atEpoch.Dated utcCalendar := ⟨by decide, fun t ht => by cases ht⟩
  have hlarge {s : Text} {n : UInt64} (hparse : parseInterval s = some (.ok n))
      (hn : maxDurationSecs < n.toNat) : ¬ Schedules utcCalendar s Making.atEpoch := by
    unfold Schedules
    rw [hparse]
    show ¬ FiresBehind _ _ _
    unfold maxDurationSecs at hn
    rw [firesBehind_iff hdated (by omega)]
    intro h
    have hle := h.duration
    unfold maxDurationSecs at hle
    omega
  refine ⟨?_, ?_, ?_⟩
  · have hparse : parseInterval ['5', '分'] = none := by decide
    unfold Schedules
    rw [hparse]
    exact id
  · have hparse : parseInterval "9223372036854776s".toList = some (.ok 9223372036854776) := by
      decide
    exact hlarge hparse (by decide)
  · have hparse : parseInterval "18446744073709551615s".toList = some (.ok 18446744073709551615) := by
      decide
    exact hlarge hparse (by decide)

end GrokBuild.Scheduler
