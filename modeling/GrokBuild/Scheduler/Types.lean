import GrokBuild.Lib.Str

/-!
# The scheduler: its data

`types.rs`: scheduled tasks, and the versions that order the transitions of
the scheduler. A version is reserved before a transition and committed when
the transition is done; the assertions of the two steps are the `none`s of
`versionAt` and `commitNext`.
-/

namespace GrokBuild.Scheduler

open TextLines

/-- `uuid::Uuid`, as its 128 bits. -/
abbrev Uuid := BitVec 128

/-- `get_version() == Some(SortRand)` and `get_variant() == RFC4122`. -/
def Uuid.IsV7 (id : Uuid) : Prop := id.extractLsb' 76 4 = 7#4 ∧ id.extractLsb' 62 2 = 2#2

instance (id : Uuid) : Decidable (Uuid.IsV7 id) := by
  unfold Uuid.IsV7
  infer_instance

/-- `DateTime<Utc>`, in nanoseconds since the epoch. -/
abbrev DateTime := Int

structure SchedulerVersion where
  generation : Uuid
  revision : UInt64
  deriving DecidableEq

structure ScheduledTask where
  id : Text
  intervalSecs : UInt64
  prompt : Text
  recurring : Bool
  durable : Bool
  foreground : Bool
  createdAt : DateTime
  lastFiredAt : Option DateTime
  expiresAt : Option DateTime
  lastSubagentId : Option Text
  iterationsSinceFresh : UInt32
  chainResetPending : Bool
  deriving DecidableEq

end GrokBuild.Scheduler
