import GrokBuild.Scheduler.JsonCodec

/-!
# The scheduler: one-shot receipts

`occurrence_journal.rs`: a receipt says that a one-shot task was removed and
under which versions. The journal of receipts is read back piece by piece,
and what cannot be read blocks the tasks it may have been about.
-/

namespace GrokBuild.Scheduler

open TextLines Str
open Workflow (Json)

def maxPendingOneShots : Nat := 50

def maxQuarantinedTaskIds : Nat := 50

def maxTaskIdBytes : Nat := 256

/-- `ScheduledOccurrenceId`: an RFC UUIDv7. -/
structure ScheduledOccurrenceId where
  id : Uuid
  isV7 : Uuid.IsV7 id
  deriving DecidableEq

/-- The check of `ScheduledOccurrenceVersions::try_new`. -/
def ValidVersions (fire removal : SchedulerVersion) : Prop :=
  Uuid.IsV7 fire.generation ∧ fire.revision ≠ 0 ∧ removal.generation = fire.generation ∧
    fire.revision.toNat + 1 = removal.revision.toNat

instance (fire removal : SchedulerVersion) : Decidable (ValidVersions fire removal) := by
  unfold ValidVersions
  infer_instance

structure ScheduledOccurrenceVersions where
  fire : SchedulerVersion
  removal : SchedulerVersion
  valid : ValidVersions fire removal
  deriving DecidableEq

def ScheduledOccurrenceVersions.tryNew (fire removal : SchedulerVersion) :
    Option ScheduledOccurrenceVersions :=
  if h : ValidVersions fire removal then some ⟨fire, removal, h⟩ else none

def ScheduledOccurrenceVersions.contains (v : ScheduledOccurrenceVersions)
    (version : SchedulerVersion) : Bool :=
  v.fire = version || v.removal = version

/-- `OneShotOccurrence`: a receipt. Its task is a durable one-shot. -/
structure OneShotOccurrence where
  occurrenceId : ScheduledOccurrenceId
  task : ScheduledTask
  versions : ScheduledOccurrenceVersions
  durableOneShot : task.recurring = false ∧ task.durable = true
  deriving DecidableEq

structure OccurrenceJournal where
  entries : List OneShotOccurrence
  quarantinedTaskIds : List Text
  blockAllOneShots : Bool
  overflowed : Bool
  deriving DecidableEq

structure SchedulerState where
  tasks : List ScheduledTask
  occurrenceJournal : OccurrenceJournal
  deriving DecidableEq

/-! ## Reading and writing the parts -/

section

variable (forms : Forms)

def versionKeys : List Text := ["generation".toList, "revision".toList]

/-- `SchedulerVersion`. -/
def versionCodec : Codec SchedulerVersion where
  encode v := object versionKeys
    [(Codec.text forms.uuid).encode v.generation, Codec.u64.encode v.revision]
  decode j :=
    match members versionKeys j with
    | some [generation, revision] => do
      some ⟨← generation.required (Codec.text forms.uuid), ← revision.required Codec.u64⟩
    | _ => none
  decode_encode v := by
    rw [members_object (by decide) rfl]
    simp [Member.required, Codec.decode_encode]

def occurrenceIdCodec : Codec ScheduledOccurrenceId where
  encode id := (Codec.text forms.uuid).encode id.id
  decode j := do
    let id ← (Codec.text forms.uuid).decode j
    if h : Uuid.IsV7 id then some ⟨id, h⟩ else none
  decode_encode id := by
    rw [Codec.decode_encode]
    simp [id.isV7]

def versionsKeys : List Text := ["fire".toList, "removal".toList]

def versionsCodec : Codec ScheduledOccurrenceVersions where
  encode v := object versionsKeys
    [(versionCodec forms).encode v.fire, (versionCodec forms).encode v.removal]
  decode j :=
    match members versionsKeys j with
    | some [fire, removal] => do
      ScheduledOccurrenceVersions.tryNew (← fire.required (versionCodec forms))
        (← removal.required (versionCodec forms))
    | _ => none
  decode_encode v := by
    rw [members_object (by decide) rfl]
    simp [Member.required, Codec.decode_encode, ScheduledOccurrenceVersions.tryNew, v.valid]

def taskKeys : List Text :=
  ["id".toList, "intervalSecs".toList, "prompt".toList, "recurring".toList, "durable".toList,
    "foreground".toList, "createdAt".toList, "lastFiredAt".toList, "expiresAt".toList,
    "lastSubagentId".toList, "iterationsSinceFresh".toList, "chainResetPending".toList]

def optionDate : Codec (Option DateTime) := (Codec.text forms.date).option rfl

def optionString : Codec (Option Text) := Codec.string.option rfl

/-- `ScheduledTask`. -/
def taskCodec : Codec ScheduledTask where
  encode t := object taskKeys
    [Codec.string.encode t.id, Codec.u64.encode t.intervalSecs, Codec.string.encode t.prompt,
      Codec.bool.encode t.recurring, Codec.bool.encode t.durable, Codec.bool.encode t.foreground,
      (Codec.text forms.date).encode t.createdAt, (optionDate forms).encode t.lastFiredAt,
      (optionDate forms).encode t.expiresAt, optionString.encode t.lastSubagentId,
      Codec.u32.encode t.iterationsSinceFresh, Codec.bool.encode t.chainResetPending]
  decode j :=
    match members taskKeys j with
    | some [id, intervalSecs, prompt, recurring, durable, foreground, createdAt, lastFiredAt,
        expiresAt, lastSubagentId, iterationsSinceFresh, chainResetPending] => do
      some {
        id := ← id.required Codec.string
        intervalSecs := ← intervalSecs.required Codec.u64
        prompt := ← prompt.required Codec.string
        recurring := ← recurring.orDefault Codec.bool true
        durable := ← durable.orDefault Codec.bool false
        foreground := ← foreground.orDefault Codec.bool false
        createdAt := ← createdAt.required (Codec.text forms.date)
        lastFiredAt := ← lastFiredAt.optional (optionDate forms)
        expiresAt := ← expiresAt.optional (optionDate forms)
        lastSubagentId := ← lastSubagentId.orDefault optionString none
        iterationsSinceFresh := ← iterationsSinceFresh.orDefault Codec.u32 0
        chainResetPending := ← chainResetPending.orDefault Codec.bool false }
    | _ => none
  decode_encode t := by
    rw [members_object (by decide) rfl]
    simp [Member.required, Member.orDefault, Member.optional, Codec.decode_encode]

def occurrenceKeys : List Text := ["occurrenceId".toList, "task".toList, "versions".toList]

/-- `OneShotOccurrence`. -/
def occurrenceCodec : Codec OneShotOccurrence where
  encode o := object occurrenceKeys
    [(occurrenceIdCodec forms).encode o.occurrenceId, (taskCodec forms).encode o.task,
      (versionsCodec forms).encode o.versions]
  decode j :=
    match members occurrenceKeys j with
    | some [occurrenceId, task, versions] => do
      let occurrenceId ← occurrenceId.required (occurrenceIdCodec forms)
      let task ← task.required (taskCodec forms)
      let versions ← versions.required (versionsCodec forms)
      if h : task.recurring = false ∧ task.durable = true then
        some ⟨occurrenceId, task, versions, h⟩
      else none
    | _ => none
  decode_encode o := by
    rw [members_object (by decide) rfl]
    simp [Member.required, Codec.decode_encode, o.durableOneShot]

end

/-! ## Reading and writing the journal -/

def OccurrenceJournal.quarantineTaskId (journal : OccurrenceJournal) (taskId : Text) :
    OccurrenceJournal :=
  if taskId = [] ∨ byteLen taskId > maxTaskIdBytes then { journal with blockAllOneShots := true }
  else if taskId ∈ journal.quarantinedTaskIds then journal
  else if journal.quarantinedTaskIds.length = maxQuarantinedTaskIds then
    { journal with blockAllOneShots := true }
  else { journal with quarantinedTaskIds := journal.quarantinedTaskIds ++ [taskId] }

/-- `parse_json_array`, and whether the value was malformed. -/
def parseJsonArray : Option Json → List Json × Bool
  | none => ([], false)
  | some (.array values) => (values, false)
  | some _ => ([], true)

def parseJsonBool : Option Json → Bool × Bool
  | none => (false, false)
  | some (.bool value) => (value, false)
  | some _ => (true, true)

/-- `quarantined_task_id`: the id of the task in a receipt that cannot be
read. -/
def quarantinedTaskId (value : Json) : Option Text := do
  let task ← value.get "task".toList
  let id ← task.get "id".toList
  id.asStr

def entriesKey : Text := "entries".toList
def quarantinedTaskIdsKey : Text := "quarantinedTaskIds".toList
def blockAllOneShotsKey : Text := "blockAllOneShots".toList
def overflowedKey : Text := "overflowed".toList

/-- What `decode_json` takes out of the value before it salvages. -/
structure RawJournal where
  entries : List Json
  taskIds : List Text
  blockAll : Bool
  overflowed : Bool
  isMalformed : Bool

def rawJournal : Json → RawJournal
  | .array entries => ⟨entries, [], false, false, false⟩
  | .object fields =>
    let object := Json.object fields
    let (entries, badEntries) := parseJsonArray (object.get entriesKey)
    let (taskValues, badTaskIds) := parseJsonArray (object.get quarantinedTaskIdsKey)
    let badTaskElement := taskValues.any fun value => value.asStr.isNone
    let (blockAll, badBlock) := parseJsonBool (object.get blockAllOneShotsKey)
    let (overflowed, badOverflow) := parseJsonBool (object.get overflowedKey)
    ⟨entries, taskValues.filterMap Json.asStr, blockAll, overflowed,
      badEntries || badTaskIds || badTaskElement || badBlock || badOverflow⟩
  | _ => ⟨[], [], true, false, true⟩

/-- The body of the `for` over the receipts. -/
def OccurrenceJournal.salvage (forms : Forms) (journal : OccurrenceJournal) (value : Json) :
    OccurrenceJournal :=
  match (occurrenceCodec forms).decode value with
  | some occurrence => { journal with entries := journal.entries ++ [occurrence] }
  | none =>
    match quarantinedTaskId value with
    | some taskId => journal.quarantineTaskId taskId
    | none => { journal with blockAllOneShots := true }

def decodeJson (forms : Forms) (value : Json) : OccurrenceJournal :=
  let raw := rawJournal value
  let journal : OccurrenceJournal :=
    ⟨[], [], raw.blockAll || raw.overflowed || raw.isMalformed, raw.overflowed⟩
  let journal := raw.taskIds.foldl OccurrenceJournal.quarantineTaskId journal
  let journal :=
    if raw.entries.length > maxPendingOneShots then
      { journal with blockAllOneShots := true, overflowed := true }
    else journal
  (raw.entries.take maxPendingOneShots).foldl (OccurrenceJournal.salvage forms) journal

/-- `Serialize` of the journal: what is empty or `false` is left out. -/
def encodeJson (forms : Forms) (journal : OccurrenceJournal) : Json :=
  .object
    ([(entriesKey, .array (journal.entries.map (occurrenceCodec forms).encode))] ++
      (if journal.quarantinedTaskIds = [] then []
        else [(quarantinedTaskIdsKey, .array (journal.quarantinedTaskIds.map .string))]) ++
      (if journal.blockAllOneShots then [(blockAllOneShotsKey, .bool true)] else []) ++
      (if journal.overflowed then [(overflowedKey, .bool true)] else []))

/-! ## Preparing and finishing -/

inductive OccurrenceJournalError where
  | taskNotFound (id : Text)
  | notDurableOneShot (id : Text)
  | taskAlreadyJournaled (id : Text)
  | journalFull
  | duplicateTransitionVersion
  | recoveryRequired
  | occurrenceNotFound
  deriving DecidableEq

/-- The versions of some receipts, in order. -/
def entryVersions (entries : List OneShotOccurrence) : List SchedulerVersion :=
  entries.flatMap fun entry => [entry.versions.fire, entry.versions.removal]

/-- `has_conflict`: a set of ids, of task ids or of versions is too small. -/
def hasConflict (entries : List OneShotOccurrence) : Bool :=
  (entries.map (·.occurrenceId)).dedup.length ≠ entries.length ||
    (entries.map (·.task.id)).dedup.length ≠ entries.length ||
    (entryVersions entries).dedup.length ≠ entries.length * 2

namespace SchedulerState

/-- `prepare_one_shot_occurrence_with_id`. -/
def prepareOneShotOccurrence (state : SchedulerState) (occurrenceId : ScheduledOccurrenceId)
    (taskId : Text) (versions : ScheduledOccurrenceVersions) :
    Except OccurrenceJournalError (OneShotOccurrence × SchedulerState) :=
  let journal := state.occurrenceJournal
  if journal.quarantinedTaskIds ≠ [] ∨ journal.blockAllOneShots ∨ journal.overflowed ∨
      hasConflict journal.entries then
    .error .recoveryRequired
  else if journal.entries.length ≥ maxPendingOneShots then .error .journalFull
  else if journal.entries.any fun occurrence => occurrence.task.id = taskId then
    .error (.taskAlreadyJournaled taskId)
  else if journal.entries.any fun occurrence =>
      occurrence.versions.contains versions.fire ||
        occurrence.versions.contains versions.removal then
    .error .duplicateTransitionVersion
  else
    match state.tasks.findIdx? (·.id = taskId) with
    | none => .error (.taskNotFound taskId)
    | some index =>
      match state.tasks[index]? with
      | none => .error (.taskNotFound taskId)
      | some task =>
        if h : task.recurring = false ∧ task.durable = true then
          let occurrence : OneShotOccurrence := ⟨occurrenceId, task, versions, h⟩
          .ok (occurrence,
            { tasks := state.tasks.eraseIdx index
              occurrenceJournal := { journal with entries := journal.entries ++ [occurrence] } })
        else .error (.notDurableOneShot taskId)

def finishOneShotRemoval (state : SchedulerState) (occurrenceId : ScheduledOccurrenceId) :
    Except OccurrenceJournalError (OneShotOccurrence × SchedulerState) :=
  let journal := state.occurrenceJournal
  match journal.entries.findIdx? (·.occurrenceId = occurrenceId) with
  | none => .error .occurrenceNotFound
  | some index =>
    match journal.entries[index]? with
    | none => .error .occurrenceNotFound
    | some occurrence =>
      .ok (occurrence, { state with
        occurrenceJournal := { journal with entries := journal.entries.eraseIdx index } })

end SchedulerState

/-! ## Reconciliation -/

inductive OneShotJournalConflict where
  | occurrenceId
  | taskId
  | transitionVersion
  deriving DecidableEq

structure SchedulerLoadReconciliation where
  requiresResourcesPersistence : Bool
  taskIdsToRemove : List Text
  blockedTaskIds : List Text
  blockAllOneShots : Bool
  recoveryRequired : Bool
  conflicts : List OneShotJournalConflict
  overflowError : Option OccurrenceJournalError
  deriving DecidableEq

def conflictFor (entries : List OneShotOccurrence) (occurrence : OneShotOccurrence) :
    Option OneShotJournalConflict :=
  if (entries.map (·.occurrenceId)).count occurrence.occurrenceId > 1 then some .occurrenceId
  else if (entries.map (·.task.id)).count occurrence.task.id > 1 then some .taskId
  else if (entryVersions entries).count occurrence.versions.fire > 1 ∨
      (entryVersions entries).count occurrence.versions.removal > 1 then some .transitionVersion
  else none

def SchedulerState.reconcileOneShotOccurrences (state : SchedulerState) :
    SchedulerLoadReconciliation :=
  let journal := state.occurrenceJournal
  let conflicts := journal.entries.filterMap (conflictFor journal.entries)
  let recoveryRequired := journal.blockAllOneShots || journal.overflowed ||
    journal.quarantinedTaskIds ≠ [] || conflicts ≠ []
  let journaled := journal.entries.map (·.task.id)
  let blockedTaskIds := journal.quarantinedTaskIds ++ journaled ++
    if journal.blockAllOneShots then
      (state.tasks.filter fun task => !task.recurring).map (·.id)
    else []
  let taskIdsToRemove :=
    if recoveryRequired then []
    else (state.tasks.filter fun task => task.id ∈ journaled).map (·.id)
  { requiresResourcesPersistence := taskIdsToRemove ≠ []
    taskIdsToRemove
    blockedTaskIds
    blockAllOneShots := journal.blockAllOneShots
    recoveryRequired
    conflicts
    overflowError := if journal.overflowed then some .journalFull else none }

end GrokBuild.Scheduler
