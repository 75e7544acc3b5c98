import GrokBuild.Scheduler.Receipts

/-!
# The scheduler: receipts fail closed

Whatever JSON value is found in place of the journal, a task that it may hold
a receipt of is blocked; and a journal that the scheduler wrote is read back
as it was.
-/

namespace GrokBuild.Scheduler

open TextLines Str List Option
open Workflow (Json)

/-! ## What a value says about a task -/

/-- A field of a structure, by its key or by its position. -/
def field (v : Json) (index : Nat) (key : Text) : Option Json :=
  match v with
  | .array items => items[index]?
  | v => v.get key

/-- The id of the task in a receipt. -/
def receiptTaskId (receipt : Json) : Option Text := do
  let task ← field receipt 1 "task".toList
  let id ← field task 0 "id".toList
  id.asStr

/-- The items of an array, if it is one. -/
def itemsOf : Option Json → List Json
  | some (.array items) => items
  | _ => []

/-- The receipts in a value: its own items, or its `entries`. -/
def receiptsIn : Json → List Json
  | .array items => items
  | v => itemsOf (v.get entriesKey)

/-- The ids in a value's quarantined list. -/
def quarantinedIn (v : Json) : List Text :=
  (itemsOf (v.get quarantinedTaskIdsKey)).filterMap Json.asStr

/-- The value has a receipt for the task or has it in quarantine. -/
def Named (v : Json) (id : Text) : Prop :=
  (∃ receipt ∈ receiptsIn v, receiptTaskId receipt = some id) ∨ id ∈ quarantinedIn v

/-! ## Salvaging -/

/-- The journal keeps the task from being fired. -/
def OccurrenceJournal.Covers (journal : OccurrenceJournal) (id : Text) : Prop :=
  id ∈ journal.quarantinedTaskIds ∨ id ∈ journal.entries.map (·.task.id) ∨
    journal.blockAllOneShots = true

theorem quarantineTaskId_covers_self (journal : OccurrenceJournal) (id : Text) :
    (journal.quarantineTaskId id).Covers id := by
  unfold OccurrenceJournal.quarantineTaskId OccurrenceJournal.Covers
  split
  · exact .inr (.inr rfl)
  · split
    · exact .inl ‹_›
    · split
      · exact .inr (.inr rfl)
      · exact .inl (by simp)

theorem OccurrenceJournal.Covers.quarantineTaskId {journal : OccurrenceJournal} {id : Text}
    (h : journal.Covers id) (taskId : Text) : (journal.quarantineTaskId taskId).Covers id := by
  unfold OccurrenceJournal.quarantineTaskId
  unfold OccurrenceJournal.Covers at h ⊢
  split
  · exact .inr (.inr rfl)
  · split
    · exact h
    · split
      · exact .inr (.inr rfl)
      · exact h.imp_left fun h => mem_append_left _ h
variable {forms : Forms}

theorem OccurrenceJournal.Covers.salvage {journal : OccurrenceJournal}
    {id : Text} (h : journal.Covers id) (value : Json) :
    (journal.salvage forms value).Covers id := by
  unfold OccurrenceJournal.salvage
  split
  · rcases h with h | h | h
    · exact .inl h
    · exact .inr (.inl (by simp only [map_append]; exact mem_append_left _ h))
    · exact .inr (.inr h)
  · split
    · exact h.quarantineTaskId _
    · exact .inr (.inr rfl)

theorem members_field {keys : List Text} {v : Json} {ms : List Member} {i : Nat} {key : Text}
    {j : Json} (h : members keys v = some ms) (hkey : keys[i]? = some key)
    (hj : ms[i]? = some (.value j)) : field v i key = some j := by
  cases v with
  | null | bool | number | string => cases h
  | array items =>
    rw [members] at h
    split at h
    · cases h
      by_cases hi : i < items.length
      · rw [getElem?_append_left (by simpa using hi), getElem?_map] at hj
        cases hitem : items[i]? with
        | none => simp [hitem] at hj
        | some item =>
          rw [hitem] at hj
          cases hj
          exact hitem
      · rw [getElem?_append_right (by simpa using hi), getElem?_replicate] at hj
        split at hj <;> cases hj
    · cases h
  | object fields =>
    cases h
    rw [getElem?_map, hkey] at hj
    cases hget : (Json.object fields).get key with
    | none => simp [hget] at hj
    | some j' =>
      simp [hget] at hj
      rw [← hj]
      exact hget

theorem taskId_of_decode {j : Json} {task : ScheduledTask}
    (h : (taskCodec forms).decode j = some task) :
    ∃ id, field j 0 "id".toList = some id ∧ id.asStr = some task.id := by
  simp only [taskCodec] at h
  split at h
  · next id _ _ _ _ _ _ _ _ _ _ _ hmembers =>
    cases id with
    | absent | ended => cases h
    | value idj =>
      refine ⟨idj, members_field hmembers rfl rfl, ?_⟩
      cases idj with
      | string s =>
        simp only [Member.required, Codec.string, bind_eq_bind, bind_some,
          bind_eq_some_iff] at h
        obtain ⟨_, -, _, -, _, -, _, -, _, -, _, -, _, -, _, -, _, -, _, -, _, -, h⟩ := h
        cases h
        rfl
      | null | bool | number | array | object => cases h
  · cases h
variable {occurrence : OneShotOccurrence} {value : Json}
theorem receiptTaskId_of_decode
    (h : (occurrenceCodec forms).decode value = some occurrence) :
    receiptTaskId value = some occurrence.task.id := by
  simp only [occurrenceCodec] at h
  split at h
  · next occurrenceId task versions hmembers =>
    simp only [bind_eq_bind, bind_eq_some_iff] at h
    obtain ⟨_, -, t, htask, _, -, h⟩ := h
    split at h
    · cases h
      cases task with
      | absent | ended => cases htask
      | value taskj =>
        obtain ⟨idj, hid, hstr⟩ := taskId_of_decode htask
        have hfield := members_field hmembers (i := 1) rfl rfl
        simp only [receiptTaskId, bind_eq_bind, hfield, hid, bind_some, hstr]
    · cases h
  · cases h

theorem field_of_get {v : Json} {key : Text} {j : Json} (h : v.get key = some j) (index : Nat) :
    field v index key = some j := by
  cases v with
  | array items => cases h
  | null | bool | number | string | object => exact h

theorem receiptTaskId_of_quarantined {id : Text}
    (h : quarantinedTaskId value = some id) : receiptTaskId value = some id := by
  simp only [quarantinedTaskId, bind_eq_bind, bind_eq_some_iff] at h
  obtain ⟨task, htask, idj, hid, hstr⟩ := h
  simp only [receiptTaskId, bind_eq_bind, field_of_get htask, field_of_get hid,
    bind_some, hstr]

theorem salvage_covers_receipt (journal : OccurrenceJournal)
    {id : Text} (h : receiptTaskId value = some id) : (journal.salvage forms value).Covers id := by
  unfold OccurrenceJournal.salvage
  split
  · next occurrence hdecode =>
    have hid := receiptTaskId_of_decode hdecode
    rw [h] at hid
    cases hid
    exact .inr (.inl (by simp))
  · split
    · next taskId hquarantined =>
      have hid := receiptTaskId_of_quarantined hquarantined
      rw [h] at hid
      cases hid
      exact quarantineTaskId_covers_self journal id
    · exact .inr (.inr rfl)

section

variable {α : Type} {step : OccurrenceJournal → α → OccurrenceJournal} {id : Text}

theorem foldl_covers (hkeep : ∀ journal a, journal.Covers id → (step journal a).Covers id)
    (as : List α) {journal : OccurrenceJournal} (h : journal.Covers id) :
    (as.foldl step journal).Covers id := by
  induction as generalizing journal with
  | nil => exact h
  | cons a as ih => exact ih (hkeep journal a h)

theorem foldl_covers_of_mem (hkeep : ∀ journal a, journal.Covers id → (step journal a).Covers id)
    {as : List α} {a : α} (ha : a ∈ as) (h : ∀ journal, (step journal a).Covers id)
    (journal : OccurrenceJournal) : (as.foldl step journal).Covers id := by
  induction as generalizing journal with
  | nil => cases ha
  | cons b as ih =>
    rcases mem_cons.mp ha with rfl | ha
    · exact foldl_covers hkeep as (h journal)
    · exact ih ha (step journal b)

end

theorem rawJournal_entries (v : Json) : (rawJournal v).entries = receiptsIn v := by
  cases v with
  | object fields =>
    show _ = itemsOf ((Json.object fields).get entriesKey)
    rw [rawJournal]
    cases (Json.object fields).get entriesKey with
    | none => rfl
    | some j => cases j <;> rfl
  | null | bool | number | string | array => rfl

theorem rawJournal_taskIds (v : Json) : (rawJournal v).taskIds = quarantinedIn v := by
  cases v with
  | object fields =>
    rw [rawJournal, quarantinedIn]
    cases (Json.object fields).get quarantinedTaskIdsKey with
    | none => rfl
    | some j => cases j <;> rfl
  | null | bool | number | string | array => rfl

/-- The journal behind the part of `decode_json` that reads the ids. -/
def quarantinePart (v : Json) : OccurrenceJournal :=
  let raw := rawJournal v
  let journal := raw.taskIds.foldl OccurrenceJournal.quarantineTaskId
    ⟨[], [], raw.blockAll || raw.overflowed || raw.isMalformed, raw.overflowed⟩
  if raw.entries.length > maxPendingOneShots then
    { journal with blockAllOneShots := true, overflowed := true }
  else journal

theorem decodeJson_eq (forms : Forms) (v : Json) :
    decodeJson forms v = ((receiptsIn v).take maxPendingOneShots).foldl
      (OccurrenceJournal.salvage forms) (quarantinePart v) := by
  rw [← rawJournal_entries]
  rfl

theorem decodeJson_covers (forms : Forms) {v : Json} {id : Text} (h : Named v id) :
    (decodeJson forms v).Covers id := by
  have hkeep : ∀ (journal : OccurrenceJournal) value, journal.Covers id →
      (journal.salvage forms value).Covers id := fun _ value h => h.salvage value
  rw [decodeJson_eq]
  rcases h with ⟨receipt, hmem, hid⟩ | hid
  · by_cases htake : receipt ∈ (receiptsIn v).take maxPendingOneShots
    · exact foldl_covers_of_mem hkeep htake (fun journal => salvage_covers_receipt journal hid) _
    · -- a receipt that is not looked at: there are too many
      have hlen : (receiptsIn v).length > maxPendingOneShots := by
        by_contra hle
        rw [take_of_length_le (by omega)] at htake
        exact htake hmem
      apply foldl_covers hkeep
      rw [quarantinePart, rawJournal_entries, if_pos hlen]
      exact .inr (.inr rfl)
  · apply foldl_covers hkeep
    have hids := @foldl_covers_of_mem _ OccurrenceJournal.quarantineTaskId id
      (fun _ taskId h => h.quarantineTaskId taskId) _ _ hid
      (fun journal => quarantineTaskId_covers_self journal id)
    rw [quarantinePart, rawJournal_taskIds]
    split
    · rcases hids _ with h | h | h
      · exact .inl h
      · exact .inr (.inl h)
      · exact .inr (.inr rfl)
    · exact hids _

theorem blocked_of_covers {tasks : List ScheduledTask} {journal : OccurrenceJournal} {id : Text}
    (h : journal.Covers id) :
    let plan := SchedulerState.reconcileOneShotOccurrences ⟨tasks, journal⟩
    id ∈ plan.blockedTaskIds ∨ plan.blockAllOneShots = true := by
  rcases h with h | h | h
  · exact .inl (mem_append_left _ (mem_append_left _ h))
  · exact .inl (mem_append_left _ (mem_append_right _ h))
  · exact .inr h

/-! ## Conflicts -/

theorem dedup_length_ne_iff {α : Type} [DecidableEq α] [BEq α] [LawfulBEq α] {l : List α} :
    l.dedup.length ≠ l.length ↔ ∃ a ∈ l, 1 < l.count a := by
  have hnodup : l.dedup.length = l.length ↔ l.Nodup := by
    rw [← dedup_eq_self]
    exact ⟨fun h => (List.dedup_sublist l).eq_of_length h, fun h => by rw [h]⟩
  rw [Ne, hnodup, nodup_iff_count_le_one]
  constructor
  · intro h
    obtain ⟨a, ha⟩ := not_forall.mp h
    exact ⟨a, count_pos_iff.mp (by omega), by omega⟩
  · rintro ⟨a, -, ha⟩ h
    have := h a
    omega

theorem length_entryVersions (entries : List OneShotOccurrence) :
    (entryVersions entries).length = entries.length * 2 := by
  simp [entryVersions, length_flatMap]

theorem mem_entryVersions {entries : List OneShotOccurrence} {v : SchedulerVersion} :
    v ∈ entryVersions entries ↔
      ∃ entry ∈ entries, v = entry.versions.fire ∨ v = entry.versions.removal := by
  simp [entryVersions]

theorem conflictFor_eq_none {entries : List OneShotOccurrence} :
    conflictFor entries occurrence = none ↔
      ¬ 1 < (entries.map (·.occurrenceId)).count occurrence.occurrenceId ∧
      ¬ 1 < (entries.map (·.task.id)).count occurrence.task.id ∧
      ¬ 1 < (entryVersions entries).count occurrence.versions.fire ∧
      ¬ 1 < (entryVersions entries).count occurrence.versions.removal := by
  unfold conflictFor
  split
  · simp_all
  · split
    · simp_all
    · split
      · grind
      · grind

/-- The two ways of looking for conflicts agree. -/
theorem hasConflict_iff (entries : List OneShotOccurrence) :
    hasConflict entries = true ↔ entries.filterMap (conflictFor entries) ≠ [] := by
  have hids : (entries.map (·.occurrenceId)).dedup.length ≠ entries.length ↔
      ∃ entry ∈ entries, 1 < (entries.map (·.occurrenceId)).count entry.occurrenceId := by
    have h := dedup_length_ne_iff (l := entries.map (·.occurrenceId))
    rw [length_map] at h
    simpa using h
  have htasks : (entries.map (·.task.id)).dedup.length ≠ entries.length ↔
      ∃ entry ∈ entries, 1 < (entries.map (·.task.id)).count entry.task.id := by
    have h := dedup_length_ne_iff (l := entries.map (·.task.id))
    rw [length_map] at h
    simpa using h
  have hversions : (entryVersions entries).dedup.length ≠ entries.length * 2 ↔
      ∃ entry ∈ entries, 1 < (entryVersions entries).count entry.versions.fire ∨
        1 < (entryVersions entries).count entry.versions.removal := by
    rw [← length_entryVersions, dedup_length_ne_iff]
    simp only [mem_entryVersions]
    constructor
    · rintro ⟨v, ⟨entry, hentry, rfl | rfl⟩, hv⟩
      · exact ⟨entry, hentry, .inl hv⟩
      · exact ⟨entry, hentry, .inr hv⟩
    · rintro ⟨entry, hentry, hv | hv⟩
      · exact ⟨_, ⟨entry, hentry, .inl rfl⟩, hv⟩
      · exact ⟨_, ⟨entry, hentry, .inr rfl⟩, hv⟩
  have hfilter : entries.filterMap (conflictFor entries) ≠ [] ↔
      ∃ entry ∈ entries, conflictFor entries entry ≠ none := by
    rw [Ne, filterMap_eq_nil_iff]
    simp
  simp only [hasConflict, Bool.or_eq_true, decide_eq_true_eq, hids, htasks, hversions, hfilter,
    Ne, conflictFor_eq_none]
  grind

theorem recoveryRequired_iff (state : SchedulerState) :
    state.reconcileOneShotOccurrences.recoveryRequired = true ↔
      state.occurrenceJournal.quarantinedTaskIds ≠ [] ∨
        state.occurrenceJournal.blockAllOneShots ∨ state.occurrenceJournal.overflowed ∨
        hasConflict state.occurrenceJournal.entries := by
  rw [hasConflict_iff]
  simp only [SchedulerState.reconcileOneShotOccurrences, Bool.or_eq_true, decide_eq_true_eq]
  tauto

/-- Recovery is required exactly when nothing can be prepared for that
reason. -/
theorem recoveryRequired_iff_refused (state : SchedulerState)
    (occurrenceId : ScheduledOccurrenceId) (taskId : Text)
    (versions : ScheduledOccurrenceVersions) :
    state.reconcileOneShotOccurrences.recoveryRequired = true ↔
      state.prepareOneShotOccurrence occurrenceId taskId versions = .error .recoveryRequired := by
  rw [recoveryRequired_iff, SchedulerState.prepareOneShotOccurrence]
  constructor
  · intro h
    rw [if_pos h]
  · intro h
    by_contra hnot
    rw [if_neg hnot] at h
    split at h
    · cases h
    · split at h
      · cases h
      · split at h
        · cases h
        · split at h
          · cases h
          · split at h
            · cases h
            · split at h <;> cases h

theorem taskIdsToRemove_eq_nil {state : SchedulerState}
    (h : state.reconcileOneShotOccurrences.recoveryRequired = true) :
    state.reconcileOneShotOccurrences.taskIdsToRemove = [] := by
  exact if_pos h

/-! ## Written and read again -/

/-- What holds of every journal that was decoded or prepared. -/
structure OccurrenceJournal.WellFormed (journal : OccurrenceJournal) : Prop where
  entries : journal.entries.length ≤ maxPendingOneShots
  taskIds : journal.quarantinedTaskIds.length ≤ maxQuarantinedTaskIds
  nodup : journal.quarantinedTaskIds.Nodup
  bounded : ∀ id ∈ journal.quarantinedTaskIds, id ≠ [] ∧ byteLen id ≤ maxTaskIdBytes
  overflowed : journal.overflowed = true → journal.blockAllOneShots = true

theorem OccurrenceJournal.WellFormed.blockAll {journal : OccurrenceJournal}
    (h : journal.WellFormed) : { journal with blockAllOneShots := true }.WellFormed :=
  ⟨h.entries, h.taskIds, h.nodup, h.bounded, fun _ => rfl⟩

theorem OccurrenceJournal.WellFormed.quarantineTaskId {journal : OccurrenceJournal}
    (h : journal.WellFormed) (taskId : Text) : (journal.quarantineTaskId taskId).WellFormed := by
  unfold OccurrenceJournal.quarantineTaskId
  split
  · exact h.blockAll
  · next hok =>
    split
    · exact h
    · next hnew =>
      split
      · exact h.blockAll
      · next hroom =>
        have htaskIds := h.taskIds
        refine ⟨h.entries, ?_, ?_, ?_, h.overflowed⟩
        · rw [length_append, length_singleton]
          omega
        · exact h.nodup.append (nodup_singleton _) (by simpa using hnew)
        · intro id hid
          rcases mem_append.mp hid with hid | hid
          · exact h.bounded id hid
          · rw [mem_singleton.mp hid]
            rw [not_or] at hok
            exact ⟨hok.1, by omega⟩

theorem quarantineTaskId_entries (journal : OccurrenceJournal) (taskId : Text) :
    (journal.quarantineTaskId taskId).entries = journal.entries := by
  unfold OccurrenceJournal.quarantineTaskId
  split
  · rfl
  · split
    · rfl
    · split <;> rfl

theorem foldl_quarantineTaskId {journal : OccurrenceJournal} (h : journal.WellFormed)
    (taskIds : List Text) :
    (taskIds.foldl OccurrenceJournal.quarantineTaskId journal).WellFormed ∧
      (taskIds.foldl OccurrenceJournal.quarantineTaskId journal).entries = journal.entries := by
  induction taskIds generalizing journal with
  | nil => exact ⟨h, rfl⟩
  | cons id taskIds ih =>
    obtain ⟨hwf, hentries⟩ := ih (h.quarantineTaskId id)
    exact ⟨hwf, hentries.trans (quarantineTaskId_entries journal id)⟩

theorem wellFormed_salvage {journal : OccurrenceJournal} (h : journal.WellFormed)
    (hroom : journal.entries.length < maxPendingOneShots) (value : Json) :
    (journal.salvage forms value).WellFormed ∧
      (journal.salvage forms value).entries.length ≤ journal.entries.length + 1 := by
  unfold OccurrenceJournal.salvage
  split
  · next occurrence _ =>
    have hlen : (journal.entries ++ [occurrence]).length = journal.entries.length + 1 := by simp
    exact ⟨⟨by rw [hlen]; omega, h.taskIds, h.nodup, h.bounded, h.overflowed⟩, hlen.le⟩
  · split
    · next taskId _ =>
      exact ⟨h.quarantineTaskId taskId, by rw [quarantineTaskId_entries]; omega⟩
    · exact ⟨h.blockAll, Nat.le_succ _⟩

theorem wellFormed_foldl_salvage (values : List Json)
    {journal : OccurrenceJournal} (h : journal.WellFormed)
    (hroom : journal.entries.length + values.length ≤ maxPendingOneShots) :
    (values.foldl (OccurrenceJournal.salvage forms) journal).WellFormed := by
  induction values generalizing journal with
  | nil => exact h
  | cons value values ih =>
    rw [length_cons] at hroom
    obtain ⟨hwf, hlen⟩ := @wellFormed_salvage forms _ h (by omega) value
    exact ih hwf (by omega)

theorem decodeJson_wellFormed (forms : Forms) (v : Json) : (decodeJson forms v).WellFormed := by
  have hstart : OccurrenceJournal.WellFormed
      ⟨[], [], (rawJournal v).blockAll || (rawJournal v).overflowed || (rawJournal v).isMalformed,
        (rawJournal v).overflowed⟩ :=
    ⟨by simp, by simp, nodup_nil, by simp, fun h => by simp_all⟩
  obtain ⟨hids, hentries⟩ := foldl_quarantineTaskId hstart (rawJournal v).taskIds
  have hpart : (quarantinePart v).WellFormed ∧ (quarantinePart v).entries = [] := by
    rw [quarantinePart]
    split
    · exact ⟨⟨hids.entries, hids.taskIds, hids.nodup, hids.bounded, fun _ => rfl⟩, hentries⟩
    · exact ⟨hids, hentries⟩
  rw [decodeJson_eq]
  apply wellFormed_foldl_salvage _ hpart.1
  rw [hpart.2, length_nil, length_take]
  omega

/-- The states that loading, preparing and finishing lead to; the tasks may
change in between. -/
inductive Reached (forms : Forms) : SchedulerState → Prop
  | fresh (tasks : List ScheduledTask) : Reached forms ⟨tasks, ⟨[], [], false, false⟩⟩
  | loaded (tasks : List ScheduledTask) (v : Json) : Reached forms ⟨tasks, decodeJson forms v⟩
  | tasks {s : SchedulerState} (tasks : List ScheduledTask) (h : Reached forms s) :
    Reached forms { s with tasks }
  | prepare {s s' : SchedulerState} {occurrenceId : ScheduledOccurrenceId} {taskId : Text}
    {versions : ScheduledOccurrenceVersions} {occurrence : OneShotOccurrence}
    (h : Reached forms s)
    (hstep : s.prepareOneShotOccurrence occurrenceId taskId versions = .ok (occurrence, s')) :
    Reached forms s'
  | finish {s s' : SchedulerState} {occurrenceId : ScheduledOccurrenceId}
    {occurrence : OneShotOccurrence} (h : Reached forms s)
    (hstep : s.finishOneShotRemoval occurrenceId = .ok (occurrence, s')) : Reached forms s'

theorem wellFormed_prepare {s s' : SchedulerState} {occurrenceId : ScheduledOccurrenceId}
    {taskId : Text} {versions : ScheduledOccurrenceVersions}
    (h : s.occurrenceJournal.WellFormed)
    (hstep : s.prepareOneShotOccurrence occurrenceId taskId versions = .ok (occurrence, s')) :
    s'.occurrenceJournal.WellFormed := by
  rw [SchedulerState.prepareOneShotOccurrence] at hstep
  split at hstep
  · cases hstep
  · split at hstep
    · cases hstep
    · next hroom =>
      split at hstep
      · cases hstep
      · split at hstep
        · cases hstep
        · split at hstep
          · cases hstep
          · split at hstep
            · cases hstep
            · split at hstep
              · cases hstep
                refine ⟨?_, h.taskIds, h.nodup, h.bounded, h.overflowed⟩
                rw [length_append, length_singleton]
                omega
              · cases hstep

theorem wellFormed_finish {s s' : SchedulerState} {occurrenceId : ScheduledOccurrenceId}
    (h : s.occurrenceJournal.WellFormed)
    (hstep : s.finishOneShotRemoval occurrenceId = .ok (occurrence, s')) :
    s'.occurrenceJournal.WellFormed := by
  rw [SchedulerState.finishOneShotRemoval] at hstep
  split at hstep
  · cases hstep
  · split at hstep
    · cases hstep
    · cases hstep
      exact ⟨(length_eraseIdx_le _ _).trans h.entries, h.taskIds, h.nodup, h.bounded,
        h.overflowed⟩

theorem Reached.wellFormed {s : SchedulerState} (h : Reached forms s) :
    s.occurrenceJournal.WellFormed := by
  induction h with
  | fresh tasks => exact ⟨by simp, by simp, nodup_nil, by simp, fun h => by cases h⟩
  | loaded tasks v => exact decodeJson_wellFormed forms v
  | tasks tasks _ ih => exact ih
  | prepare _ hstep ih => exact wellFormed_prepare ih hstep
  | finish _ hstep ih => exact wellFormed_finish ih hstep

/-- Reading the quarantined ids of a well formed journal. -/
theorem foldl_quarantineTaskId_append {journal : OccurrenceJournal} (taskIds : List Text)
    (hlen : journal.quarantinedTaskIds.length + taskIds.length ≤ maxQuarantinedTaskIds)
    (hnodup : (journal.quarantinedTaskIds ++ taskIds).Nodup)
    (hbounded : ∀ id ∈ taskIds, id ≠ [] ∧ byteLen id ≤ maxTaskIdBytes) :
    taskIds.foldl OccurrenceJournal.quarantineTaskId journal =
      { journal with quarantinedTaskIds := journal.quarantinedTaskIds ++ taskIds } := by
  induction taskIds generalizing journal with
  | nil => simp
  | cons id taskIds ih =>
    rw [length_cons] at hlen
    have hid := hbounded id mem_cons_self
    have hnew : id ∉ journal.quarantinedTaskIds := fun h =>
      (nodup_append.mp hnodup).2.2 id h id mem_cons_self rfl
    have hstep : journal.quarantineTaskId id =
        { journal with quarantinedTaskIds := journal.quarantinedTaskIds ++ [id] } := by
      rw [OccurrenceJournal.quarantineTaskId, if_neg (by rw [not_or]; exact ⟨hid.1, by omega⟩),
        if_neg hnew, if_neg (by omega)]
    rw [foldl_cons, hstep, ih]
    · simp
    · simp only [length_append, length_singleton]
      omega
    · simpa using hnodup
    · exact fun id h => hbounded id (mem_cons_of_mem _ h)

theorem foldl_salvage_encode (forms : Forms) (entries : List OneShotOccurrence)
    (journal : OccurrenceJournal) :
    (entries.map (occurrenceCodec forms).encode).foldl (OccurrenceJournal.salvage forms) journal =
      { journal with entries := journal.entries ++ entries } := by
  induction entries generalizing journal with
  | nil => simp
  | cons entry entries ih =>
    have hstep : journal.salvage forms ((occurrenceCodec forms).encode entry) =
        { journal with entries := journal.entries ++ [entry] } := by
      rw [OccurrenceJournal.salvage, Codec.decode_encode]
    rw [map_cons, foldl_cons, hstep, ih]
    simp

theorem rawJournal_encodeJson (forms : Forms) (journal : OccurrenceJournal) :
    rawJournal (encodeJson forms journal) =
      ⟨journal.entries.map (occurrenceCodec forms).encode, journal.quarantinedTaskIds,
        journal.blockAllOneShots, journal.overflowed, false⟩ := by
  obtain ⟨entries, taskIds, blockAll, overflowed⟩ := journal
  have hkeys : [entriesKey, quarantinedTaskIdsKey, blockAllOneShotsKey, overflowedKey].Nodup := by
    decide
  have hkeys' : [overflowedKey, blockAllOneShotsKey, quarantinedTaskIdsKey, entriesKey].Nodup := by
    decide
  simp only [nodup_cons, mem_cons, not_mem_nil, or_false, not_or] at hkeys hkeys'
  have hstr : ∀ ids : List Text, (ids.map Json.string).filterMap Json.asStr = ids := by
    intro ids
    rw [filterMap_map]
    exact filterMap_some
  have hany : ∀ ids : List Text, (ids.map Json.string).any (fun v => v.asStr.isNone) = false := by
    intro ids
    simp [Json.asStr]
  by_cases hids : taskIds = []
  · subst hids
    cases blockAll <;> cases overflowed <;>
      simp [encodeJson, rawJournal, Json.get, parseJsonArray, parseJsonBool, hkeys, hkeys']
  · cases blockAll <;> cases overflowed <;>
      simp [encodeJson, rawJournal, Json.get, parseJsonArray, parseJsonBool, hkeys, hkeys', hids,
        hstr, hany]

theorem decodeJson_encodeJson (forms : Forms) {journal : OccurrenceJournal}
    (h : journal.WellFormed) : decodeJson forms (encodeJson forms journal) = journal := by
  have hblock : (journal.blockAllOneShots || journal.overflowed || false) =
      journal.blockAllOneShots := by
    have := h.overflowed
    revert this
    cases journal.blockAllOneShots <;> cases journal.overflowed <;> simp
  have hids := @foldl_quarantineTaskId_append
    ⟨[], [], journal.blockAllOneShots, journal.overflowed⟩ journal.quarantinedTaskIds (by simpa using h.taskIds) (by simpa using h.nodup) h.bounded
  have hlen : ¬ (journal.entries.map (occurrenceCodec forms).encode).length >
      maxPendingOneShots := by
    have := h.entries
    rw [length_map]
    omega
  rw [decodeJson, rawJournal_encodeJson]
  simp only [hblock, hids, if_neg hlen]
  rw [take_of_length_le (by omega), foldl_salvage_encode]
  simp

/-- Receipts fail closed: a named one-shot task is blocked, nothing is removed
while recovery is required, which is when nothing can be prepared, and what
the scheduler wrote is read back. -/
theorem receipts_fail_closed (forms : Forms) :
    (∀ (v : Json) (tasks : List ScheduledTask),
      let state : SchedulerState := ⟨tasks, decodeJson forms v⟩
      let plan := state.reconcileOneShotOccurrences
      (∀ task ∈ tasks, task.recurring = false → Named v task.id →
        task.id ∈ plan.blockedTaskIds ∨ plan.blockAllOneShots = true) ∧
      (plan.recoveryRequired = true → plan.taskIdsToRemove = []) ∧
      ∀ occurrenceId taskId versions, plan.recoveryRequired = true ↔
        state.prepareOneShotOccurrence occurrenceId taskId versions = .error .recoveryRequired) ∧
    ∀ state, Reached forms state →
      decodeJson forms (encodeJson forms state.occurrenceJournal) = state.occurrenceJournal := by
  refine ⟨fun v tasks => ⟨?_, taskIdsToRemove_eq_nil, ?_⟩, ?_⟩
  · intro task _ _ hnamed
    exact blocked_of_covers (decodeJson_covers forms hnamed)
  · intro occurrenceId taskId versions
    exact recoveryRequired_iff_refused _ occurrenceId taskId versions
  · intro state hreached
    exact decodeJson_encodeJson forms hreached.wellFormed

/-! ## A receipt of a reminder -/

/-- A text form that is known at one value. -/
def TextForm.pinned {α : Type} [DecidableEq α] (a : α) (text : Text) (code : α → Nat)
    (decode : Nat → Option α) (hdecode : ∀ b, decode (code b) = some b)
    (htext : ∃ c ∈ text, c ≠ '*') : TextForm α where
  format b := if b = a then text else List.replicate (code b) '*'
  parse s := if s = text then some a else decode s.length
  parse_format b := by
    by_cases hb : b = a
    · simp [hb]
    · have hne : List.replicate (code b) '*' ≠ text := by
        obtain ⟨c, hc, hstar⟩ := htext
        intro h
        rw [← h] at hc
        exact hstar (eq_of_mem_replicate hc)
      rw [if_neg hb, if_neg hne, length_replicate]
      exact hdecode b

def sampleUuid : Uuid := 0x01890a5dac96774bbcceb302099a8057

def sampleForms : Forms where
  date := .pinned 0 "1970-01-01T00:00:00Z".toList Encodable.encode Encodable.decode
    Encodable.encodek ⟨'T', by decide, by decide⟩
  uuid := .pinned sampleUuid "01890a5d-ac96-774b-bcce-b302099a8057".toList BitVec.toNat
    (fun n => some (BitVec.ofNat 128 n)) (fun b => by simp) ⟨'a', by decide, by decide⟩

def reminder : ScheduledTask :=
  { id := "0189a0b1c2d3".toList, intervalSecs := 300, prompt := "check".toList,
    recurring := false, durable := true, foreground := false, createdAt := 0,
    lastFiredAt := none, expiresAt := none, lastSubagentId := none, iterationsSinceFresh := 0,
    chainResetPending := false }

def reminderReceipt : OneShotOccurrence where
  occurrenceId := ⟨sampleUuid, by decide⟩
  task := reminder
  versions := ⟨⟨sampleUuid, 1⟩, ⟨sampleUuid, 2⟩, by decide⟩
  durableOneShot := by decide

/-- A journal whose receipt for the reminder lost all but the task. -/
def brokenJournal : Json :=
  .object [(entriesKey,
    .array [.object [("task".toList, .object [("id".toList, .string reminder.id)])]])]

def brokenPlan : SchedulerLoadReconciliation :=
  SchedulerState.reconcileOneShotOccurrences ⟨[reminder], decodeJson sampleForms brokenJournal⟩

theorem receipts_fail_closed_reminder :
    (reminder.id ∈ brokenPlan.blockedTaskIds ∨ brokenPlan.blockAllOneShots = true) ∧
      brokenPlan.taskIdsToRemove = [] ∧
    decodeJson sampleForms (encodeJson sampleForms ⟨[reminderReceipt], [], false, false⟩) =
      ⟨[reminderReceipt], [], false, false⟩ := by
  obtain ⟨hblocked, hremoved, -⟩ :=
    (receipts_fail_closed sampleForms).1 brokenJournal [reminder]
  have hnamed : Named brokenJournal reminder.id := .inl ⟨_, mem_singleton_self _, rfl⟩
  refine ⟨hblocked reminder (mem_singleton_self reminder) rfl hnamed, hremoved ?_, ?_⟩
  · decide
  · have hstep : SchedulerState.prepareOneShotOccurrence ⟨[reminder], ⟨[], [], false, false⟩⟩
        reminderReceipt.occurrenceId reminder.id reminderReceipt.versions =
          .ok (reminderReceipt, ⟨[], ⟨[reminderReceipt], [], false, false⟩⟩) := by
      decide
    exact (receipts_fail_closed sampleForms).2 _ (.prepare (.fresh [reminder]) hstep)

end GrokBuild.Scheduler
