import GrokBuild.ChatHistory.Passes

/-!
# Repairing a history: what comes out

A provider accepts a conversation when every run of results answers the
calls of its item, each once (`Accepted`). A repair has nothing to do on such
a conversation; on any other one it gives such a conversation unless an item
declares one id twice and no result of its run carries it.
-/

namespace GrokBuild.ChatHistory

open TextLines ConversationItem Runs KeepLast List

/-- The items with the results directly behind each. -/
abbrev runs (items : Conversation) : Cut ConversationItem ToolResultItem := cut toolResults items

/-- The results that carry an id. -/
def answers (run : List ToolResultItem) (id : Text) : List ToolResultItem :=
  run.filter (·.toolCallId = id)

/-- Every result answers a call of its item and every call has one answer. -/
structure AcceptedRun (item : ConversationItem) (run : List ToolResultItem) : Prop where
  declared : ∀ tr ∈ run, tr.toolCallId ∈ item.callIds
  answeredOnce : ∀ id ∈ item.callIds, (answers run id).length = 1

structure Accepted (items : Conversation) : Prop where
  lead : (runs items).lead = []
  run : ∀ b ∈ (runs items).blocks, AcceptedRun b.1 b.2

/-- What a repair did to the run behind an item. -/
structure RunRepair where
  kept : List ToolResultItem
  duplicates : Nat
  stripped : List Text
  inserted : List ToolResultItem

def RunRepair.after (r : RunRepair) : List ToolResultItem := r.kept ++ r.inserted

/-- A repair kept of each declared id the last result, as it was, and
inserted one for each call without any. -/
structure RunRepair.Faithful (r : RunRepair) (item : ConversationItem)
    (before : List ToolResultItem) : Prop where
  kept_sublist : r.kept.Sublist before
  kept_last : ∀ id, answers r.kept id =
    if id ∈ item.callIds then (answers before id).getLast?.toList else []
  inserted_ids : r.inserted.map (·.toolCallId) =
    item.callIds.filter fun id => answers before id = []
  duplicates_eq : r.duplicates =
    if item.callIds = [] then 0 else (superseded (·.toolCallId) 0 before).length
  stripped_ids : r.stripped.Sublist (displacedIds item.callIds before)
  removed : before.length = r.kept.length + r.duplicates + r.stripped.length

/-- What a repair of `before` into `after` has to be. -/
structure Repaired (before after : Conversation) (report : HistoryRepairReport) : Prop where
  accepted : Accepted after
  others : heads toolResults after = heads toolResults before
  faithful : ∃ step : ConversationItem → List ToolResultItem → RunRepair,
    (∀ b ∈ (runs before).blocks, (step b.1 b.2).Faithful b.1 b.2) ∧
    (runs after).blocks = (runs before).blocks.map (fun b => (b.1, (step b.1 b.2).after)) ∧
    report.duplicatesRemoved =
      ((runs before).blocks.map fun b => (step b.1 b.2).duplicates).sum ∧
    report.strippedToolResultIds = (runs before).lead.map (·.toolCallId) ++
      (runs before).blocks.flatMap (fun b => (step b.1 b.2).stripped) ∧
    report.syntheticResultsInserted =
      ((runs before).blocks.map fun b => (step b.1 b.2).inserted.length).sum
  again : repairHistory after = (after, ⟨0, [], 0⟩)

/-! ## The repair of one run -/

/-- `repair_history` on the run behind an item. -/
def repairStep (item : ConversationItem) (run : List ToolResultItem) : RunRepair :=
  let deduped := dedupRun item run
  let stripped := stripRun item deduped
  { kept := stripped
    duplicates := run.length - deduped.length
    stripped := displacedIds item.callIds deduped
    inserted := match item with
      | .assistant a => synthetic historyRepair a.toolCalls (stripped.map (·.toolCallId))
      | _ => [] }

theorem repairStep_after (item : ConversationItem) (run : List ToolResultItem) :
    (repairStep item run).after =
      fillRun historyRepair item (stripRun item (dedupRun item run)) := by
  cases item with
  | assistant a => rfl
  | system | user | toolResult | backendToolCall | reasoning =>
    exact append_nil _

theorem repairHistory_eq (items : Conversation) :
    repairHistory items =
      (mapRuns toolResults (fun _ => []) (fun item run => (repairStep item run).after) items,
        { duplicatesRemoved :=
            ((runs items).blocks.map fun b => (repairStep b.1 b.2).duplicates).sum
          strippedToolResultIds := (runs items).lead.map (·.toolCallId) ++
            (runs items).blocks.flatMap (fun b => (repairStep b.1 b.2).stripped)
          syntheticResultsInserted :=
            ((runs items).blocks.map fun b => (repairStep b.1 b.2).inserted.length).sum }) := by
  have hfill : ∀ item run, (fillRun historyRepair item (stripRun item (dedupRun item run))).length -
      (stripRun item (dedupRun item run)).length = (repairStep item run).inserted.length := by
    intro item run
    rw [← repairStep_after, RunRepair.after, length_append]
    exact Nat.add_sub_cancel_left _ _
  simp only [repairHistory, dedupDuplicateToolResults_eq, stripDisplacedToolResults, stripLoop_eq,
    repairDanglingToolCalls_eq, mapRuns_mapRuns, displaced, fillCount, cut_mapRuns, Cut.mapRuns,
    List.map_map, flatMap_map, Function.comp_def, repairStep_after, hfill, dedupCount]
  simp [displacedIds, repairStep]

variable {item : ConversationItem}

theorem dedupRun_of_calls (h : item.callIds ≠ []) (run : List ToolResultItem) :
    dedupRun item run = keepLast (·.toolCallId) run := by
  cases item with
  | assistant a => exact dedupRun_assistant (fun ha => h (by simp [callIds, ha])) run
  | system | user | toolResult | backendToolCall | reasoning => exact absurd rfl h

variable {run : List ToolResultItem}

theorem answers_eq_nil {id : Text} : answers run id = [] ↔ id ∉ run.map (·.toolCallId) := by
  simp [answers, filter_eq_nil_iff]

theorem dedupRun_sublist (item : ConversationItem) (run : List ToolResultItem) :
    (dedupRun item run).Sublist run := by
  by_cases h : item.callIds = []
  · rw [dedupRun_noCalls h]
  · rw [dedupRun_of_calls h]
    exact keepLast_sublist _ run

theorem answers_kept (item : ConversationItem) (run : List ToolResultItem) (id : Text) :
    answers (repairStep item run).kept id =
      if id ∈ item.callIds then (answers run id).getLast?.toList else [] := by
  by_cases hid : id ∈ item.callIds
  · have hcalls : item.callIds ≠ [] := List.ne_nil_of_mem hid
    have hlast := filter_keepLast (·.toolCallId) id run
    rw [if_pos hid, answers, answers, ← hlast]
    show (stripRun item (dedupRun item run)).filter _ = _
    rw [stripRun, dedupRun_of_calls hcalls, List.filter_filter]
    apply filter_congr
    intro tr _
    by_cases htr : tr.toolCallId = id
    · simp [htr, hid]
    · simp [htr]
  · rw [if_neg hid, answers_eq_nil]
    intro hmem
    obtain ⟨tr, htr, rfl⟩ := List.mem_map.mp hmem
    exact hid (of_decide_eq_true (mem_filter.mp htr).2)

theorem inserted_ids (item : ConversationItem) (run : List ToolResultItem) :
    (repairStep item run).inserted.map (·.toolCallId) =
      item.callIds.filter fun id => answers run id = [] := by
  cases item with
  | system | user | toolResult | backendToolCall | reasoning => rfl
  | assistant a =>
    have hkept : ∀ id ∈ (assistant a).callIds,
        (id ∉ (repairStep (assistant a) run).kept.map (·.toolCallId) ↔ answers run id = []) := by
      intro id hid
      rw [← answers_eq_nil, answers_kept, if_pos hid]
      cases answers run id <;> simp
    have hcalls : a.toolCalls.filter (fun tc =>
          tc.id ∉ (repairStep (assistant a) run).kept.map (·.toolCallId)) =
        a.toolCalls.filter (fun tc => answers run tc.id = []) :=
      filter_congr fun tc htc => by
        simpa using hkept tc.id (List.mem_map_of_mem htc)
    show ((a.toolCalls.filter fun tc =>
      tc.id ∉ (repairStep (assistant a) run).kept.map (·.toolCallId)).map _).map _ = _
    rw [hcalls, callIds, List.map_map, List.filter_map]
    rfl

theorem repairStep_faithful (item : ConversationItem) (run : List ToolResultItem) :
    (repairStep item run).Faithful item run where
  kept_sublist := filter_sublist.trans (dedupRun_sublist item run)
  kept_last := answers_kept item run
  inserted_ids := inserted_ids item run
  duplicates_eq := by
    have hlen := length_superseded (·.toolCallId) 0 run
    show run.length - (dedupRun item run).length = _
    by_cases h : item.callIds = []
    · rw [if_pos h, dedupRun_noCalls h, Nat.sub_self]
    · rw [if_neg h, dedupRun_of_calls h]
      omega
  stripped_ids := ((dedupRun_sublist item run).filter _).map _
  removed := by
    have hsub := (dedupRun_sublist item run).length_le
    have hsplit := length_eq_length_filter_add (l := dedupRun item run)
      fun tr => decide (tr.toolCallId ∈ item.callIds)
    show run.length = (stripRun item (dedupRun item run)).length +
      (run.length - (dedupRun item run).length) +
      (displacedIds item.callIds (dedupRun item run)).length
    rw [stripRun, displacedIds, length_map]
    simp only [decide_not]
    omega

/-! ## A conversation that is accepted -/

theorem nodup_of_answeredOnce (h : ∀ tr ∈ run, (answers run tr.toolCallId).length = 1) :
    (run.map (·.toolCallId)).Nodup := by
  rw [nodup_iff_count_eq_one]
  intro id hid
  obtain ⟨tr, htr, rfl⟩ := List.mem_map.mp hid
  rw [← h tr htr, count_eq_countP, countP_map, countP_eq_length_filter]
  congr 1
  exact filter_congr fun t _ => by rw [Bool.eq_iff_iff]; simp

theorem repairStep_of_accepted (h : AcceptedRun item run) : repairStep item run = ⟨run, 0, [], []⟩ := by
  have hnodup := nodup_of_answeredOnce fun tr htr => h.answeredOnce _ (h.declared tr htr)
  have hdedup : dedupRun item run = run := by
    by_cases hcalls : item.callIds = []
    · exact dedupRun_noCalls hcalls run
    · rw [dedupRun_of_calls hcalls, keepLast_of_nodup _ hnodup]
  have hkept : (repairStep item run).kept = run := by
    show stripRun item (dedupRun item run) = run
    rw [hdedup]
    exact filter_eq_self.mpr fun tr htr => by simpa using h.declared tr htr
  have hstripped : (repairStep item run).stripped = [] := by
    show displacedIds item.callIds (dedupRun item run) = []
    rw [hdedup, displacedIds, map_eq_nil_iff, filter_eq_nil_iff]
    intro tr htr
    simpa using h.declared tr htr
  have hinserted : (repairStep item run).inserted = [] := by
    rw [← map_eq_nil_iff (f := (·.toolCallId)), inserted_ids, filter_eq_nil_iff]
    intro id hid hnil
    have hone := h.answeredOnce id hid
    rw [of_decide_eq_true hnil] at hone
    cases hone
  have hduplicates : (repairStep item run).duplicates = 0 := by
    show run.length - (dedupRun item run).length = 0
    rw [hdedup, Nat.sub_self]
  calc repairStep item run
      = ⟨(repairStep item run).kept, (repairStep item run).duplicates,
          (repairStep item run).stripped, (repairStep item run).inserted⟩ := rfl
    _ = ⟨run, 0, [], []⟩ := by rw [hkept, hduplicates, hstripped, hinserted]

theorem repairHistory_of_accepted {items : Conversation} (h : Accepted items) :
    repairHistory items = (items, ⟨0, [], 0⟩) := by
  have hstep : ∀ b ∈ (runs items).blocks, repairStep b.1 b.2 = ⟨b.2, 0, [], []⟩ :=
    fun b hb => repairStep_of_accepted (h.run b hb)
  have hitems : mapRuns toolResults (fun _ => [])
      (fun item run => (repairStep item run).after) items = items := by
    apply mapRuns_eq_self
    · exact h.lead.symm
    · intro b hb
      rw [hstep b hb, RunRepair.after, append_nil]
  have hduplicates : ((runs items).blocks.map fun b => (repairStep b.1 b.2).duplicates).sum = 0 :=
    sum_eq_zero fun n hn => by
      obtain ⟨b, hb, rfl⟩ := List.mem_map.mp hn
      rw [hstep b hb]
  have hinserted :
      ((runs items).blocks.map fun b => (repairStep b.1 b.2).inserted.length).sum = 0 :=
    sum_eq_zero fun n hn => by
      obtain ⟨b, hb, rfl⟩ := List.mem_map.mp hn
      rw [hstep b hb]
      rfl
  have hstripped :
      (runs items).blocks.flatMap (fun b => (repairStep b.1 b.2).stripped) = [] :=
    flatMap_eq_nil_iff.mpr fun b hb => by rw [hstep b hb]
  rw [repairHistory_eq, hitems, hduplicates, hinserted, hstripped, h.lead]
  rfl

/-! ## The result of a repair -/

/-- An id that an item declares twice is carried by a result of its run. -/
def RepeatedIdsAnswered (items : Conversation) : Prop :=
  ∀ b ∈ (runs items).blocks, ∀ id, 2 ≤ b.1.callIds.count id → answers b.2 id ≠ []

theorem answers_append (run run' : List ToolResultItem) (id : Text) :
    answers (run ++ run') id = answers run id ++ answers run' id := filter_append _ _

theorem length_answers (run : List ToolResultItem) (id : Text) :
    (answers run id).length = (run.map (·.toolCallId)).count id := by
  rw [answers, ← countP_eq_length_filter, count_eq_countP, countP_map]
  exact countP_congr fun t _ => by simp

/-- A declared id is answered once if a result of the run carries it, else as
often as it is declared. -/
theorem length_answers_after (item : ConversationItem) (run : List ToolResultItem) {id : Text}
    (hid : id ∈ item.callIds) :
    (answers (repairStep item run).after id).length =
      if answers run id = [] then item.callIds.count id else 1 := by
  rw [RunRepair.after, answers_append, length_append, answers_kept, if_pos hid,
    length_answers (repairStep item run).inserted, inserted_ids]
  by_cases h : answers run id = []
  · rw [if_pos h, count_filter (by simpa using h), h]
    simp
  · have hnot : id ∉ item.callIds.filter fun id => answers run id = [] := by
      simp [h]
    rw [if_neg h, count_eq_zero_of_not_mem hnot, getLast?_eq_some_getLast h]
    rfl

theorem mem_callIds_of_mem_after {tr : ToolResultItem} (h : tr ∈ (repairStep item run).after) :
    tr.toolCallId ∈ item.callIds := by
  rcases mem_append.mp h with h | h
  · simpa using (mem_filter.mp h).2
  · have hmem := List.mem_map_of_mem (f := (·.toolCallId)) h
    rw [inserted_ids] at hmem
    exact (mem_filter.mp hmem).1

theorem acceptedRun_after_iff (item : ConversationItem) (run : List ToolResultItem) :
    AcceptedRun item (repairStep item run).after ↔
      ∀ id, 2 ≤ item.callIds.count id → answers run id ≠ [] := by
  constructor
  · intro h id hcount hnil
    have hid : id ∈ item.callIds := count_pos_iff.mp (by omega)
    have hone := h.answeredOnce id hid
    rw [length_answers_after item run hid, if_pos hnil] at hone
    omega
  · intro h
    refine ⟨fun tr htr => mem_callIds_of_mem_after htr, fun id hid => ?_⟩
    have hpos := count_pos_iff.mpr hid
    rw [length_answers_after item run hid]
    by_cases hnil : answers run id = []
    · have hone : ¬ 2 ≤ item.callIds.count id := fun hcount => h id hcount hnil
      rw [if_pos hnil]
      omega
    · rw [if_neg hnil]

theorem runs_repairHistory (items : Conversation) :
    runs (repairHistory items).1 =
      ⟨[], (runs items).blocks.map fun b => (b.1, (repairStep b.1 b.2).after)⟩ := by
  rw [repairHistory_eq]
  exact cut_mapRuns toolResults _ _ items

theorem accepted_repairHistory_iff (items : Conversation) :
    Accepted (repairHistory items).1 ↔ RepeatedIdsAnswered items := by
  constructor
  · intro h b hb
    apply (acceptedRun_after_iff b.1 b.2).mp
    have hmem : (b.1, (repairStep b.1 b.2).after) ∈ (runs (repairHistory items).1).blocks := by
      rw [runs_repairHistory]
      exact List.mem_map_of_mem (f := fun b => (b.1, (repairStep b.1 b.2).after)) hb
    exact h.run _ hmem
  · intro h
    constructor
    · rw [runs_repairHistory]
    · intro b hb
      rw [runs_repairHistory] at hb
      obtain ⟨b', hb', rfl⟩ := List.mem_map.mp hb
      exact (acceptedRun_after_iff b'.1 b'.2).mpr (h b' hb')

/-- A repair is what it has to be exactly on the conversations that do not
leave a repeated id unanswered. -/
theorem repairHistory_repaired_iff (items : Conversation) :
    Repaired items (repairHistory items).1 (repairHistory items).2 ↔
      RepeatedIdsAnswered items := by
  constructor
  · intro h
    exact (accepted_repairHistory_iff items).mp h.accepted
  · intro h
    have haccepted := (accepted_repairHistory_iff items).mpr h
    exact {
      accepted := haccepted
      others := by rw [repairHistory_eq]; exact heads_mapRuns toolResults _ _ items
      faithful := by
        refine ⟨repairStep, fun b _ => repairStep_faithful b.1 b.2, ?_, ?_⟩
        · rw [runs_repairHistory]
        · rw [repairHistory_eq]
          exact ⟨rfl, rfl, rfl⟩
      again := repairHistory_of_accepted haccepted }

/-- One id declared twice, and the session stopped before any result. -/
def repeatedIdHistory : Conversation :=
  [.assistant ⟨[], [⟨"c".toList, "read".toList, []⟩, ⟨"c".toList, "read".toList, []⟩]⟩]

theorem repeatedIdHistory_not_repaired :
    ¬ ∀ items, Repaired items (repairHistory items).1 (repairHistory items).2 := by
  intro h
  have hanswered := (accepted_repairHistory_iff repeatedIdHistory).mp (h _).accepted
  exact hanswered _ mem_cons_self "c".toList (by decide) rfl

end GrokBuild.ChatHistory
