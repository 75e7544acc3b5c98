import GrokBuild.ChatActor.Mutations
import GrokBuild.ChatHistory.Repaired

/-!
# What the passes leave alone

Repair and pruning touch tool results only: the other items are the same ones
in the same order (`heads_repaired`, `heads_repairHistory`, `heads_pruneWith`).
Integrity repair has nothing to do exactly on a conversation whose runs are
`Settled`, and it leaves such a one (`settled_repaired_iff`, `repairs_eq_false_iff`).
-/

namespace GrokBuild.ChatActor

open TextLines ChatHistory ConversationItem Runs KeepLast List

/-! ## Integrity repair -/

/-- What integrity repair does to the run behind an item. -/
def integrityRun (reason : DanglingToolCallReason) (item : ConversationItem)
    (run : List ToolResultItem) : List ToolResultItem :=
  fillRun reason item (dedupRun item run)

theorem repaired_eq (reason : DanglingToolCallReason) (items : Conversation) :
    repaired reason items = mapRuns toolResults (fun r => r) (integrityRun reason) items := by
  simp only [repaired, dedupDuplicateToolResults_eq, repairDanglingToolCalls_eq, mapRuns_mapRuns]
  rfl

theorem heads_repaired (reason : DanglingToolCallReason) (items : Conversation) :
    heads toolResults (repaired reason items) = heads toolResults items := by
  rw [repaired_eq, heads_mapRuns]

theorem heads_repairHistory (items : Conversation) :
    heads toolResults (repairHistory items).1 = heads toolResults items := by
  rw [repairHistory_eq, heads_mapRuns]

/-- The results behind an item with calls are of different calls, and answer
each call of it. -/
def SettledRun (item : ConversationItem) (run : List ToolResultItem) : Prop :=
  item.callIds = [] ∨
    (run.map (·.toolCallId)).Nodup ∧ ∀ id ∈ item.callIds, id ∈ run.map (·.toolCallId)

def Settled (items : Conversation) : Prop :=
  ∀ b ∈ (cut toolResults items).blocks, SettledRun b.1 b.2

variable {reason : DanglingToolCallReason}

theorem synthetic_eq_nil_iff {toolCalls : List ToolCall} {answered : List Text} :
    synthetic reason toolCalls answered = [] ↔ ∀ id ∈ toolCalls.map (·.id), id ∈ answered := by
  simp [synthetic, filter_eq_nil_iff]

theorem synthetic_ids (reason : DanglingToolCallReason) (toolCalls : List ToolCall)
    (answered : List Text) :
    (synthetic reason toolCalls answered).map (·.toolCallId) =
      (toolCalls.map (·.id)).filter fun id => id ∉ answered := by
  rw [synthetic, List.map_map, List.filter_map]
  rfl

variable {item : ConversationItem} {run : List ToolResultItem}

theorem integrityRun_of_settled (reason : DanglingToolCallReason) (h : SettledRun item run) :
    integrityRun reason item run = run := by
  cases item with
  | assistant a =>
    by_cases hcalls : a.toolCalls = []
    · have hno : NoCalls (.assistant a) := by simp [NoCalls, callIds, hcalls]
      rw [integrityRun, dedupRun_noCalls hno, fillRun_noCalls reason hno]
    · have hids : (ConversationItem.assistant a).callIds ≠ [] := by simpa [callIds] using hcalls
      obtain ⟨hnodup, hanswered⟩ := h.resolve_left hids
      rw [integrityRun, dedupRun_assistant hcalls, keepLast_of_nodup _ hnodup, fillRun,
        synthetic_eq_nil_iff.mpr hanswered, append_nil]
  | system | user | toolResult | backendToolCall | reasoning => rfl

variable {items : Conversation}

theorem repaired_of_settled (reason : DanglingToolCallReason) (h : Settled items) :
    repaired reason items = items := by
  rw [repaired_eq]
  exact mapRuns_eq_self toolResults _ _ rfl fun b hb => integrityRun_of_settled reason (h b hb)

/-- The run comes out settled unless an id that is declared twice had no
result: it gets two. -/
theorem settledRun_integrityRun_iff :
    SettledRun item (integrityRun reason item run) ↔
      ∀ id, 2 ≤ item.callIds.count id → answers run id ≠ [] := by
  by_cases hids : item.callIds = []
  · have hleft : SettledRun item (integrityRun reason item run) := .inl hids
    exact iff_of_true hleft fun id hcount => by simp [hids] at hcount
  · cases item with
    | system | user | toolResult | backendToolCall | reasoning => exact absurd rfl hids
    | assistant a =>
      have hcalls : a.toolCalls ≠ [] := by simpa [callIds] using hids
      have hnew : ((integrityRun reason (.assistant a) run).map (·.toolCallId)) =
          (keepLast (·.toolCallId) run).map (·.toolCallId) ++
            (callIds (.assistant a)).filter fun id => id ∉ run.map (·.toolCallId) := by
        rw [integrityRun, dedupRun_assistant hcalls, fillRun, map_append, synthetic_ids]
        simp only [mem_map_keepLast]
        rfl
      have hanswered : ∀ id ∈ (ConversationItem.assistant a).callIds,
          id ∈ (integrityRun reason (.assistant a) run).map (·.toolCallId) := by
        intro id hid
        rw [hnew, mem_append, mem_map_keepLast]
        by_cases hrun : id ∈ run.map (·.toolCallId)
        · exact .inl hrun
        · exact .inr (mem_filter.mpr ⟨hid, by simpa using hrun⟩)
      have hdisjoint : ((keepLast (·.toolCallId) run).map (·.toolCallId)).Disjoint
          ((callIds (.assistant a)).filter fun id => id ∉ run.map (·.toolCallId)) := by
        intro id hkept hfilled
        rw [mem_map_keepLast] at hkept
        exact of_decide_eq_true (mem_filter.mp hfilled).2 hkept
      have hsettled : SettledRun (.assistant a) (integrityRun reason (.assistant a) run) ↔
          ((callIds (.assistant a)).filter fun id => id ∉ run.map (·.toolCallId)).Nodup := by
        rw [SettledRun, hnew, nodup_append']
        constructor
        · intro h
          exact (h.resolve_left hids).1.2.1
        · intro h
          refine .inr ⟨⟨nodup_keys_keepLast _ run, h, hdisjoint⟩, ?_⟩
          rw [← hnew]
          exact hanswered
      rw [hsettled, nodup_iff_count_le_one]
      constructor
      · intro h id hcount hnone
        have hle := h id
        rw [count_filter (by simpa using answers_eq_nil.mp hnone)] at hle
        omega
      · intro h id
        by_cases hrun : id ∈ run.map (·.toolCallId)
        · rw [count_eq_zero_of_not_mem]
          · exact Nat.zero_le 1
          · intro hmem
            exact of_decide_eq_true (mem_filter.mp hmem).2 hrun
        · rw [count_filter (by simpa using hrun)]
          refine Nat.le_of_not_lt fun htwice => ?_
          exact h id htwice (answers_eq_nil.mpr hrun)

theorem settled_repaired_iff (reason : DanglingToolCallReason) :
    Settled (repaired reason items) ↔ RepeatedIdsAnswered items := by
  rw [Settled, repaired_eq, cut_mapRuns]
  constructor
  · intro h b hb
    exact settledRun_integrityRun_iff.mp (h _ (List.mem_map_of_mem hb))
  · intro h b hb
    obtain ⟨b', hb', rfl⟩ := List.mem_map.mp hb
    exact settledRun_integrityRun_iff.mpr (h b' hb')

theorem settledRun_of_integrityRun_eq (h : integrityRun reason item run = run) :
    SettledRun item run := by
  by_cases hids : item.callIds = []
  · exact .inl hids
  · cases item with
    | system | user | toolResult | backendToolCall | reasoning => exact absurd rfl hids
    | assistant a =>
      have hcalls : a.toolCalls ≠ [] := by simpa [callIds] using hids
      rw [integrityRun, dedupRun_assistant hcalls, fillRun] at h
      -- a filled-in result would be of a call that the run, which has it, does not answer
      have hnone : synthetic reason a.toolCalls
          ((keepLast (·.toolCallId) run).map (·.toolCallId)) = [] := by
        rw [eq_nil_iff_forall_not_mem]
        intro tr htr
        have hmem : tr.toolCallId ∈ run.map (·.toolCallId) :=
          List.mem_map_of_mem (h ▸ mem_append_right _ htr)
        have hid := List.mem_map_of_mem (f := (·.toolCallId)) htr
        rw [synthetic_ids] at hid
        have hnot := of_decide_eq_true (mem_filter.mp hid).2
        rw [mem_map_keepLast] at hnot
        exact hnot hmem
      rw [hnone, append_nil] at h
      rw [synthetic_eq_nil_iff] at hnone
      rw [h] at hnone
      exact .inr ⟨h ▸ nodup_keys_keepLast _ run, hnone⟩

theorem repaired_eq_self_iff : repaired reason items = items ↔ Settled items := by
  refine ⟨fun h b hb => ?_, repaired_of_settled reason⟩
  rw [repaired_eq] at h
  have hcut := cut_mapRuns toolResults (fun r => r) (integrityRun reason) items
  rw [h] at hcut
  have hblocks : (cut toolResults items).blocks =
      (cut toolResults items).blocks.map fun b => (b.1, integrityRun reason b.1 b.2) :=
    congrArg Cut.blocks hcut
  obtain ⟨i, hi, rfl⟩ := mem_iff_getElem.mp hb
  have hi' := getElem_of_eq hblocks hi
  rw [getElem_map] at hi'
  exact settledRun_of_integrityRun_eq (congrArg Prod.snd hi').symm

theorem fillRun_eq_of_length (h : (fillRun reason item run).length ≤ run.length) :
    fillRun reason item run = run := by
  cases item with
  | assistant a =>
    rw [fillRun, length_append] at h
    have hnil : (synthetic reason a.toolCalls (run.map (·.toolCallId))).length = 0 := by omega
    rw [fillRun, length_eq_zero_iff.mp hnil, append_nil]
  | system | user | toolResult | backendToolCall | reasoning => rfl

/-- The passes report nothing exactly when there is nothing to do. -/
theorem repairs_eq_false_iff (reason : DanglingToolCallReason) :
    repairs reason items = false ↔ Settled items := by
  simp only [repairs, dedupDuplicateToolResults_eq, repairDanglingToolCalls_eq, Bool.or_eq_false_iff,
    decide_eq_false_iff_not, Nat.not_lt, Nat.le_zero, fillCount, dedupCount, cut_mapRuns,
    Cut.mapRuns, List.map_map, Function.comp_def, sum_eq_zero_iff, List.forall_mem_map]
  constructor
  · intro h b hb
    have hdedup : dedupRun b.1 b.2 = b.2 := by
      refine (dedupRun_sublist b.1 b.2).eq_of_length_le ?_
      have := h.2 b hb
      omega
    have hfill : fillRun reason b.1 (dedupRun b.1 b.2) = dedupRun b.1 b.2 := by
      refine fillRun_eq_of_length ?_
      have := h.1 b hb
      omega
    exact settledRun_of_integrityRun_eq (hfill.trans hdedup)
  · intro h
    have hrun : ∀ b ∈ (cut toolResults items).blocks,
        dedupRun b.1 b.2 = b.2 ∧ fillRun reason b.1 (dedupRun b.1 b.2) = b.2 := by
      intro b hb
      have heq : fillRun reason b.1 (dedupRun b.1 b.2) = b.2 :=
        integrityRun_of_settled reason (h b hb)
      rcases h b hb with hno | hsettled
      · exact ⟨dedupRun_noCalls hno b.2, heq⟩
      · by_cases hids : b.1.callIds = []
        · exact ⟨dedupRun_noCalls hids b.2, heq⟩
        · exact ⟨(dedupRun_of_calls hids b.2).trans (keepLast_of_nodup _ hsettled.1), heq⟩
    refine ⟨fun b hb => ?_, fun b hb => ?_⟩
    · obtain ⟨hdedup, hfill⟩ := hrun b hb
      rw [hfill, hdedup, Nat.sub_self]
    · rw [(hrun b hb).1, Nat.sub_self]

/-! ## History repair -/

theorem repairHistory_unchanged (h : (repairHistory items).2.changed = false) :
    (repairHistory items).1 = items := by
  rw [repairHistory_eq] at h ⊢
  simp only [HistoryRepairReport.changed, Bool.or_eq_false_iff, decide_eq_false_iff_not,
    Nat.not_lt, Nat.le_zero, Bool.not_eq_false', List.isEmpty_iff, append_eq_nil_iff,
    map_eq_nil_iff, flatMap_eq_nil_iff, sum_eq_zero_iff,
    List.forall_mem_map] at h
  obtain ⟨⟨hduplicates, hlead, hstripped⟩, hinserted⟩ := h
  refine mapRuns_eq_self toolResults _ _ hlead.symm fun b hb => ?_
  have hfaithful := repairStep_faithful b.1 b.2
  have hremoved := hfaithful.removed
  rw [hduplicates b hb, hstripped b hb, length_nil] at hremoved
  have hkept : (repairStep b.1 b.2).kept = b.2 :=
    hfaithful.kept_sublist.eq_of_length_le (by omega)
  rw [RunRepair.after, hkept, length_eq_zero_iff.mp (hinserted b hb), append_nil]

theorem repairHistoryCommand_unchanged {env : Env} {a a' : Actor} {dryRun : Bool}
    (h : dryRun = true ∨ (repairHistory a.state.conversation).2.changed = false)
    (ha' : (repairHistoryCommand env dryRun a).map (·.1) = some a') : a' = a := by
  rw [repairHistoryCommand] at ha'
  cases dryRun with
  | true => exact (Option.some.inj ha').symm
  | false =>
    have hsame : (repairHistory a.state.conversation).2.changed = false := h.resolve_left nofun
    simp only [Bool.false_eq_true, if_false, hsame, repairHistory_unchanged hsame,
      Option.map_some, Option.some.injEq] at ha'
    exact ha'.symm

/-! ## Pruning -/

/-- An item with the content and the images of a tool result left out. -/
def skeleton : ConversationItem → ConversationItem
  | .toolResult tr => .toolResult ⟨tr.toolCallId, [], []⟩
  | item => item

def skeletonResult (tr : ToolResultItem) : ToolResultItem := ⟨tr.toolCallId, [], []⟩

theorem cut_map_skeleton (items : Conversation) :
    cut toolResults (items.map skeleton) =
      ⟨(cut toolResults items).lead.map skeletonResult,
        (cut toolResults items).blocks.map fun b => (b.1, b.2.map skeletonResult)⟩ := by
  induction items with
  | nil => rfl
  | cons item items ih =>
    rcases toolResults.head_or_put item with hhead | ⟨tr, rfl⟩
    · have hskeleton : skeleton item = item := by
        cases item with
        | toolResult tr => exact absurd hhead (toolResults.not_head_put tr)
        | system | user | assistant | backendToolCall | reasoning => rfl
      rw [map_cons, hskeleton, cut_head _ hhead, cut_head _ hhead, ih]
      rfl
    · rw [toolResults_put, map_cons, skeleton, cut_toolResult, cut_toolResult, ih]
      rfl

theorem settled_skeleton (items : Conversation) :
    Settled (items.map skeleton) ↔ Settled items := by
  have hrun : ∀ item (run : List ToolResultItem),
      SettledRun item (run.map skeletonResult) ↔ SettledRun item run := by
    intro item run
    rw [SettledRun, List.map_map]
    rfl
  rw [Settled, cut_map_skeleton, Settled]
  simp only [List.forall_mem_map, hrun]

theorem settled_congr {items' : Conversation} (h : items.map skeleton = items'.map skeleton) :
    Settled items ↔ Settled items' := by
  rw [← settled_skeleton items, h, settled_skeleton]

theorem pruneBackward_skeleton {f : Nat → ToolResultItem → ToolResultItem}
    (hf : ∀ age tr, (f age tr).toolCallId = tr.toolCallId) (age : Nat) (seen : Bool)
    (items : Conversation) :
    (pruneBackward f age seen items).map skeleton = items.map skeleton := by
  induction items generalizing age seen with
  | nil => rfl
  | cons item items ih =>
    cases item with
    | toolResult tr => simp [pruneBackward, skeleton, hf, ih]
    | user u => simp [pruneBackward, ih]
    | system | assistant | backendToolCall | reasoning => simp [pruneBackward, ih]

theorem pruneWith_skeleton {f : Nat → ToolResultItem → ToolResultItem}
    (hf : ∀ age tr, (f age tr).toolCallId = tr.toolCallId) (items : Conversation) :
    (pruneWith f items).map skeleton = items.map skeleton := by
  rw [pruneWith, map_reverse, pruneBackward_skeleton hf, map_reverse,
    reverse_reverse]

theorem pruneBackward_heads (f : Nat → ToolResultItem → ToolResultItem) (age : Nat) (seen : Bool)
    (items : Conversation) :
    heads toolResults (pruneBackward f age seen items) = heads toolResults items := by
  induction items generalizing age seen with
  | nil => rfl
  | cons item items ih =>
    simp only [heads] at ih ⊢
    cases item with
    | toolResult tr => simpa [pruneBackward, toolResults, toolResult?] using ih age seen
    | user u => simpa [pruneBackward, toolResults, toolResult?] using ih _ true
    | system | assistant | backendToolCall | reasoning =>
      simpa [pruneBackward, toolResults, toolResult?] using ih age seen

theorem heads_pruneWith (f : Nat → ToolResultItem → ToolResultItem) (items : Conversation) :
    heads toolResults (pruneWith f items) = heads toolResults items := by
  have hback := pruneBackward_heads f 0 false items.reverse
  simp only [heads] at hback ⊢
  rw [pruneWith, filter_reverse, hback, filter_reverse, reverse_reverse]

theorem hardClear_id (threshold age : Nat) (tr : ToolResultItem) :
    (hardClear threshold age tr).toolCallId = tr.toolCallId := by
  rw [hardClear]
  split
  · rfl
  · rfl

end GrokBuild.ChatActor
