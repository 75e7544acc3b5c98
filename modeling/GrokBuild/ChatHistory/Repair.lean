import GrokBuild.ChatHistory.Items

/-!
# Repairing a history

`repair_history` and its three passes. Each pass is a loop over positions of
the conversation.
-/

namespace GrokBuild.ChatHistory

open TextLines ConversationItem List

abbrev Conversation := List ConversationItem

/-- The inner `while`: the end of the results from `j` on. -/
def runEnd (conversation : Conversation) (j : Nat) : Nat :=
  match _h : conversation[j]? with
  | some (.toolResult _) => runEnd conversation (j + 1)
  | _ => j
termination_by conversation.length - j
decreasing_by
  have := (List.getElem?_eq_some_iff.mp _h).1
  omega

theorem le_runEnd (conversation : Conversation) (j : Nat) : j ≤ runEnd conversation j := by
  induction j using runEnd.induct conversation with
  | case1 j tr h ih =>
    rw [runEnd, h]
    exact (Nat.le_succ j).trans ih
  | case2 j h =>
    rw [runEnd]
    split
    · exact absurd ‹_› (h _)
    · exact le_rfl

/-! ## `dedup_duplicate_tool_results` -/

/-- `to_remove`: the positions at which `seen.insert` found an earlier one. -/
def toRemove (seen : Text → Option Nat) : Nat → Conversation → List Nat
  | _, [] => []
  | idx, .toolResult tr :: rest =>
    let later := toRemove (Function.update seen tr.toolCallId (some idx)) (idx + 1) rest
    match seen tr.toolCallId with
    | some prev => prev :: later
    | none => later
  | idx, _ :: rest => toRemove seen (idx + 1) rest

theorem toRemove_lt {items : Conversation} :
    ∀ {seen : Text → Option Nat} {idx : Nat}, (∀ id p, seen id = some p → p < idx) →
      ∀ p ∈ toRemove seen idx items, p < idx + items.length := by
  induction items with
  | nil => simp [toRemove]
  | cons item rest ih =>
    intro seen idx hseen p hp
    have hlen : (item :: rest).length = rest.length + 1 := rfl
    cases item with
    | toolResult tr =>
      have hupd : ∀ id p, Function.update seen tr.toolCallId (some idx) id = some p →
          p < idx + 1 := by
        intro id p h
        by_cases hid : id = tr.toolCallId
        · rw [hid, Function.update_self] at h
          cases h
          omega
        · rw [Function.update_of_ne hid] at h
          have := hseen id p h
          omega
      rw [toRemove] at hp
      cases hprev : seen tr.toolCallId with
      | none =>
        rw [hprev] at hp
        have := ih hupd p hp
        omega
      | some prev =>
        rw [hprev] at hp
        rcases mem_cons.mp hp with rfl | hp
        · have := hseen _ _ hprev
          omega
        · have := ih hupd p hp
          omega
    | system | user | assistant | backendToolCall | reasoning =>
      have := ih (fun id p h => Nat.lt_succ_of_lt (hseen id p h)) p hp
      omega

/-- `conversation.remove(*idx)` for each of them. -/
def removeAll (idxs : List Nat) (conversation : Conversation) : Conversation :=
  idxs.foldl List.eraseIdx conversation

theorem removeAll_length_le (idxs : List Nat) (conversation : Conversation) :
    (removeAll idxs conversation).length ≤ conversation.length := by
  induction idxs generalizing conversation with
  | nil => exact le_rfl
  | cons i idxs ih => exact (ih _).trans (length_eraseIdx_le _ _)

theorem removeAll_length_lt {idxs : List Nat} {conversation : Conversation} (hne : idxs ≠ [])
    (h : ∀ i ∈ idxs, i < conversation.length) :
    (removeAll idxs conversation).length < conversation.length := by
  cases idxs with
  | nil => exact absurd rfl hne
  | cons i idxs =>
    have hi := h i mem_cons_self
    have hlen := length_eraseIdx_of_lt hi
    have := removeAll_length_le idxs (conversation.eraseIdx i)
    show (removeAll idxs (conversation.eraseIdx i)).length < _
    omega

/-- The positions of `start..end` to remove, last first. -/
def removals (conversation : Conversation) (start stop : Nat) : List Nat :=
  ((toRemove (fun _ => none) start ((conversation.take stop).drop start)).mergeSort).reverse

theorem removals_lt {conversation : Conversation} {start stop : Nat}
    (h : start ≤ conversation.length) :
    ∀ i ∈ removals conversation start stop, i < conversation.length := by
  intro i hi
  rw [removals, mem_reverse, mem_mergeSort] at hi
  have := toRemove_lt (by simp) i hi
  simp only [length_drop, length_take] at this
  omega

/-- `dedup_duplicate_tool_results` from position `i` on, with what it has
removed so far. -/
def dedupLoop (conversation : Conversation) (i totalRemoved : Nat) : Conversation × Nat :=
  match _h : conversation[i]? with
  | none => (conversation, totalRemoved)
  | some (.assistant a) =>
    if a.toolCalls = [] then dedupLoop conversation (i + 1) totalRemoved
    else
      let idxs := removals conversation (i + 1) (runEnd conversation (i + 1))
      if _hr : idxs = [] then
        dedupLoop conversation (runEnd conversation (i + 1)) totalRemoved
      else dedupLoop (removeAll idxs conversation) i (totalRemoved + idxs.length)
  | some _ => dedupLoop conversation (i + 1) totalRemoved
termination_by conversation.length - i
decreasing_by
  all_goals
    have hi := (List.getElem?_eq_some_iff.mp _h).1
    have hend := le_runEnd conversation (i + 1)
  · omega
  · omega
  · have : (removeAll (removals conversation (i + 1) (runEnd conversation (i + 1)))
        conversation).length < conversation.length :=
      removeAll_length_lt _hr (removals_lt hi)
    omega
  · omega

def dedupDuplicateToolResults (conversation : Conversation) : Conversation × Nat :=
  dedupLoop conversation 0 0

/-! ## `strip_displaced_tool_results` -/

/-- `items.retain` with its `run_ids`, and the stripped ids. -/
def stripLoop : List Text → Conversation → Conversation × List Text
  | _, [] => ([], [])
  | _, .assistant a :: rest =>
    let r := stripLoop (a.toolCalls.map (·.id)) rest
    (.assistant a :: r.1, r.2)
  | runIds, .toolResult tr :: rest =>
    let r := stripLoop runIds rest
    if tr.toolCallId ∈ runIds then (.toolResult tr :: r.1, r.2)
    else (r.1, tr.toolCallId :: r.2)
  | _, item :: rest =>
    let r := stripLoop [] rest
    (item :: r.1, r.2)

def stripDisplacedToolResults (items : Conversation) : Conversation × List Text :=
  stripLoop [] items

/-! ## `repair_dangling_tool_calls` -/

inductive DanglingToolCallReason where
  | userCancelled
  | harnessHalted (class' : Text)
  deriving DecidableEq

def syntheticDanglingResultText (name : Text) : DanglingToolCallReason → Text
  | .userCancelled =>
    "Tool execution was cancelled by the user (tool `".toList ++ name ++
      "` was not executed).".toList
  | .harnessHalted class' =>
    "Tool execution was halted by the harness (".toList ++ class' ++ "); the tool `".toList ++
      name ++ "` was not executed.".toList

/-- The results for the calls that none of `answered` answers, in the order
of the calls. -/
def synthetic (reason : DanglingToolCallReason) (toolCalls : List ToolCall)
    (answered : List Text) : List ToolResultItem :=
  (toolCalls.filter fun tc => tc.id ∉ answered).map fun tc =>
    ⟨tc.id, syntheticDanglingResultText tc.name reason, []⟩

/-- The ids of the results at the positions `start..end`. -/
def answeredIds (conversation : Conversation) (start stop : Nat) : List Text :=
  ((conversation.take stop).drop start).filterMap fun item =>
    item.toolResult?.map (·.toolCallId)

/-- Phase 1: where results have to be inserted, and which, from position `i`
on. -/
def danglingRepairs (reason : DanglingToolCallReason) (conversation : Conversation) (i : Nat) :
    List (Nat × List ToolResultItem) :=
  match _h : conversation[i]? with
  | none => []
  | some (.assistant a) =>
    if a.toolCalls = [] then danglingRepairs reason conversation (i + 1)
    else
      let j := runEnd conversation (i + 1)
      let results := synthetic reason a.toolCalls (answeredIds conversation (i + 1) j)
      let later := danglingRepairs reason conversation j
      if results = [] then later else (j, results) :: later
  | some _ => danglingRepairs reason conversation (i + 1)
termination_by conversation.length - i
decreasing_by
  all_goals
    have hi := (List.getElem?_eq_some_iff.mp _h).1
    have := le_runEnd conversation (i + 1)
    omega

/-- `conversation.splice(insert_at..insert_at, synthetic)`. -/
def insertAt (conversation : Conversation) (repair : Nat × List ToolResultItem) : Conversation :=
  conversation.take repair.1 ++ repair.2.map .toolResult ++ conversation.drop repair.1

/-- Phase 2, in reverse order of the positions. -/
def applyRepairs (repairs : List (Nat × List ToolResultItem)) (conversation : Conversation) :
    Conversation :=
  repairs.reverse.foldl insertAt conversation

def repairDanglingToolCalls (conversation : Conversation) (reason : DanglingToolCallReason) :
    Conversation × Nat :=
  let repairs := danglingRepairs reason conversation 0
  (applyRepairs repairs conversation, (repairs.map fun r => r.2.length).sum)

/-! ## `repair_history` -/

structure HistoryRepairReport where
  duplicatesRemoved : Nat
  strippedToolResultIds : List Text
  syntheticResultsInserted : Nat
  deriving DecidableEq

def HistoryRepairReport.changed (report : HistoryRepairReport) : Bool :=
  0 < report.duplicatesRemoved || !report.strippedToolResultIds.isEmpty ||
    0 < report.syntheticResultsInserted

/-- The reason `repair_history` gives. -/
def historyRepair : DanglingToolCallReason := .harnessHalted "history_repair".toList

def repairHistory (items : Conversation) : Conversation × HistoryRepairReport :=
  let deduped := dedupDuplicateToolResults items
  let stripped := stripDisplacedToolResults deduped.1
  let backfilled := repairDanglingToolCalls stripped.1 historyRepair
  (backfilled.1, ⟨deduped.2, stripped.2, backfilled.2⟩)

end GrokBuild.ChatHistory
