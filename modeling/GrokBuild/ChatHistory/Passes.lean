import GrokBuild.ChatHistory.Repair
import GrokBuild.Lib.KeepLast

/-!
# Repairing a history: the passes run by run

Every pass of `repair_history` treats each item with the results directly
behind it by itself (`dedupDuplicateToolResults_eq`, `stripLoop_eq`,
`repairDanglingToolCalls_eq`).
-/

namespace GrokBuild.ChatHistory

open TextLines ConversationItem Runs KeepLast

/-! ## Positions -/

@[simp] theorem getElem?_length_append (pre : Conversation) (item : ConversationItem)
    (rest : Conversation) : (pre ++ item :: rest)[pre.length]? = some item := by
  simp

@[simp] theorem getElem?_length_self (pre : Conversation) : pre[pre.length]? = none := by
  simp

variable {conversation : Conversation}

theorem runEnd_toolResult {j : Nat} {tr : ToolResultItem}
    (h : conversation[j]? = some (.toolResult tr)) :
    runEnd conversation j = runEnd conversation (j + 1) := by
  conv_lhs => rw [runEnd]
  split
  · rfl
  · exact absurd h (by simp_all)

variable {after : Conversation}

theorem runEnd_results (pre : Conversation) (run : List ToolResultItem)
    (h : (cut toolResults after).lead = []) :
    runEnd (pre ++ run.map .toolResult ++ after) pre.length = pre.length + run.length := by
  induction run generalizing pre with
  | nil =>
    rw [List.map_nil, List.append_nil, runEnd]
    cases after with
    | nil => simp
    | cons item after =>
      cases item with
      | toolResult tr =>
        exact absurd h (by simp)
      | system | user | assistant | backendToolCall | reasoning => simp
  | cons tr run ih =>
    have ih := ih (pre ++ [.toolResult tr])
    have hassoc : pre ++ (tr :: run).map .toolResult ++ after =
        pre ++ [.toolResult tr] ++ run.map .toolResult ++ after := by simp
    rw [List.length_append, List.length_singleton] at ih
    have hat : (pre ++ [ConversationItem.toolResult tr] ++ run.map .toolResult ++ after)[
        pre.length]? = some (.toolResult tr) := by simp
    rw [hassoc, runEnd_toolResult hat, ih, List.length_cons]
    omega

theorem exists_run (rest : Conversation) : ∃ run after,
    rest = run.map .toolResult ++ after ∧ (cut toolResults after).lead = [] ∧
      (cut toolResults rest).lead = run := by
  refine ⟨_, _, (lead_append_afterRun toolResults rest).symm, ?_, rfl⟩
  rw [cut_afterRun]

theorem drop_take_middle {α : Type} (pre mid post : List α) :
    ((pre ++ mid ++ post).take (pre.length + mid.length)).drop pre.length = mid := by
  rw [← List.length_append, List.take_left, List.drop_left]

/-! ## The duplicates -/

/-- The results behind an item with calls, without the superseded ones. -/
def dedupRun : ConversationItem → List ToolResultItem → List ToolResultItem
  | .assistant a, run => if a.toolCalls = [] then run else keepLast (·.toolCallId) run
  | _, run => run

theorem mem_toRemove {run : List ToolResultItem} :
    ∀ {seen : Text → Option Nat} {idx p : Nat},
      p ∈ toRemove seen idx (run.map .toolResult) ↔
        (∃ tr ∈ run, seen tr.toolCallId = some p) ∨
          p ∈ superseded (·.toolCallId) idx run := by
  induction run with
  | nil => simp [toRemove, superseded]
  | cons tr run ih =>
    intro seen idx p
    have hlater := @ih (Function.update seen tr.toolCallId (some idx)) (idx + 1) p
    have hupd : (∃ t ∈ run, Function.update seen tr.toolCallId (some idx) t.toolCallId = some p) ↔
        (p = idx ∧ tr.toolCallId ∈ run.map (·.toolCallId)) ∨
          ∃ t ∈ run, t.toolCallId ≠ tr.toolCallId ∧ seen t.toolCallId = some p := by
      simp only [Function.update_apply, List.mem_map]
      grind
    rw [hupd] at hlater
    rw [List.map_cons, toRemove, superseded]
    cases hprev : seen tr.toolCallId with
    | none => grind
    | some prev => grind

theorem nodup_toRemove {run : List ToolResultItem} :
    ∀ {seen : Text → Option Nat} {idx : Nat},
      (∀ id id' p, seen id = some p → seen id' = some p → id = id') →
      (∀ id p, seen id = some p → p < idx) → (toRemove seen idx (run.map .toolResult)).Nodup := by
  induction run with
  | nil => simp [toRemove]
  | cons tr run ih =>
    intro seen idx hinj hlt
    have hlater : (toRemove (Function.update seen tr.toolCallId (some idx)) (idx + 1)
        (run.map .toolResult)).Nodup := by
      apply ih
      · intro id id' p h h'
        simp only [Function.update_apply] at h h'
        grind
      · intro id p h
        simp only [Function.update_apply] at h
        grind
    rw [List.map_cons, toRemove]
    cases hprev : seen tr.toolCallId with
    | none => exact hlater
    | some prev =>
      refine List.nodup_cons.mpr ⟨?_, hlater⟩
      -- an earlier position is superseded once: `seen` now holds a later one
      rw [mem_toRemove]
      rintro (⟨t, ht, h⟩ | h)
      · simp only [Function.update_apply] at h
        grind
      · have := le_of_mem_superseded _ h
        have := hlt _ _ hprev
        omega

theorem removals_results (pre : Conversation) (run : List ToolResultItem) (after : Conversation) :
    removals (pre ++ run.map .toolResult ++ after) pre.length (pre.length + run.length) =
      (superseded (·.toolCallId) pre.length run).reverse := by
  have hmid := drop_take_middle pre (run.map .toolResult) after
  rw [List.length_map] at hmid
  rw [removals, hmid]
  congr 1
  have hnodup : (toRemove (fun _ => none) pre.length (run.map .toolResult)).Nodup :=
    nodup_toRemove (by simp) (by simp)
  have hsorted := sorted_superseded (·.toolCallId) pre.length run
  have hperm : (toRemove (fun _ => none) pre.length (run.map .toolResult)).Perm
      (superseded (·.toolCallId) pre.length run) := by
    rw [List.perm_ext_iff_of_nodup hnodup hsorted.nodup]
    intro p
    simp [mem_toRemove]
  refine @List.Perm.eq_of_pairwise _ (· ≤ ·) _ _ ?_ ?_ ?_ ((List.mergeSort_perm _ _).trans hperm)
  · intro a b _ _ h h'
    exact Nat.le_antisymm h h'
  · simpa using List.pairwise_mergeSort' (· ≤ ·) _
  · exact hsorted.imp Nat.le_of_lt

variable {i n : Nat}

theorem dedupLoop_end (h : conversation[i]? = none) :
    dedupLoop conversation i n = (conversation, n) := by
  rw [dedupLoop]
  split
  · rfl
  all_goals simp_all

/-- The items `dedupLoop` and `danglingRepairs` walk past. -/
def NoCalls (item : ConversationItem) : Prop := item.callIds = []

variable {item : ConversationItem}

theorem dedupLoop_noCalls (h : conversation[i]? = some item) (hitem : NoCalls item) :
    dedupLoop conversation i n = dedupLoop conversation (i + 1) n := by
  conv_lhs => rw [dedupLoop]
  split
  · simp_all
  · next a ha =>
    cases h.symm.trans ha
    rw [if_pos (List.map_eq_nil_iff.mp hitem)]
  · rfl

variable {a : AssistantItem}

theorem dedupLoop_assistant (h : conversation[i]? = some (.assistant a)) (hcalls : a.toolCalls ≠ []) :
    dedupLoop conversation i n =
      let idxs := removals conversation (i + 1) (runEnd conversation (i + 1))
      if idxs = [] then dedupLoop conversation (runEnd conversation (i + 1)) n
      else dedupLoop (removeAll idxs conversation) i (n + idxs.length) := by
  conv_lhs => rw [dedupLoop]
  split
  · simp_all
  · next a' ha =>
    cases h.symm.trans ha
    rw [if_neg hcalls]
    rfl
  · next hne ha =>
    cases h.symm.trans ha
    exact absurd rfl (hne a)

/-- Without a repeated id the loop goes on behind the run; with one it looks
at the same item again. -/
theorem dedupLoop_run (pre : Conversation) (hcalls : a.toolCalls ≠ []) (run : List ToolResultItem)
    (hafter : (cut toolResults after).lead = []) (n : Nat) :
    dedupLoop (pre ++ .assistant a :: (run.map .toolResult ++ after)) pre.length n =
      let kept := keepLast (·.toolCallId) run
      if kept = run then
        dedupLoop (pre ++ .assistant a :: (run.map .toolResult ++ after))
          (pre.length + 1 + run.length) n
      else
        dedupLoop (pre ++ .assistant a :: (kept.map .toolResult ++ after)) pre.length
          (n + (run.length - kept.length)) := by
  have hassoc : pre ++ [.assistant a] ++ run.map .toolResult ++ after =
      pre ++ .assistant a :: (run.map .toolResult ++ after) := by simp
  have hlen : (pre ++ [ConversationItem.assistant a]).length = pre.length + 1 := by simp
  have hend := runEnd_results (pre ++ [.assistant a]) run hafter
  have hrem := removals_results (pre ++ [.assistant a]) run after
  have herase := foldl_eraseIdx_superseded (·.toolCallId) ConversationItem.toolResult
    (pre ++ [.assistant a]) run after
  rw [hassoc, hlen] at hend hrem herase
  have hcount := length_superseded (·.toolCallId) (pre.length + 1) run
  have hnil : (superseded (·.toolCallId) (pre.length + 1) run).reverse = [] ↔
      keepLast (·.toolCallId) run = run := by
    rw [List.reverse_eq_nil_iff, superseded_eq_nil_iff]
  rw [dedupLoop_assistant (getElem?_length_append pre _ _) hcalls, hend, hrem]
  by_cases h : keepLast (·.toolCallId) run = run
  · simp only [hnil, h, if_true]
  · simp only [hnil, h, if_false]
    rw [removeAll, herase, List.length_reverse]
    congr 1
    · simp
    · omega

theorem dedupLoop_block (pre : Conversation) (hcalls : a.toolCalls ≠ []) (run : List ToolResultItem)
    (hafter : (cut toolResults after).lead = []) (n : Nat) :
    dedupLoop (pre ++ .assistant a :: (run.map .toolResult ++ after)) pre.length n =
      let kept := keepLast (·.toolCallId) run
      dedupLoop (pre ++ .assistant a :: kept.map .toolResult ++ after)
        (pre ++ assistant a :: kept.map toolResult).length (n + (run.length - kept.length)) := by
  have hkept : ∀ kept : List ToolResultItem,
      pre.length + 1 + kept.length = (pre ++ assistant a :: kept.map toolResult).length := by
    intro kept
    simp
    omega
  rw [dedupLoop_run pre hcalls run hafter]
  by_cases h : keepLast (·.toolCallId) run = run
  · simp only [h, if_true, hkept]
    simp
  · simp only [h, if_false]
    rw [dedupLoop_run pre hcalls _ hafter, keepLast_keepLast]
    simp only [if_true, hkept]
    simp

/-- How many results `dedup_duplicate_tool_results` removes. -/
def dedupCount (items : Conversation) : Nat :=
  ((cut toolResults items).blocks.map fun b => b.2.length - (dedupRun b.1 b.2).length).sum

@[simp] theorem head_assistant (a : AssistantItem) : toolResults.Head (.assistant a) := rfl

theorem dedupRun_noCalls (h : NoCalls item) (run : List ToolResultItem) : dedupRun item run = run := by
  cases item with
  | assistant a => exact if_pos (List.map_eq_nil_iff.mp h)
  | system | user | toolResult | backendToolCall | reasoning => rfl

theorem dedupRun_assistant (h : a.toolCalls ≠ []) (run : List ToolResultItem) :
    dedupRun (.assistant a) run = keepLast (·.toolCallId) run :=
  if_neg h

theorem mapRuns_noCalls {f : ConversationItem → List ToolResultItem → List ToolResultItem}
    (hf : ∀ item, NoCalls item → ∀ run, f item run = run) (h : NoCalls item) (rest : Conversation) :
    mapRuns toolResults (fun r => r) f (item :: rest) =
      item :: mapRuns toolResults (fun r => r) f rest := by
  rcases toolResults.head_or_put item with hhead | ⟨tr, rfl⟩
  · rw [mapRuns_head _ _ _ hhead, funext (hf item h)]
    rfl
  · exact mapRuns_follower toolResults f tr rest

theorem dedupCount_noCalls (h : NoCalls item) (rest : Conversation) :
    dedupCount (item :: rest) = dedupCount rest := by
  rcases toolResults.head_or_put item with hhead | ⟨tr, rfl⟩
  · simp [dedupCount, cut_head _ hhead, dedupRun_noCalls h]
  · simp [dedupCount]

theorem dedupCount_assistant (a : AssistantItem) (run : List ToolResultItem)
    (h : (cut toolResults after).lead = []) :
    dedupCount (.assistant a :: (run.map .toolResult ++ after)) =
      run.length - (dedupRun (.assistant a) run).length + dedupCount after := by
  have := cut_block toolResults (head_assistant a) run h
  rw [toolResults_put] at this
  rw [dedupCount, this]
  rfl

theorem dedupLoop_eq (pre items : Conversation) (n : Nat) :
    dedupLoop (pre ++ items) pre.length n =
      (pre ++ mapRuns toolResults (fun r => r) dedupRun items, n + dedupCount items) := by
  induction hlen : items.length using Nat.strong_induction_on generalizing pre items n with
  | _ len ih =>
    cases items with
    | nil =>
      rw [List.append_nil, dedupLoop_end (getElem?_length_self pre)]
      simp [mapRuns, Cut.mapRuns, flatten, dedupCount]
    | cons item rest =>
      by_cases hitem : NoCalls item
      · have hpre : pre ++ item :: rest = pre ++ [item] ++ rest := by simp
        have hprelen : (pre ++ [item]).length = pre.length + 1 := by simp
        rw [dedupLoop_noCalls (getElem?_length_append pre item rest) hitem, hpre, ← hprelen,
          ih rest.length (by simp at hlen; omega) _ rest n rfl,
          mapRuns_noCalls (fun _ => dedupRun_noCalls) hitem, dedupCount_noCalls hitem]
        simp
      · cases item with
        | system | user | toolResult | backendToolCall | reasoning => exact absurd rfl hitem
        | assistant a =>
          have hcalls : a.toolCalls ≠ [] := fun h => hitem (by simp [NoCalls, callIds, h])
          obtain ⟨run, after, rfl, hafter, -⟩ := exists_run rest
          have hmap := mapRuns_block toolResults dedupRun (head_assistant a) run hafter
          rw [toolResults_put] at hmap
          rw [dedupLoop_block pre hcalls run hafter,
            ih after.length (by simp at hlen; omega) _ after _ rfl, hmap,
            dedupCount_assistant a run hafter, dedupRun_assistant hcalls]
          simp [Nat.add_assoc]

theorem dedupDuplicateToolResults_eq (items : Conversation) :
    dedupDuplicateToolResults items =
      (mapRuns toolResults (fun r => r) dedupRun items, dedupCount items) := by
  have h := dedupLoop_eq [] items 0
  rw [dedupDuplicateToolResults]
  simpa using h

/-! ## The displaced results -/

/-- The results behind an item that its calls declare. -/
def stripRun (item : ConversationItem) (run : List ToolResultItem) : List ToolResultItem :=
  run.filter fun tr => tr.toolCallId ∈ item.callIds

def displacedIds (runIds : List Text) (run : List ToolResultItem) : List Text :=
  (run.filter fun tr => tr.toolCallId ∉ runIds).map (·.toolCallId)

/-- The ids of the displaced results of a conversation, in order. -/
def displaced (runIds : List Text) (items : Conversation) : List Text :=
  displacedIds runIds (cut toolResults items).lead ++
    (cut toolResults items).blocks.flatMap fun b => displacedIds b.1.callIds b.2

theorem stripLoop_head (h : toolResults.Head item) (runIds : List Text) (rest : Conversation) :
    stripLoop runIds (item :: rest) =
      (item :: (stripLoop item.callIds rest).1, (stripLoop item.callIds rest).2) := by
  cases item with
  | toolResult tr => cases h
  | assistant a => rfl
  | system | user | backendToolCall | reasoning => rfl

theorem stripLoop_eq (runIds : List Text) (items : Conversation) :
    stripLoop runIds items =
      (mapRuns toolResults (fun run => run.filter fun tr => tr.toolCallId ∈ runIds) stripRun items,
        displaced runIds items) := by
  induction items generalizing runIds with
  | nil => simp [stripLoop, mapRuns, Cut.mapRuns, flatten, displaced, displacedIds]
  | cons item rest ih =>
    rcases toolResults.head_or_put item with h | ⟨tr, rfl⟩
    · rw [stripLoop_head h, ih, mapRuns_head _ _ _ h]
      simp [displaced, displacedIds, cut_head _ h]
      rfl
    · rw [toolResults_put, stripLoop, ih]
      by_cases htr : tr.toolCallId ∈ runIds
      · simp [htr, mapRuns, Cut.mapRuns, flatten, displaced, displacedIds]
      · simp [htr, mapRuns, Cut.mapRuns, flatten, displaced, displacedIds]

/-! ## The unanswered calls -/

/-- The results behind an item, with one more for each call without any. -/
def fillRun (reason : DanglingToolCallReason) :
    ConversationItem → List ToolResultItem → List ToolResultItem
  | .assistant a, run => run ++ synthetic reason a.toolCalls (run.map (·.toolCallId))
  | _, run => run

def fillCount (reason : DanglingToolCallReason) (items : Conversation) : Nat :=
  ((cut toolResults items).blocks.map fun b =>
    (fillRun reason b.1 b.2).length - b.2.length).sum

theorem fillRun_noCalls (reason : DanglingToolCallReason) (h : NoCalls item)
    (run : List ToolResultItem) : fillRun reason item run = run := by
  cases item with
  | assistant a =>
    have ha : a.toolCalls = [] := List.map_eq_nil_iff.mp h
    simp [fillRun, synthetic, ha]
  | system | user | toolResult | backendToolCall | reasoning => rfl

theorem fillCount_noCalls (reason : DanglingToolCallReason) (h : NoCalls item) (rest : Conversation) :
    fillCount reason (item :: rest) = fillCount reason rest := by
  rcases toolResults.head_or_put item with hhead | ⟨tr, rfl⟩
  · simp [fillCount, cut_head _ hhead, fillRun_noCalls reason h]
  · simp [fillCount]

theorem danglingRepairs_end (reason : DanglingToolCallReason) (h : conversation[i]? = none) :
    danglingRepairs reason conversation i = [] := by
  rw [danglingRepairs]
  split
  · rfl
  all_goals simp_all

theorem danglingRepairs_noCalls (reason : DanglingToolCallReason) (h : conversation[i]? = some item)
    (hitem : NoCalls item) :
    danglingRepairs reason conversation i = danglingRepairs reason conversation (i + 1) := by
  conv_lhs => rw [danglingRepairs]
  split
  · simp_all
  · next a ha =>
    cases h.symm.trans ha
    rw [if_pos (List.map_eq_nil_iff.mp hitem)]
  · rfl

theorem answeredIds_run (pre : Conversation) (run : List ToolResultItem) (after : Conversation) :
    answeredIds (pre ++ run.map .toolResult ++ after) pre.length (pre.length + run.length) =
      run.map (·.toolCallId) := by
  have hmid := drop_take_middle pre (run.map .toolResult) after
  rw [List.length_map] at hmid
  rw [answeredIds, hmid, List.filterMap_map]
  simp [Function.comp_def, toolResult?]

theorem danglingRepairs_assistant (reason : DanglingToolCallReason)
    (h : conversation[i]? = some (.assistant a)) (hcalls : a.toolCalls ≠ []) :
    danglingRepairs reason conversation i =
      let j := runEnd conversation (i + 1)
      let results := synthetic reason a.toolCalls (answeredIds conversation (i + 1) j)
      let later := danglingRepairs reason conversation j
      if results = [] then later else (j, results) :: later := by
  conv_lhs => rw [danglingRepairs]
  split
  · simp_all
  · next a' ha =>
    cases h.symm.trans ha
    rw [if_neg hcalls]
  · next hne ha =>
    cases h.symm.trans ha
    exact absurd rfl (hne a)

theorem danglingRepairs_run (reason : DanglingToolCallReason) (pre : Conversation)
    (hcalls : a.toolCalls ≠ []) (run : List ToolResultItem)
    (hafter : (cut toolResults after).lead = []) :
    danglingRepairs reason (pre ++ assistant a :: run.map toolResult ++ after) pre.length =
      let j := (pre ++ assistant a :: run.map toolResult).length
      let results := synthetic reason a.toolCalls (run.map (·.toolCallId))
      let later := danglingRepairs reason (pre ++ assistant a :: run.map toolResult ++ after) j
      if results = [] then later else (j, results) :: later := by
  have hassoc : pre ++ [assistant a] ++ run.map toolResult ++ after =
      pre ++ assistant a :: run.map toolResult ++ after := by simp
  have hlen : (pre ++ [assistant a]).length = pre.length + 1 := by simp
  have hj : pre.length + 1 + run.length = (pre ++ assistant a :: run.map toolResult).length := by
    simp
    omega
  have hat : (pre ++ assistant a :: run.map toolResult ++ after)[pre.length]? =
      some (assistant a) := by simp
  have hend := runEnd_results (pre ++ [assistant a]) run hafter
  have hanswered := answeredIds_run (pre ++ [assistant a]) run after
  rw [hassoc, hlen, hj] at hend hanswered
  rw [danglingRepairs_assistant reason hat hcalls, hend]
  simp only [hanswered]

theorem insertAt_length (pre after : Conversation) (results : List ToolResultItem) :
    insertAt (pre ++ after) (pre.length, results) = pre ++ results.map .toolResult ++ after := by
  rw [insertAt, List.take_left, List.drop_left]

theorem applyRepairs_cons (repair : Nat × List ToolResultItem)
    (repairs : List (Nat × List ToolResultItem)) (conversation : Conversation) :
    applyRepairs (repair :: repairs) conversation =
      insertAt (applyRepairs repairs conversation) repair := by
  simp [applyRepairs]

/-- The positions stay good from the last one to the first. -/
theorem applyRepairs_danglingRepairs (reason : DanglingToolCallReason) (pre items : Conversation) :
    let repairs := danglingRepairs reason (pre ++ items) pre.length
    applyRepairs repairs (pre ++ items) =
        pre ++ mapRuns toolResults (fun r => r) (fillRun reason) items ∧
      (repairs.map fun r => r.2.length).sum = fillCount reason items := by
  induction hlen : items.length using Nat.strong_induction_on generalizing pre items with
  | _ len ih =>
    cases items with
    | nil =>
      rw [List.append_nil, danglingRepairs_end reason (getElem?_length_self pre)]
      simp [mapRuns, Cut.mapRuns, flatten, fillCount, applyRepairs]
    | cons item rest =>
      by_cases hitem : NoCalls item
      · have hpre : pre ++ item :: rest = pre ++ [item] ++ rest := by simp
        have hprelen : (pre ++ [item]).length = pre.length + 1 := by simp
        have ih := ih rest.length (by simp at hlen; omega) (pre ++ [item]) rest rfl
        rw [danglingRepairs_noCalls reason (getElem?_length_append pre item rest) hitem, hpre,
          ← hprelen, mapRuns_noCalls (fun _ => fillRun_noCalls reason) hitem,
          fillCount_noCalls reason hitem]
        simpa using ih
      · cases item with
        | system | user | toolResult | backendToolCall | reasoning => exact absurd rfl hitem
        | assistant a =>
          have hcalls : a.toolCalls ≠ [] := fun h => hitem (by simp [NoCalls, callIds, h])
          obtain ⟨run, after, rfl, hafter, -⟩ := exists_run rest
          have hmap := mapRuns_block toolResults (fillRun reason) (head_assistant a) run hafter
          have hcut := cut_block toolResults (head_assistant a) run hafter
          rw [toolResults_put] at hmap hcut
          have hassoc : pre ++ assistant a :: (run.map toolResult ++ after) =
              pre ++ assistant a :: run.map toolResult ++ after := by simp
          obtain ⟨ihapply, ihsum⟩ := ih after.length (by simp at hlen; omega)
            (pre ++ assistant a :: run.map toolResult) after rfl
          have hfill : fillCount reason (assistant a :: (run.map toolResult ++ after)) =
              (synthetic reason a.toolCalls (run.map (·.toolCallId))).length +
                fillCount reason after := by
            simp [fillCount, hcut, fillRun]
          rw [hfill, hassoc, danglingRepairs_run reason pre hcalls run hafter, hmap]
          by_cases hresults : synthetic reason a.toolCalls (run.map (·.toolCallId)) = []
          · simp only [hresults, if_true, fillRun, List.append_nil]
            rw [ihapply, ihsum]
            simp
          · simp only [hresults, if_false, fillRun]
            refine ⟨?_, ?_⟩
            · rw [applyRepairs_cons, ihapply, insertAt_length]
              simp
            · rw [List.map_cons, List.sum_cons, ihsum]

theorem repairDanglingToolCalls_eq (conversation : Conversation)
    (reason : DanglingToolCallReason) :
    repairDanglingToolCalls conversation reason =
      (mapRuns toolResults (fun r => r) (fillRun reason) conversation,
        fillCount reason conversation) := by
  have h := applyRepairs_danglingRepairs reason [] conversation
  simp only [List.nil_append, List.length_nil] at h
  rw [repairDanglingToolCalls, h.1, h.2]

end GrokBuild.ChatHistory
