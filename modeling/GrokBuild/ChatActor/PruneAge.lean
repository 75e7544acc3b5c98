import GrokBuild.ChatActor.Restart

/-!
# The age of pruned results

Runs of the actor that remember, for each tool result, the prompt index at its
push. `prune_retained_conversation` raises its threshold by the user items
beyond the prompt index, so it clears no result too early as long as the prompt
index does not run ahead of the user items (`cleared_of_placed`). A compaction
removes user items and keeps the prompt index.
-/

namespace GrokBuild.ChatActor

open TextLines ChatHistory ConversationItem Runs List Option

/-! ## Places in a conversation -/

/-- The user items in front of a place. -/
def usersBefore (c : Conversation) (i : Nat) : Nat := (c.take i).countP isUser

/-- The user items behind a place. -/
def usersBehind (c : Conversation) (i : Nat) : Nat := (c.drop (i + 1)).countP isUser

/-- The items in front of a place that are not tool results. -/
def headsBefore (c : Conversation) (i : Nat) : Nat := (heads toolResults (c.take i)).length

theorem countP_heads (c : Conversation) :
    (heads toolResults c).countP isUser = c.countP isUser := by
  rw [heads, countP_filter]
  refine countP_congr fun item _ => ?_
  cases item with
  | system | user | assistant | toolResult | backendToolCall | reasoning =>
    simp [isUser, toolResults, toolResult?]

theorem heads_take_isPrefix (c : Conversation) (i : Nat) :
    heads toolResults (c.take i) <+: heads toolResults c := by
  obtain ⟨rest, hrest⟩ : c.take i <+: c := take_prefix i c
  refine ⟨heads toolResults rest, ?_⟩
  show (c.take i).filter _ ++ rest.filter _ = c.filter _
  rw [← filter_append, hrest]

variable {c : Conversation} {i : Nat}

theorem usersBefore_of_heads {c' : Conversation} {j : Nat}
    (hheads : heads toolResults c' = heads toolResults c)
    (hplace : headsBefore c' j = headsBefore c i) : usersBefore c' j = usersBefore c i := by
  have hj := prefix_iff_eq_take.mp (heads_take_isPrefix c' j)
  have hi := prefix_iff_eq_take.mp (heads_take_isPrefix c i)
  have heq : heads toolResults (c'.take j) = heads toolResults (c.take i) := by
    rw [hj, hi, hheads]
    exact congrArg (fun n => List.take n _) hplace
  rw [usersBefore, usersBefore, ← countP_heads, heq, countP_heads]

theorem usersBefore_le_append (c : Conversation) (x : ConversationItem) (i : Nat) :
    usersBefore c i ≤ usersBefore (c ++ [x]) i := by
  rw [usersBefore, usersBefore, take_append, countP_append]
  omega

theorem usersBefore_length (c : Conversation) (x : ConversationItem) :
    usersBefore (c ++ [x]) c.length = c.countP isUser := by
  rw [usersBefore, take_left]

theorem countP_isUser_skeleton (c : Conversation) :
    (c.map skeleton).countP isUser = c.countP isUser := by
  rw [countP_map]
  refine countP_congr fun item _ => ?_
  cases item with
  | system | user | assistant | toolResult | backendToolCall | reasoning => exact Iff.rfl

theorem usersBefore_of_skeleton {c' : Conversation} (h : c'.map skeleton = c.map skeleton) (i : Nat) :
    usersBefore c' i = usersBefore c i := by
  rw [usersBefore, usersBefore, ← countP_isUser_skeleton, map_take, h, ← map_take,
    countP_isUser_skeleton]

variable {tr : ToolResultItem}

theorem users_around (h : (c)[i]? = some (.toolResult tr)) :
    c.countP isUser = usersBefore c i + usersBehind c i := by
  obtain ⟨hi, hitem⟩ := List.getElem?_eq_some_iff.mp h
  have hcut : c = c.take i ++ .toolResult tr :: c.drop (i + 1) := by
    rw [← hitem, ← drop_eq_getElem_cons hi, take_append_drop]
  calc c.countP isUser
      = (c.take i ++ .toolResult tr :: c.drop (i + 1)).countP isUser := by rw [← hcut]
    _ = usersBefore c i + usersBehind c i := by
      rw [countP_append, countP_cons]
      rfl

/-! ## What pruning does to one item -/

/-- A tool result rewritten, any other item as it is. -/
def onResult (g : ToolResultItem → ToolResultItem) : ConversationItem → ConversationItem
  | .toolResult tr => .toolResult (g tr)
  | item => item

/-- The walk's turn count at an item: the user items that it passed, the first
of them left out. -/
theorem pruneBackward_getElem? (f : Nat → ToolResultItem → ToolResultItem) (age : Nat)
    (seen : Bool) (c : Conversation) (k : Nat) :
    (pruneBackward f age seen c)[k]? = (c)[k]?.map
      (onResult (f (age + ((c.take k).countP isUser - if seen then 0 else 1)))) := by
  induction c generalizing age seen k with
  | nil => rfl
  | cons item c ih =>
    cases k with
    | zero =>
      cases item with
      | system | user | assistant | toolResult | backendToolCall | reasoning =>
        simp [pruneBackward, onResult]
    | succ k =>
      cases item with
      | user u =>
        have hage : (if seen then age + 1 else age) + ((c.take k).countP isUser - 0) =
            age + ((c.take k).countP isUser + 1 - if seen then 0 else 1) := by
          cases seen with
          | true =>
            simp only [if_true]
            omega
          | false =>
            simp only [Bool.false_eq_true, if_false]
            omega
        simp only [pruneBackward, getElem?_cons_succ, take_succ_cons, countP_cons,
          isUser, if_true, ih, hage]
      | system | assistant | toolResult | backendToolCall | reasoning =>
        simp only [pruneBackward, getElem?_cons_succ, take_succ_cons, countP_cons,
          isUser, Bool.false_eq_true, if_false, Nat.add_zero, ih]

theorem pruneWith_getElem? (f : Nat → ToolResultItem → ToolResultItem) (c : Conversation)
    (i : Nat) : (pruneWith f c)[i]? = (c)[i]?.map (onResult (f (usersBehind c i - 1))) := by
  by_cases hi : i < c.length
  · have hplace : c.length - (c.length - 1 - i) = i + 1 := by omega
    have hi' : i < (pruneBackward f 0 false c.reverse).length := by
      rw [length_pruneBackward, length_reverse]
      exact hi
    have hback : c.length - 1 - i < c.length := by omega
    rw [pruneWith, getElem?_reverse hi', length_pruneBackward, length_reverse,
      pruneBackward_getElem?, getElem?_reverse hback, take_reverse, countP_reverse,
      hplace, Nat.zero_add]
    have hsame : c.length - 1 - (c.length - 1 - i) = i := by omega
    rw [hsame]
    rfl
  · have hnone : (c)[i]? = none := getElem?_eq_none (Nat.le_of_not_lt hi)
    rw [hnone, map_none, getElem?_eq_none]
    rw [length_pruneWith]
    omega

theorem changed_by_hardClear {threshold : Nat} (h : (pruneWith (hardClear threshold) c)[i]? ≠ (c)[i]?) :
    ∃ tr, (c)[i]? = some (.toolResult tr) ∧ threshold ≤ usersBehind c i - 1 := by
  rw [pruneWith_getElem?] at h
  cases hitem : (c)[i]? with
  | none =>
    rw [hitem] at h
    exact absurd rfl h
  | some item =>
    rw [hitem] at h
    cases item with
    | system | user | assistant | backendToolCall | reasoning => exact absurd rfl h
    | toolResult tr =>
      refine ⟨tr, rfl, ?_⟩
      by_contra hyoung
      refine h ?_
      show some (ConversationItem.toolResult (hardClear threshold _ tr)) = _
      rw [hardClear, if_pos (Nat.lt_of_not_le hyoung)]

/-! ## The arithmetic of the threshold -/

variable {env : Env}

/-- A result whose push found no more prompts than one above the user items in
front of it is not cleared before its time. -/
theorem old_of_threshold {st : ChatState} {pushedAt : Nat}
    (hitem : st.conversation[i]? = some (.toolResult tr))
    (hbehind : 0 < usersBehind st.conversation i)
    (hold : effectiveThreshold env st ≤ usersBehind st.conversation i - 1)
    (hplaced : pushedAt ≤ usersBefore st.conversation i + 1) :
    pushedAt + env.pruning.hardClearAgeTurns ≤ st.promptIndex := by
  have haround := users_around hitem
  have hthreshold : effectiveThreshold env st =
      env.pruning.hardClearAgeTurns + (st.conversation.countP isUser - st.promptIndex) := rfl
  omega

/-! ## Runs that remember the pushes -/

/-- An actor, and the prompt index at the push of the tool result at a place. -/
structure Tracked where
  actor : Actor
  pushedAt : Nat → Option Nat

def Tracked.conversation (t : Tracked) : Conversation := t.actor.state.conversation

def Tracked.promptIndex (t : Tracked) : Nat := t.actor.state.promptIndex

/-- At the start of the actor no prompt has been started: the results of the
history are from then at the latest. -/
def Tracked.start (a : Actor) : Tracked := ⟨a, fun _ => some 0⟩

/-- The same call's result at two places. -/
def SameResult (c c' : Conversation) (i j : Nat) : Prop :=
  ∃ tr tr' : ToolResultItem, (c)[i]? = some (.toolResult tr) ∧ c'[j]? = some (.toolResult tr') ∧
    tr'.toolCallId = tr.toolCallId

/-- The message of a command that pushes one, and the reason of its repair. -/
def userPush? : ChatStateCommand → Option (UserItem × DanglingToolCallReason)
  | .pushUserMessage u => some (u.item, .userCancelled)
  | .pushUserMessageWithRepairReason u reason => some (u.item, reason)
  | _ => none

/-- A command taken, with the conversation that it leaves in front of pruning.
`prompt` starts a real turn; `user` is the message of one, or a synthetic item. -/
inductive Step (env : Env) : Tracked → ChatStateCommand → Conversation → Tracked → Prop
  | prompt {t : Tracked} {a' : Actor}
      (taken : handleCommand env t.actor .incrementPromptIndex = some a') :
      Step env t .incrementPromptIndex t.conversation ⟨a', t.pushedAt⟩
  | user {t : Tracked} {cmd : ChatStateCommand} {u : UserItem} {reason : DanglingToolCallReason}
      {a' : Actor} {pushedAt' : Nat → Option Nat} (push : userPush? cmd = some (u, reason))
      (taken : handleCommand env t.actor cmd = some a')
      -- the repair leaves a result behind the items that it was behind
      (kept : ∀ j b, pushedAt' j = some b → ∃ i, t.pushedAt i = some b ∧
        SameResult t.conversation (repaired reason t.conversation) i j ∧
        headsBefore (repaired reason t.conversation) j = headsBefore t.conversation i) :
      Step env t cmd (repaired reason t.conversation ++ [.user u]) ⟨a', pushedAt'⟩
  | assistant {t : Tracked} {x : PushedItem} {a' : Actor}
      (taken : handleCommand env t.actor (.pushAssistantResponse x) = some a') :
      Step env t (.pushAssistantResponse x) (t.conversation ++ [x.item]) ⟨a', t.pushedAt⟩
  | toolResult {t : Tracked} {x : PushedItem} {a' : Actor}
      (taken : handleCommand env t.actor (.pushToolResult x) = some a') :
      Step env t (.pushToolResult x) (t.conversation ++ [x.item])
        ⟨a', Function.update t.pushedAt t.conversation.length (some t.promptIndex)⟩
  | compaction {t : Tracked} {items : Conversation} {a' : Actor} {pushedAt' : Nat → Option Nat}
      (taken : handleCommand env t.actor (.replaceConversation items true) = some a')
      (kept : ∀ j b, pushedAt' j = some b → ∃ i, t.pushedAt i = some b ∧
        SameResult t.conversation items i j) :
      Step env t (.replaceConversation items true) items ⟨a', pushedAt'⟩
  | quiet {t : Tracked} {cmd : ChatStateCommand} {a' : Actor}
      (taken : handleCommand env t.actor cmd = some a')
      (conversation : a'.state.conversation = t.conversation)
      (promptIndex : a'.state.promptIndex = t.promptIndex) :
      Step env t cmd t.conversation ⟨a', t.pushedAt⟩

/-- The prompt index has not run ahead of the user items: a result is pushed
behind all but one of the prompts started, and a compaction keeps as many user
items in front of each result that it keeps. -/
def InStep (t : Tracked) : ChatStateCommand → Prop
  | .pushToolResult _ => t.promptIndex ≤ t.conversation.countP isUser + 1
  | .replaceConversation items _ => ∀ i j b, t.pushedAt i = some b →
      SameResult t.conversation items i j → b ≤ usersBefore items j + 1
  | _ => True

def Run (env : Env) : Tracked → Tracked → Prop :=
  Relation.ReflTransGen fun t t' => ∃ cmd pre, Step env t cmd pre t'

/-- A run whose steps are all `InStep`. -/
def RunInStep (env : Env) : Tracked → Tracked → Prop :=
  Relation.ReflTransGen fun t t' => ∃ cmd pre, Step env t cmd pre t' ∧ InStep t cmd

variable {t t' : Tracked}

theorem RunInStep.run (h : RunInStep env t t') : Run env t t' := by
  induction h with
  | refl => exact .refl
  | tail _ hstep ih =>
    obtain ⟨cmd, pre, hstep, -⟩ := hstep
    exact ih.tail ⟨cmd, pre, hstep⟩

/-- No place has a result of more prompts than one above the user items in front of it. -/
def Placed (t : Tracked) : Prop :=
  ∀ i b, t.pushedAt i = some b → b ≤ usersBefore t.conversation i + 1

theorem placed_start (a : Actor) : Placed (.start a) := by
  intro i b hb
  cases hb
  omega

theorem snapshotTurnSlice_kept {st st' : ChatState} (h : snapshotTurnSlice env st = some st') :
    st'.conversation = st.conversation ∧ st'.promptIndex = st.promptIndex := by
  rw [snapshotTurnSlice_spec h]
  exact ⟨rfl, rfl⟩

variable {reason : DanglingToolCallReason} {a : Actor}

theorem ensureConversationIntegrity_spec {b : Actor}
    (h : ensureConversationIntegrity env reason a = some b) :
    b.state.conversation = repaired reason a.state.conversation ∧
      b.state.promptIndex = a.state.promptIndex := by
  obtain ⟨hindex, ⟨hsettled, hsame, -⟩ | ⟨-, hrepaired, -⟩⟩ := integrity_spec h
  · exact ⟨hsame.trans (repaired_of_settled reason hsettled).symm, hindex⟩
  · exact ⟨hrepaired, hindex⟩

theorem replaceConversation_spec {items : Conversation} {isCompaction : Bool} {a' : Actor}
    (h : replaceConversation env items isCompaction a = some a') :
    a'.state.conversation = items ∧ a'.state.promptIndex = a.state.promptIndex := by
  simp only [replaceConversation, bind_eq_bind, bind_eq_some_iff,
    some.injEq] at h
  obtain ⟨st, hst, n, -, rfl⟩ := h
  exact ⟨rfl, (snapshotTurnSlice_kept hst).2⟩

variable {cmd : ChatStateCommand} {u : UserItem}

theorem user_step {a' : Actor} (push : userPush? cmd = some (u, reason))
    (taken : handleCommand env t.actor cmd = some a') :
    ∃ st : ChatState, st.conversation = repaired reason t.conversation ++ [.user u] ∧
      st.promptIndex = t.promptIndex ∧ a'.state.promptIndex = t.promptIndex ∧
      (a'.state.conversation = st.conversation ∧ ¬ Clears env st ∨
        a'.state.conversation = pruneWith (hardClear (effectiveThreshold env st))
          st.conversation) := by
  have hpush : pushUserMessage env u reason t.actor = some a' := by
    cases cmd with
    | pushUserMessage v =>
      cases push
      exact taken
    | pushUserMessageWithRepairReason v r =>
      cases push
      exact taken
    | _ => cases push
  obtain ⟨b, b', cleared, hb, hconversation, -, hindex, -, hprune⟩ := pushUserMessage_spec env hpush
  obtain ⟨hrepaired, hkept⟩ := ensureConversationIntegrity_spec hb
  refine ⟨b'.state, ?_, hindex.trans hkept, ?_⟩
  · rw [hconversation, hrepaired]
    rfl
  · rcases pruneRetainedConversation_spec env hprune with ⟨hkeeps, rfl⟩ | ⟨-, rfl⟩
    · exact ⟨hindex.trans hkept, .inl ⟨rfl, hkeeps⟩⟩
    · exact ⟨hindex.trans hkept, .inr rfl⟩

variable {pushedAt' : Nat → Option Nat} {b : Nat}

/-- The places that a repair keeps are as many user items behind, in front of
the message as well. -/
theorem placed_repaired (h : Placed t)
    (kept : ∀ j b, pushedAt' j = some b → ∃ i, t.pushedAt i = some b ∧ SameResult t.conversation (repaired reason t.conversation) i j ∧ headsBefore (repaired reason t.conversation) j = headsBefore t.conversation i)
    {j : Nat} (hj : pushedAt' j = some b) :
    b ≤ usersBefore (repaired reason t.conversation ++ [.user u]) j + 1 := by
  obtain ⟨i, hi, -, hplace⟩ := kept j b hj
  have hsame := usersBefore_of_heads (heads_repaired reason t.conversation) hplace
  have hgrown := usersBefore_le_append (repaired reason t.conversation) (.user u) j
  have hold := h i b hi
  omega

theorem Placed.append (h : Placed t) {x : ConversationItem} (hi : t.pushedAt i = some b) :
    b ≤ usersBefore (t.conversation ++ [x]) i + 1 := by
  have hgrown := usersBefore_le_append t.conversation x i
  have hold := h i b hi
  omega

theorem placed_step {pre : Conversation} (h : Placed t) (hstep : Step env t cmd pre t')
    (hin : InStep t cmd) : Placed t' := by
  intro j b hj
  cases hstep with
  | prompt taken =>
    cases taken
    exact h j b hj
  | @user _ u _ _ _ push taken kept =>
    obtain ⟨st, hconversation, -, -, hpruned⟩ := user_step push taken
    have hplaced := placed_repaired (u := u) h kept hj
    rw [← hconversation] at hplaced
    show b ≤ usersBefore _ j + 1
    rcases hpruned with ⟨hsame, -⟩ | hpruned
    · rw [Tracked.conversation, hsame]
      exact hplaced
    · rw [Tracked.conversation, hpruned,
        usersBefore_of_skeleton (pruneWith_skeleton (hardClear_id _) st.conversation)]
      exact hplaced
  | assistant taken =>
    rw [Tracked.conversation, (pushMessage_spec taken).1]
    exact h.append hj
  | @toolResult x _ taken =>
    dsimp only at hj
    rw [Tracked.conversation, (pushMessage_spec taken).1]
    by_cases hnew : j = t.conversation.length
    · rw [hnew, Function.update_self, some.injEq] at hj
      have hplace := usersBefore_length t.conversation x.item
      rw [hnew]
      exact hj ▸ hplace.symm ▸ hin
    · rw [Function.update_of_ne hnew] at hj
      exact h.append hj
  | compaction taken kept =>
    obtain ⟨i, hi, hsame⟩ := kept j b hj
    rw [Tracked.conversation, (replaceConversation_spec taken).1]
    exact hin i j b hi hsame
  | quiet taken hconversation hindex =>
    rw [Tracked.conversation, hconversation]
    exact h j b hj

theorem placed_run (h : RunInStep env (.start a) t) : Placed t := by
  induction h with
  | refl => exact placed_start a
  | tail _ hstep ih =>
    obtain ⟨cmd, pre, hstep, hin⟩ := hstep
    exact placed_step ih hstep hin

theorem usersBehind_pos (h : (c ++ [.user u])[i]? = some (.toolResult tr)) :
    0 < usersBehind (c ++ [.user u]) i := by
  have hi : i < c.length := by
    have hlt := (List.getElem?_eq_some_iff.mp h).1
    rw [length_append, length_singleton] at hlt
    by_contra hge
    have hlast : i = c.length := by omega
    rw [hlast, getElem?_concat_length] at h
    cases h
  rw [usersBehind, drop_append_of_le_length hi, countP_append]
  show 0 < _ + 1
  omega

/-- Pruning behind a message clears a result only when the threshold's number
of prompts has been started since its push. -/
def OnlyOldCleared (env : Env) (pre : Conversation) (t' : Tracked) : Prop :=
  ∀ i b, t'.pushedAt i = some b → t'.conversation[i]? ≠ pre[i]? →
    b + env.pruning.hardClearAgeTurns ≤ t'.promptIndex

theorem cleared_of_placed {pre : Conversation} (h : Placed t) (hstep : Step env t cmd pre t') :
    OnlyOldCleared env pre t' := by
  intro i b hi hchanged
  cases hstep with
  | @user _ u _ _ _ push taken kept =>
    obtain ⟨st, hconversation, hindex, hindex', hpruned⟩ := user_step push taken
    have hplaced := placed_repaired (u := u) h kept hi
    rw [← hconversation] at hplaced hchanged
    rw [Tracked.promptIndex, hindex', ← hindex]
    rcases hpruned with ⟨hsame, -⟩ | hpruned
    · rw [Tracked.conversation, hsame] at hchanged
      exact absurd rfl hchanged
    · rw [Tracked.conversation, hpruned] at hchanged
      obtain ⟨tr, hitem, hold⟩ := changed_by_hardClear hchanged
      have hbehind : 0 < usersBehind st.conversation i := by
        rw [hconversation] at hitem ⊢
        exact usersBehind_pos hitem
      exact old_of_threshold hitem hbehind hold hplaced
  | prompt taken =>
    cases taken
    exact absurd rfl hchanged
  | assistant taken | toolResult taken =>
    rw [Tracked.conversation, (pushMessage_spec taken).1] at hchanged
    exact absurd rfl hchanged
  | compaction taken kept =>
    rw [Tracked.conversation, (replaceConversation_spec taken).1] at hchanged
    exact absurd rfl hchanged
  | quiet taken hsame hindex =>
    rw [Tracked.conversation, hsame] at hchanged
    exact absurd rfl hchanged

/-! ## Runs of short messages -/

/-- Results are hard-cleared one turn behind. -/
def oneTurnEnv : Env :=
  { devEnv with pruning := { PruningConfig.default with hardClearAgeTurns := 1 } }

def helloItem : ConversationItem := .user helloMessage.item

/-- What the runs below read of an actor. -/
structure Reads (a : Actor) (c : Conversation) (p : Nat) : Prop where
  sound : Sound a.state
  conversation : a.state.conversation = c
  promptIndex : a.state.promptIndex = p

theorem reads_spawn : ∃ a, Actor.spawn [] ⟨[], 1⟩ = some a ∧ Reads a [] 0 := by
  have hempty : repairedAtStart [] = [] := by
    rw [repairedAtStart_eq]
    rfl
  obtain ⟨a, hspawn, hconversation, hindex⟩ : ∃ a, Actor.spawn [] ⟨[], 1⟩ = some a ∧
      a.state.conversation = [] ∧ a.state.promptIndex = 0 := by
    simp only [Actor.spawn, ChatState.new, hempty]
    exact ⟨_, rfl, rfl, rfl⟩
  exact ⟨a, hspawn, (loaded_spawn [] ⟨[], 1⟩ a hspawn).1, hconversation, hindex⟩

variable {p : Nat}

/-- A message behind a conversation with nothing to repair: pushed, then pruned. -/
theorem hello_step (h : Reads t.actor c p) (hsettled : repaired .userCancelled c = c) (hold : 1 ≤ p)
    (hkept : ∀ j b, pushedAt' j = some b → t.pushedAt j = some b ∧ ∃ tr, (c)[j]? = some (.toolResult tr)) :
    ∃ a', Step oneTurnEnv t (.pushUserMessage helloMessage) (c ++ [helloItem])
        ⟨a', pushedAt'⟩ ∧
      Reads a' (pruneWith (hardClear (1 + ((c ++ [helloItem]).countP isUser - p)))
        (c ++ [helloItem])) p := by
  obtain ⟨hsound, hconversation, hindex⟩ := h
  have hharmless : Harmless oneTurnEnv (some t.actor) (.pushUserMessage helloMessage) :=
    ⟨forall_mem_nil _, nofun⟩
  obtain ⟨a', taken, hsound'⟩ := (soundAfter_handle_iff hsound _).mpr hharmless
  have hc : t.conversation = c := hconversation
  have hp : t.promptIndex = p := hindex
  refine ⟨a', ?_, ?_⟩
  · have hstep := @Step.user oneTurnEnv t _ helloMessage.item .userCancelled a' pushedAt' rfl taken
    rw [hc, hsettled] at hstep
    refine hstep fun j b hj => ?_
    obtain ⟨hold, tr, htr⟩ := hkept j b hj
    exact ⟨j, hold, ⟨tr, tr, htr, htr, rfl⟩, rfl⟩
  · obtain ⟨st, hst, hstindex, hindex', hpruned⟩ := user_step (u := helloMessage.item)
      rfl taken
    rw [hc, hsettled] at hst
    change st.conversation = c ++ [helloItem] at hst
    refine ⟨hsound', ?_, hindex'.trans hp⟩
    have hthreshold : effectiveThreshold oneTurnEnv st =
        1 + ((c ++ [helloItem]).countP isUser - p) := by
      rw [effectiveThreshold, hst, hstindex, hp]
      rfl
    rw [← hthreshold, ← hst]
    rcases hpruned with ⟨hsame, hkeeps⟩ | hpruned
    · rw [hsame]
      by_contra hchanged
      refine hkeeps ⟨rfl, ?_, fun heq => hchanged heq.symm⟩
      rw [hstindex, hp]
      exact hold
    · exact hpruned

variable (pushedAt') in
/-- A real turn: the prompt index goes up and the message is pushed. -/
theorem turn_run (h : Reads t.actor c p) (hsettled : repaired .userCancelled c = c)
    (hkept : ∀ j b, pushedAt' j = some b → t.pushedAt j = some b ∧ ∃ tr, (c)[j]? = some (.toolResult tr)) :
    ∃ a', RunInStep oneTurnEnv t ⟨a', pushedAt'⟩ ∧
      Reads a' (pruneWith (hardClear (1 + ((c ++ [helloItem]).countP isUser -
        (p + 1)))) (c ++ [helloItem])) (p + 1) := by
  obtain ⟨b, taken, hb⟩ : ∃ b, handleCommand oneTurnEnv t.actor .incrementPromptIndex = some b ∧
      Reads b c (p + 1) :=
    ⟨_, rfl, ⟨h.sound.previewable, h.sound.inside⟩, h.conversation, congrArg (· + 1) h.promptIndex⟩
  obtain ⟨a', hstep, ha'⟩ := hello_step (t := ⟨b, t.pushedAt⟩) hb hsettled (by omega) hkept
  refine ⟨a', ?_, ha'⟩
  exact (Relation.ReflTransGen.single ⟨_, _, .prompt taken, trivial⟩).tail
    ⟨_, _, hstep, trivial⟩

theorem result_step (h : Reads t.actor c p) :
    ∃ a', Step oneTurnEnv t (.pushToolResult lateResult) (c ++ [lateResult.item])
        ⟨a', Function.update t.pushedAt c.length (some p)⟩ ∧
      Reads a' (c ++ [lateResult.item]) p := by
  obtain ⟨hsound, rfl, rfl⟩ := h
  have hharmless : Harmless oneTurnEnv (some t.actor) (.pushToolResult lateResult) :=
    ⟨forall_mem_singleton.mpr trivial, nofun⟩
  obtain ⟨a', taken, hsound'⟩ := (soundAfter_handle_iff hsound _).mpr hharmless
  have hpushed : pushMessage lateResult.item t.actor = some a' := taken
  refine ⟨a', .toolResult taken, hsound', (pushMessage_spec hpushed).1, ?_⟩
  cases taken
  rfl

/-- One result is pushed, at place 1. -/
def stamped (b : Nat) : Nat → Option Nat := Function.update (fun _ => none) 1 (some b)

theorem stamped_kept (h : (c)[1]? = some (.toolResult tr)) :
    ∀ j b', stamped b j = some b' → stamped b j = some b' ∧ ∃ tr, (c)[j]? = some (.toolResult tr) := by
  intro j b' hj
  by_cases hplace : j = 1
  · rw [hplace] at hj ⊢
    exact ⟨hj, tr, h⟩
  · rw [stamped, Function.update_of_ne hplace] at hj
    cases hj

/-- While the prompt index does not run ahead of the user items, results are
cleared by real turns only. -/
theorem results_cleared_by_real_turns {env : Env} {a : Actor} {t t' : Tracked}
    {cmd : ChatStateCommand} {pre : Conversation} (hrun : RunInStep env (.start a) t) (hstep : Step env t cmd pre t') :
    OnlyOldCleared env pre t' :=
  cleared_of_placed (placed_run hrun) hstep

/-- A result of the first turn is cleared by the message of the third. -/
theorem results_cleared_by_real_turns_third :
    ∃ t' : Tracked, t'.conversation = [helloItem, .ofToolResult "c2".toList hardClearPlaceholder,
      helloItem, helloItem] ∧ t'.pushedAt 1 = some 1 ∧ 1 + 1 ≤ t'.promptIndex := by
  obtain ⟨a, -, ha⟩ := reads_spawn
  have hempty : repaired .userCancelled [] = [] := by rw [repaired_eq]; rfl
  obtain ⟨a₁, hrun₁, ha₁⟩ := turn_run (t := .start a) (fun _ => none) ha hempty nofun
  have ha₁ : Reads a₁ [helloItem] 1 := ha₁
  obtain ⟨a₂, hstep₂, ha₂⟩ := result_step (t := ⟨a₁, fun _ => none⟩) ha₁
  have hone : repaired .userCancelled [helloItem, lateResult.item] =
      [helloItem, lateResult.item] := by rw [repaired_eq]; rfl
  obtain ⟨a₃, hrun₃, ha₃⟩ := turn_run (t := ⟨a₂, stamped 1⟩) _ ha₂ hone (stamped_kept rfl)
  have ha₃ : Reads a₃ [helloItem, lateResult.item, helloItem] 2 := ha₃
  have htwo : repaired .userCancelled [helloItem, lateResult.item, helloItem] =
      [helloItem, lateResult.item, helloItem] := by rw [repaired_eq]; rfl
  obtain ⟨b, taken, hb⟩ : ∃ b, handleCommand oneTurnEnv a₃ .incrementPromptIndex = some b ∧
      Reads b [helloItem, lateResult.item, helloItem] 3 :=
    ⟨_, rfl, ⟨ha₃.sound.previewable, ha₃.sound.inside⟩, ha₃.conversation,
      congrArg (· + 1) ha₃.promptIndex⟩
  obtain ⟨a₄, hstep₄, ha₄⟩ := hello_step (t := ⟨b, stamped 1⟩) hb htwo (by decide)
    (stamped_kept rfl)
  have hpushed : RunInStep oneTurnEnv ⟨a₁, fun _ => none⟩ ⟨a₂, stamped 1⟩ := by
    refine Relation.ReflTransGen.single ⟨_, _, hstep₂, ?_⟩
    show a₁.state.promptIndex ≤ a₁.state.conversation.countP isUser + 1
    rw [ha₁.promptIndex, ha₁.conversation]
    decide
  have hrun : RunInStep oneTurnEnv (.start a) ⟨b, stamped 1⟩ :=
    ((hrun₁.trans hpushed).trans hrun₃).tail ⟨_, _, .prompt taken, trivial⟩
  have hcleared : a₄.state.conversation = [helloItem,
      .ofToolResult "c2".toList hardClearPlaceholder, helloItem, helloItem] := ha₄.conversation
  refine ⟨⟨a₄, stamped 1⟩, hcleared, rfl, ?_⟩
  refine results_cleared_by_real_turns hrun hstep₄ 1 1 rfl fun hsame => ?_
  rw [Tracked.conversation, hcleared] at hsame
  revert hsame
  decide

/-- Three turns, compacted to one message: two synthetic items behind the next
result clear it before any further prompt. -/
theorem result_cleared_without_a_prompt :
    ∃ (a : Actor) (t t' : Tracked) (cmd : ChatStateCommand) (pre : Conversation),
      Actor.spawn [] ⟨[], 1⟩ = some a ∧ Run oneTurnEnv (.start a) t ∧
      Step oneTurnEnv t cmd pre t' ∧ ¬ OnlyOldCleared oneTurnEnv pre t' := by
  obtain ⟨a, hspawn, ha⟩ := reads_spawn
  have hempty : repaired .userCancelled [] = [] := by rw [repaired_eq]; rfl
  obtain ⟨a₁, hrun₁, ha₁⟩ := turn_run (t := .start a) (fun _ => none) ha hempty nofun
  have ha₁ : Reads a₁ [helloItem] 1 := ha₁
  have hone : repaired .userCancelled [helloItem] = [helloItem] := by rw [repaired_eq]; rfl
  obtain ⟨a₂, hrun₂, ha₂⟩ := turn_run (t := ⟨a₁, fun _ => none⟩) (fun _ => none)
    ha₁ hone nofun
  have ha₂ : Reads a₂ [helloItem, helloItem] 2 := ha₂
  have htwo : repaired .userCancelled [helloItem, helloItem] = [helloItem, helloItem] := by
    rw [repaired_eq]; rfl
  obtain ⟨a₃, hrun₃, ha₃⟩ := turn_run (t := ⟨a₂, fun _ => none⟩) (fun _ => none)
    ha₂ htwo nofun
  have ha₃ : Reads a₃ [helloItem, helloItem, helloItem] 3 := ha₃
  -- the compaction keeps the prompt index
  obtain ⟨b, taken, hsound⟩ := (soundAfter_handle_iff ha₃.sound
    (.replaceConversation [helloItem] true)).mpr
      ⟨forall_mem_singleton.mpr trivial, nofun⟩
  obtain ⟨hcompacted, hkept⟩ := replaceConversation_spec taken
  have hb : Reads b [helloItem] 3 := ⟨hsound, hcompacted, hkept.trans ha₃.promptIndex⟩
  obtain ⟨a₄, hstep₄, ha₄⟩ := result_step (t := ⟨b, fun _ => none⟩) hb
  have hresult : repaired .userCancelled [helloItem, lateResult.item] =
      [helloItem, lateResult.item] := by rw [repaired_eq]; rfl
  obtain ⟨a₅, hstep₅, ha₅⟩ := hello_step (t := ⟨a₄, stamped 3⟩) ha₄ hresult (by decide)
    (stamped_kept rfl)
  have ha₅ : Reads a₅ [helloItem, lateResult.item, helloItem] 3 := ha₅
  have hagain : repaired .userCancelled [helloItem, lateResult.item, helloItem] =
      [helloItem, lateResult.item, helloItem] := by rw [repaired_eq]; rfl
  obtain ⟨a₆, hstep₆, ha₆⟩ := hello_step (t := ⟨a₅, stamped 3⟩) ha₅ hagain (by decide)
    (stamped_kept rfl)
  have hturns := ((hrun₁.run.trans hrun₂.run).trans hrun₃.run)
  have hrun₄ : Run oneTurnEnv (.start a) ⟨b, fun _ => none⟩ :=
    hturns.tail ⟨_, _, .compaction taken nofun⟩
  refine ⟨a, ⟨a₅, stamped 3⟩, ⟨a₆, stamped 3⟩, _, _, hspawn,
    (hrun₄.tail ⟨_, _, hstep₄⟩).tail ⟨_, _, hstep₅⟩, hstep₆, fun honly => ?_⟩
  have hcleared : a₆.state.conversation = [helloItem,
      .ofToolResult "c2".toList hardClearPlaceholder, helloItem, helloItem] := ha₆.conversation
  have hold := honly 1 3 rfl (by rw [Tracked.conversation, hcleared]; decide)
  have hindex : a₆.state.promptIndex = 3 := ha₆.promptIndex
  rw [Tracked.promptIndex, hindex] at hold
  exact absurd hold (by decide)

end GrokBuild.ChatActor
