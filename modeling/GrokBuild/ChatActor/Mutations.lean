import GrokBuild.ChatActor.State

/-!
# Mutation handlers

`actor/mutations.rs`: integrity repair, pushes, eager pruning, replacement of
the conversation, and the working-directory switch. Each handler is followed
by what it does to the conversation, the capture and the disk when the
capture's offset is inside the conversation.
-/

namespace GrokBuild.ChatActor

open TextLines ChatHistory List Option

variable (env : Env)

/-! ## Integrity -/

/-- What the two passes of `ensure_conversation_integrity` leave. -/
def repaired (reason : DanglingToolCallReason) (conversation : Conversation) : Conversation :=
  (repairDanglingToolCalls (dedupDuplicateToolResults conversation).1 reason).1

/-- `repaired > 0 || deduped > 0`. -/
def repairs (reason : DanglingToolCallReason) (conversation : Conversation) : Bool :=
  0 < (repairDanglingToolCalls (dedupDuplicateToolResults conversation).1 reason).2 ||
    0 < (dedupDuplicateToolResults conversation).2

/-- `ensure_conversation_integrity_with_reason`. -/
def ensureConversationIntegrity (reason : DanglingToolCallReason) (a : Actor) : Option Actor := do
  let st ← snapshotTurnSlice env a.state
  let conversation := repaired reason st.conversation
  let disk :=
    if repairs reason st.conversation then a.disk.replaceHistory conversation else a.disk
  some ⟨rebaseTurnCaptureOffset { st with conversation := conversation }, disk⟩

/-! ## Replacement -/

def replaceConversation (items : Conversation) (isCompaction : Bool) (a : Actor) :
    Option Actor := do
  let st ← snapshotTurnSlice env a.state
  let turnCapture := st.turnCapture.map fun cap =>
    { cap with compactionOccurred := cap.compactionOccurred || isCompaction }
  let preReplaceTotal := st.totalTokens
  let baseEstimate ← estimateConversationTokens items
  let reseeded :=
    if isCompaction ∧ 0 < preReplaceTotal ∧ 0 < st.estimateAtLastResponse then
      env.reseed baseEstimate preReplaceTotal st.estimateAtLastResponse
    else baseEstimate
  let estimatedTokens :=
    if isCompaction ∧ 0 < preReplaceTotal then min reseeded preReplaceTotal else reseeded
  let st := rebaseTurnCaptureOffset
    { st with
      conversation := items
      turnCapture := turnCapture
      estimatedTokensSinceModel := 0
      totalTokens := estimatedTokens
      estimateAtLastResponse := baseEstimate }
  some ⟨st, a.disk.replaceHistory items⟩

/-- `repair_history` of the actor. -/
def repairHistoryCommand (dryRun : Bool) (a : Actor) : Option (Actor × HistoryRepairReport) :=
  let result := repairHistory a.state.conversation
  if dryRun then some (a, result.2)
  else
    -- `mem::take` leaves an empty conversation until the new one is put in
    let taken := { a with state := { a.state with conversation := [] } }
    if result.2.changed then
      (replaceConversation env result.1 false taken).map fun a' => (a', result.2)
    else
      some ({ taken with state := { taken.state with conversation := result.1 } }, result.2)

/-- Trailing `\n` and `\r` removed. -/
def trimEndNewlines (s : Text) : Text :=
  (s.reverse.dropWhile fun c => c == '\n' || c == '\r').reverse

def canonicalSystemPromptEq (a b : Text) : Bool := trimEndNewlines a == trimEndNewlines b

def replaceOrInsertSystemHead (conversation : Conversation) (prompt : Text) :
    Conversation × Bool :=
  match conversation with
  | .system content :: rest =>
    if canonicalSystemPromptEq content prompt then (conversation, false)
    else (.system prompt :: rest, true)
  | _ => (.system prompt :: conversation, true)

/-- The guard of `replace_system_head`: the head already reads `prompt`. -/
def headMatches (conversation : Conversation) (prompt : Text) : Bool :=
  match conversation.head? with
  | some (.system content) => canonicalSystemPromptEq content prompt
  | _ => false

def replaceSystemHead (prompt : Text) (a : Actor) : Option (Actor × Bool) :=
  if headMatches a.state.conversation prompt then some (a, false)
  else
    let result := replaceOrInsertSystemHead a.state.conversation prompt
    if env.debugAssertions && !result.2 then none
    else (replaceConversation env result.1 false a).map fun a' => (a', result.2)

structure ChatStateSnapshot where
  conversation : Conversation
  samplingConfig : SamplingConfig
  promptIndex : Nat
  promptTexts : List Text
  totalTokens : Nat
  estimateAtLastResponse : Nat
  lastCompactionPromptIndex : Option Nat
  deriving DecidableEq

def restoreSnapshot (snap : ChatStateSnapshot) (a : Actor) : Option Actor := do
  let st ← snapshotTurnSlice env a.state
  let st := rebaseTurnCaptureOffset { st with conversation := snap.conversation }
  let estimateAtLastResponse ←
    if 0 < snap.estimateAtLastResponse then some snap.estimateAtLastResponse
    else estimateConversationTokens st.conversation
  let st :=
    { st with
      samplingConfig := snap.samplingConfig
      promptIndex := snap.promptIndex
      totalTokens := snap.totalTokens
      estimatedTokensSinceModel := 0
      estimateAtLastResponse
      promptTexts := snap.promptTexts
      lastCompactionPromptIndex := snap.lastCompactionPromptIndex }
  some { a with state := st }

/-! ## Working-directory switch -/

/-- The items of one generation of the switch. -/
def ofGeneration (generation : Nat) (item : ConversationItem) : Bool :=
  item.workingDirectorySwitchGeneration == some generation

variable {generation : Nat} {item : ConversationItem}

theorem ofGeneration_iff :
    ofGeneration generation item = true ↔
      item.workingDirectorySwitchGeneration = some generation := by
  simp [ofGeneration]

theorem ofGeneration_eq (h : item.workingDirectorySwitchGeneration = some generation) (other : Nat) :
    ofGeneration other item = decide (generation = other) := by
  rw [Bool.eq_iff_iff, ofGeneration_iff, h, some.injEq, decide_eq_true_iff]

/-- `converge_working_directory_switch`: in place, or at the end. -/
def convergeWorkingDirectorySwitch (generation : Nat) (authoritative : ConversationItem)
    (st : ChatState) : Option ChatState := do
  let newTokens ← estimateItemTokens authoritative
  match st.conversation.findIdx? (ofGeneration generation) with
  | some i =>
    let existing ← st.conversation[i]?
    let oldTokens ← estimateItemTokens existing
    some { st with
      estimatedTokensSinceModel := st.estimatedTokensSinceModel + newTokens - oldTokens
      conversation := st.conversation.set i authoritative }
  | none =>
    some { st with
      estimatedTokensSinceModel := st.estimatedTokensSinceModel + newTokens
      conversation := st.conversation ++ [authoritative] }

theorem convergeWorkingDirectorySwitch_spec {st st' : ChatState}
    (h : convergeWorkingDirectorySwitch generation item st = some st') :
    st'.turnCapture = st.turnCapture ∧
      ((∃ i, st.conversation.findIdx? (ofGeneration generation) = some i ∧
          st'.conversation = st.conversation.set i item) ∨
        st.conversation.findIdx? (ofGeneration generation) = none ∧
          st'.conversation = st.conversation ++ [item]) := by
  simp only [convergeWorkingDirectorySwitch, bind_eq_bind, bind_eq_some_iff] at h
  obtain ⟨newTokens, -, h⟩ := h
  cases hfind : st.conversation.findIdx? (ofGeneration generation) with
  | none =>
    rw [hfind] at h
    cases h
    exact ⟨rfl, .inr ⟨rfl, rfl⟩⟩
  | some i =>
    simp only [hfind, bind_eq_some_iff] at h
    obtain ⟨existing, -, oldTokens, -, h⟩ := h
    cases h
    exact ⟨rfl, .inl ⟨i, rfl, rfl⟩⟩

inductive StrictAppendAck where
  | appended
  | alreadyPresent (authoritative : ConversationItem)
  deriving DecidableEq

/-- `StrictAppendError`, without the error texts. -/
inductive StrictAppendError where
  | notCommitted
  | committed (acknowledgement : StrictAppendAck)
  | indeterminate
  deriving DecidableEq

/-- How the append goes: through, through with an error after the line was
written or found, failed before anything was written, or not delivered. -/
inductive AppendOutcome where
  | ok
  | committed
  | notCommitted
  | indeterminate
  deriving DecidableEq

/-- `append_cwd_switch_line_sync_with`: an item of the generation that is in the file wins. -/
def Disk.appendSwitch (disk : Disk) (generation : Nat) (item : ConversationItem) :
    Disk × StrictAppendAck :=
  match disk.history.find? (ofGeneration generation) with
  | some authoritative => (disk, .alreadyPresent authoritative)
  | none => (disk.persistMessage item, .appended)

/-- `persist_working_directory_switch_and_ack`. -/
def Disk.persistSwitch (disk : Disk) (generation : Nat) (item : ConversationItem) :
    AppendOutcome → Disk × Except StrictAppendError StrictAppendAck
  | .ok =>
    let r := disk.appendSwitch generation item
    (r.1, .ok r.2)
  | .committed =>
    let r := disk.appendSwitch generation item
    (r.1, .error (.committed r.2))
  | .notCommitted => (disk, .error .notCommitted)
  | .indeterminate => (disk, .error .indeterminate)

/-- `authoritative` in the handler of the command. -/
def authoritativeItem (candidate : ConversationItem) :
    Except StrictAppendError StrictAppendAck → Option ConversationItem
  | .ok .appended | .error (.committed .appended) => some candidate
  | .ok (.alreadyPresent item) | .error (.committed (.alreadyPresent item)) => some item
  | .error .notCommitted | .error .indeterminate => none

theorem persistSwitch_spec {disk : Disk} {candidate : ConversationItem} {outcome : AppendOutcome}
    (h : authoritativeItem candidate (disk.persistSwitch generation candidate outcome).2 = some item) :
    (disk.history.find? (ofGeneration generation) = some item ∧
        (disk.persistSwitch generation candidate outcome).1 = disk) ∨
      (disk.history.find? (ofGeneration generation) = none ∧ item = candidate ∧
        (disk.persistSwitch generation candidate outcome).1 = disk.persistMessage candidate) := by
  cases outcome with
  | notCommitted | indeterminate => cases h
  | ok | committed =>
    simp only [Disk.persistSwitch, Disk.appendSwitch] at h ⊢
    cases hfind : disk.history.find? (ofGeneration generation) with
    | none =>
      rw [hfind] at h
      cases h
      exact .inr ⟨rfl, rfl, rfl⟩
    | some x =>
      rw [hfind] at h
      cases h
      exact .inl ⟨rfl, rfl⟩

theorem persistSwitch_of_none {disk : Disk} {candidate : ConversationItem} {outcome : AppendOutcome}
    (h : authoritativeItem candidate (disk.persistSwitch generation candidate outcome).2 = none) :
    (disk.persistSwitch generation candidate outcome).1 = disk := by
  cases outcome with
  | notCommitted | indeterminate => rfl
  | ok | committed =>
    simp only [Disk.persistSwitch, Disk.appendSwitch] at h
    cases hfind : disk.history.find? (ofGeneration generation) with
    | none =>
      rw [hfind] at h
      cases h
    | some x =>
      rw [hfind] at h
      cases h

/-- `AppendWorkingDirectorySwitchAndAck`. -/
def appendWorkingDirectorySwitch (content : Text) (generation : Nat) (outcome : AppendOutcome)
    (a : Actor) : Option (Actor × Except StrictAppendError StrictAppendAck) :=
  let candidate := ConversationItem.workingDirectorySwitch content generation
  let persisted := a.disk.persistSwitch generation candidate outcome
  match authoritativeItem candidate persisted.2 with
  | none => some (⟨a.state, persisted.1⟩, persisted.2)
  | some authoritative =>
    (convergeWorkingDirectorySwitch generation authoritative a.state).map fun st =>
      (⟨st, persisted.1⟩, persisted.2)

/-! ## Pushes -/

def isAssistant : ConversationItem → Bool
  | .assistant _ => true
  | _ => false

def pushMessage (item : ConversationItem) (a : Actor) : Option Actor := do
  let estimatedTokens ← if isAssistant item then some 0 else estimateItemTokens item
  let st :=
    { a.state with
      estimatedTokensSinceModel := a.state.estimatedTokensSinceModel + estimatedTokens
      conversation := a.state.conversation ++ [item] }
  some ⟨st, a.disk.persistMessage item⟩

variable {a a' : Actor}

theorem pushMessage_spec (h : pushMessage item a = some a') :
    a'.state.conversation = a.state.conversation ++ [item] ∧
      a'.state.turnCapture = a.state.turnCapture ∧ a'.disk = a.disk.persistMessage item := by
  simp only [pushMessage, bind_eq_bind] at h
  split at h
  · cases h
    exact ⟨rfl, rfl, rfl⟩
  · rw [bind_eq_some_iff] at h
    obtain ⟨n, -, h⟩ := h
    cases h
    exact ⟨rfl, rfl, rfl⟩

def hardClearPlaceholder : Text := "[Tool result omitted — too old]".toList

def isUser : ConversationItem → Bool
  | .user _ => true
  | _ => false

/-- The backward walk of the pruning loops, over the items last first: `f`
rewrites each tool result, given how many user items lie between it and the
last one. -/
def pruneBackward (f : Nat → ToolResultItem → ToolResultItem) :
    Nat → Bool → Conversation → Conversation
  | _, _, [] => []
  | turnFromEnd, seenFirstUser, .user u :: rest =>
    .user u :: pruneBackward f (if seenFirstUser then turnFromEnd + 1 else turnFromEnd) true rest
  | turnFromEnd, seenFirstUser, .toolResult tr :: rest =>
    .toolResult (f turnFromEnd tr) :: pruneBackward f turnFromEnd seenFirstUser rest
  | turnFromEnd, seenFirstUser, item :: rest =>
    item :: pruneBackward f turnFromEnd seenFirstUser rest

def pruneWith (f : Nat → ToolResultItem → ToolResultItem) (conversation : Conversation) :
    Conversation :=
  (pruneBackward f 0 false conversation.reverse).reverse

/-- The content of a tool result of at least the given age hard-cleared. -/
def hardClear (threshold turnFromEnd : Nat) (tr : ToolResultItem) : ToolResultItem :=
  if turnFromEnd < threshold then tr else { tr with content := hardClearPlaceholder }

def effectiveThreshold (st : ChatState) : Nat :=
  let totalUserItems := st.conversation.countP isUser
  env.pruning.hardClearAgeTurns + (totalUserItems - st.promptIndex)

/-- `prune_retained_conversation`, and how many results it cleared. -/
def pruneRetainedConversation (a : Actor) : Option (Actor × Nat) :=
  if !env.pruning.enabled then some (a, 0)
  else if a.state.promptIndex < env.pruning.hardClearAgeTurns then some (a, 0)
  else do
    let _beforeBytes ← conversationContentBytes a.state.conversation
    let conversation := pruneWith (hardClear (effectiveThreshold env a.state)) a.state.conversation
    let cleared := (a.state.conversation.zip conversation).countP fun p => p.1 != p.2
    let st := { a.state with conversation := conversation }
    if 0 < cleared then
      let _afterBytes ← conversationContentBytes conversation
      some (⟨st, a.disk.replaceHistory conversation⟩, cleared)
    else some (⟨st, a.disk⟩, cleared)

theorem length_pruneBackward (f : Nat → ToolResultItem → ToolResultItem) (age : Nat)
    (seen : Bool) (c : Conversation) : (pruneBackward f age seen c).length = c.length := by
  induction c generalizing age seen with
  | nil => rfl
  | cons item c ih =>
    cases item with
    | system | user | assistant | toolResult | backendToolCall | reasoning =>
      simp [pruneBackward, ih]

theorem length_pruneWith (f : Nat → ToolResultItem → ToolResultItem) (c : Conversation) :
    (pruneWith f c).length = c.length := by
  rw [pruneWith, length_reverse, length_pruneBackward, length_reverse]

theorem eq_of_countP_zip_eq_zero {c c' : Conversation} (hlen : c'.length = c.length)
    (h : (c.zip c').countP (fun p => p.1 != p.2) = 0) : c' = c := by
  refine ext_getElem hlen fun i hi hi' => ?_
  rw [countP_eq_zero] at h
  have hzip : i < (c.zip c').length := by
    rw [length_zip]
    omega
  have hmem := h _ (getElem_mem hzip)
  simp only [getElem_zip, bne_iff_ne, ne_eq, not_not] at hmem
  exact hmem.symm

/-- Pruning has a result to clear. -/
def Clears (st : ChatState) : Prop :=
  env.pruning.enabled = true ∧ env.pruning.hardClearAgeTurns ≤ st.promptIndex ∧
    pruneWith (hardClear (effectiveThreshold env st)) st.conversation ≠ st.conversation

theorem clears_congr {st st' : ChatState} (hconversation : st'.conversation = st.conversation)
    (hindex : st'.promptIndex = st.promptIndex) : Clears env st' ↔ Clears env st := by
  rw [Clears, Clears, effectiveThreshold, effectiveThreshold, hconversation, hindex]

/-- Pruning rewrites the file when it clears a result, and is nothing else. -/
theorem pruneRetainedConversation_spec {cleared : Nat}
    (h : pruneRetainedConversation env a = some (a', cleared)) :
    (¬ Clears env a.state ∧ a' = a) ∨ (Clears env a.state ∧ a' = ⟨{ a.state with
        conversation := pruneWith (hardClear (effectiveThreshold env a.state))
          a.state.conversation },
      a.disk.replaceHistory (pruneWith (hardClear (effectiveThreshold env a.state))
        a.state.conversation)⟩) := by
  rw [pruneRetainedConversation] at h
  split at h
  · rename_i hdisabled
    cases h
    refine .inl ⟨fun hclears => ?_, rfl⟩
    simp [hclears.1] at hdisabled
  · rename_i henabled
    split at h
    · rename_i hyoung
      cases h
      exact .inl ⟨fun hclears => absurd hclears.2.1 (Nat.not_le_of_lt hyoung), rfl⟩
    · rename_i hold
      simp only [bind_eq_bind, bind_eq_some_iff] at h
      obtain ⟨before, -, h⟩ := h
      split at h
      · rename_i hcleared
        rw [bind_eq_some_iff] at h
        obtain ⟨after, -, h⟩ := h
        cases h
        refine .inr ⟨⟨by simpa using henabled, Nat.le_of_not_lt hold, fun hsame => ?_⟩, rfl⟩
        -- a result that was cleared is no longer the same
        rw [hsame, countP_pos_iff] at hcleared
        obtain ⟨p, hp, hdiffers⟩ := hcleared
        rw [zip_eq_zipWith, zipWith_self] at hp
        obtain ⟨item, -, rfl⟩ := List.mem_map.mp hp
        simp at hdiffers
      · rename_i hcleared
        have hsame := eq_of_countP_zip_eq_zero (length_pruneWith _ a.state.conversation)
          (Nat.le_zero.mp (Nat.le_of_not_lt hcleared))
        cases h
        refine .inl ⟨fun hclears => hclears.2.2 hsame, ?_⟩
        rw [hsame]

/-- `push_user_message_with_repair_reason`. -/
def pushUserMessage (item : UserItem) (reason : DanglingToolCallReason) (a : Actor) :
    Option Actor := do
  let a ← ensureConversationIntegrity env reason a
  let estimatedTokens ← estimateItemTokens (.user item)
  let st :=
    { a.state with
      estimatedTokensSinceModel := a.state.estimatedTokensSinceModel + estimatedTokens
      conversation := a.state.conversation ++ [.user item] }
  let pruned ← pruneRetainedConversation env ⟨st, a.disk.persistMessage (.user item)⟩
  some pruned.1

theorem pushUserMessage_spec {item : UserItem} {reason : DanglingToolCallReason}
    (h : pushUserMessage env item reason a = some a') :
    ∃ b b' : Actor, ∃ cleared, ensureConversationIntegrity env reason a = some b ∧
      b'.state.conversation = b.state.conversation ++ [.user item] ∧
      b'.state.turnCapture = b.state.turnCapture ∧ b'.state.promptIndex = b.state.promptIndex ∧
      b'.disk = b.disk.persistMessage (.user item) ∧
      pruneRetainedConversation env b' = some (a', cleared) := by
  simp only [pushUserMessage, bind_eq_bind, bind_eq_some_iff, some.injEq]
    at h
  obtain ⟨b, hb, n, -, ⟨pruned, cleared⟩, hprune, rfl⟩ := h
  let pushed : Actor := ⟨{ b.state with
    estimatedTokensSinceModel := b.state.estimatedTokensSinceModel + n
    conversation := b.state.conversation ++ [.user item] }, b.disk.persistMessage (.user item)⟩
  exact ⟨b, pushed, cleared, hb, rfl, rfl, rfl, rfl, hprune⟩

def recordTokenUsage (totalTokens : Nat) (a : Actor) : Option Actor := do
  let estimate ← estimateConversationTokens a.state.conversation
  let st :=
    { a.state with
      estimatedTokensSinceModel := 0
      estimateAtLastResponse := estimate
      totalTokens }
  some { a with state := st }

/-- `truncate_to_prompt_index`: where the conversation is cut. -/
def truncateAt (targetPromptIndex : Nat) (conversation : Conversation) : Nat :=
  match (conversation.findIdxs isUser)[targetPromptIndex]? with
  | some i => i
  | none => conversation.length

def truncateToPromptIndex (targetPromptIndex : Nat) (a : Actor) : Option Actor :=
  if a.state.promptIndex ≤ targetPromptIndex then some a
  else do
    let conversation :=
      a.state.conversation.take (truncateAt targetPromptIndex a.state.conversation)
    let totalTokens ← estimateConversationTokens conversation
    let st :=
      { a.state with
        conversation
        promptTexts := a.state.promptTexts.take targetPromptIndex
        promptIndex := targetPromptIndex
        totalTokens
        estimatedTokensSinceModel := 0
        estimateAtLastResponse := totalTokens }
    some ⟨st, a.disk.replaceHistory conversation⟩

end GrokBuild.ChatActor
