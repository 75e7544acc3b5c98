import GrokBuild.ChatActor.Commands
import GrokBuild.ChatActor.Passes

/-!
# Where the actor panics

An actor is healthy while it runs, each item of its conversation has a text
and an estimate, and the capture's offset is inside the conversation. Every
handler keeps that (`soundAfter_…`), with two exceptions: an item brought in
whose preview cuts a character, and a history repair during a capture, which
takes the vector out before the tail is read (`healthy_iff_soundAfter`).
-/

namespace GrokBuild.ChatActor

open TextLines ChatHistory ConversationItem Runs List Option

/-- The items can be read and the capture's offset is inside. -/
structure Sound (st : ChatState) : Prop where
  previewable : ∀ item ∈ st.conversation, Previewable item
  inside : CaptureInside st

/-- The handler ran, into a sound state. -/
def SoundAfter (result : Option Actor) : Prop := ∃ a, result = some a ∧ Sound a.state

theorem not_soundAfter_none : ¬ SoundAfter none := by
  rintro ⟨a, h, -⟩
  cases h

variable {a : Actor}

theorem soundAfter_some : SoundAfter (some a) ↔ Sound a.state := by
  simp [SoundAfter]

/-- Tool results can always be read, so the other items decide. -/
theorem previewable_iff_heads {items : Conversation} :
    (∀ item ∈ items, Previewable item) ↔ ∀ item ∈ heads toolResults items, Previewable item := by
  refine ⟨fun h item hitem => h item (mem_of_mem_filter hitem), fun h item hitem => ?_⟩
  cases item with
  | toolResult tr => trivial
  | system | user | assistant | backendToolCall | reasoning =>
    exact h _ (mem_filter.mpr ⟨hitem, rfl⟩)

theorem previewable_congr {items items' : Conversation}
    (h : heads toolResults items' = heads toolResults items) :
    (∀ item ∈ items', Previewable item) ↔ ∀ item ∈ items, Previewable item := by
  rw [previewable_iff_heads, h, ← previewable_iff_heads]

/-! ## Each handler -/

section Handlers

variable {env : Env} {a : Actor}

theorem soundAfter_integrity (env : Env) (h : Sound a.state) (reason : DanglingToolCallReason) :
    SoundAfter (ensureConversationIntegrity env reason a) := by
  rw [ensureConversationIntegrity, snapshotTurnSlice_of_inside h.inside]
  simp only [bind_eq_bind, bind_some]
  refine soundAfter_some.mpr ⟨?_, captureInside_rebase _⟩
  exact (previewable_congr (heads_repaired reason _)).mpr h.previewable

variable {st : ChatState}

theorem soundAfter_replace (h : snapshotTurnSlice env a.state = some st) (items : Conversation)
    (isCompaction : Bool) :
    SoundAfter (replaceConversation env items isCompaction a) ↔
      ∀ item ∈ items, Previewable item := by
  rw [← estimateConversationTokens_isSome_iff]
  simp only [replaceConversation, h, bind_eq_bind, bind_some]
  cases hestimate : estimateConversationTokens items with
  | none => exact iff_of_false not_soundAfter_none (by simp)
  | some n =>
    have hitems : ∀ item ∈ items, Previewable item :=
      estimateConversationTokens_isSome_iff.mp (by rw [hestimate]; rfl)
    exact iff_of_true (soundAfter_some.mpr ⟨hitems, captureInside_rebase _⟩) rfl

theorem soundAfter_replaceConversation (h : Sound a.state) (items : Conversation)
    (isCompaction : Bool) :
    SoundAfter (replaceConversation env items isCompaction a) ↔
      ∀ item ∈ items, Previewable item :=
  soundAfter_replace (snapshotTurnSlice_of_inside h.inside) items isCompaction

/-- The repair reads the capture's tail in an empty vector. -/
def AssertsOffset (env : Env) (st : ChatState) : Prop :=
  env.debugAssertions = true ∧ (repairHistory st.conversation).2.changed = true ∧
    ∃ cap, st.turnCapture = some cap ∧ 0 < cap.turnStartOffset

theorem snapshot_taken (env : Env) (st : ChatState) :
    (snapshotTurnSlice env { st with conversation := [] }).isSome ↔
      ¬ (env.debugAssertions = true ∧
        ∃ cap, st.turnCapture = some cap ∧ 0 < cap.turnStartOffset) := by
  rw [snapshotTurnSlice]
  cases hcap : st.turnCapture with
  | none => simp
  | some cap =>
    simp only [turnTail, length_nil, Nat.le_zero]
    by_cases hzero : cap.turnStartOffset = 0
    · simp [hzero]
    · cases hdebug : env.debugAssertions with
      | false => simp [hzero]
      | true => simp [hzero, Nat.pos_of_ne_zero hzero]

theorem soundAfter_repairHistory (env : Env) (h : Sound a.state) (dryRun : Bool) :
    SoundAfter ((repairHistoryCommand env dryRun a).map (·.1)) ↔
      (dryRun = false → ¬ AssertsOffset env a.state) := by
  rw [repairHistoryCommand]
  cases dryRun with
  | true =>
    refine iff_of_true (soundAfter_some.mpr h) ?_
    rintro ⟨⟩
  | false =>
    simp only [Bool.false_eq_true, if_false, forall_true_left, AssertsOffset]
    cases hchanged : (repairHistory a.state.conversation).2.changed with
    | false =>
      refine iff_of_true ?_ (by simp)
      rw [repairHistory_unchanged hchanged]
      exact soundAfter_some.mpr h
    | true =>
      have hheads := previewable_congr (heads_repairHistory a.state.conversation)
      have hsnap := snapshot_taken env a.state
      simp only [if_true, Option.map_map, Function.comp_def, Option.map_id', true_and]
      cases htaken : snapshotTurnSlice env { a.state with conversation := [] } with
      | none =>
        rw [htaken] at hsnap
        have hnone : replaceConversation env (repairHistory a.state.conversation).1 false
            { a with state := { a.state with conversation := [] } } = none := by
          simp [replaceConversation, htaken]
        rw [hnone]
        exact iff_of_false not_soundAfter_none (by simpa using hsnap)
      | some st =>
        rw [htaken] at hsnap
        exact iff_of_true ((soundAfter_replace htaken _ _).mpr (hheads.mpr h.previewable))
          (hsnap.mp rfl)

variable {item : ConversationItem}

theorem mem_replaceOrInsertSystemHead {conversation : Conversation} {prompt : Text}
    (h : item ∈ (replaceOrInsertSystemHead conversation prompt).1) :
    item ∈ conversation ∨ item = .system prompt := by
  unfold replaceOrInsertSystemHead at h
  split at h
  · rename_i content rest
    by_cases hsame : canonicalSystemPromptEq content prompt = true
    · rw [if_pos hsame] at h
      exact .inl h
    · rw [if_neg hsame] at h
      rcases mem_cons.mp h with rfl | h
      · exact .inr rfl
      · exact .inl (mem_cons_of_mem _ h)
  · rcases mem_cons.mp h with rfl | h
    · exact .inr rfl
    · exact .inl h

theorem replaceOrInsertSystemHead_changes {conversation : Conversation} {prompt : Text}
    (h : headMatches conversation prompt = false) :
    (replaceOrInsertSystemHead conversation prompt).2 = true := by
  cases conversation with
  | nil => rfl
  | cons item rest =>
    cases item with
    | system content =>
      have hne : canonicalSystemPromptEq content prompt = false := h
      simp [replaceOrInsertSystemHead, hne]
    | user | assistant | toolResult | backendToolCall | reasoning => rfl

theorem soundAfter_replaceSystemHead (h : Sound a.state) (prompt : Text) :
    SoundAfter ((replaceSystemHead env prompt a).map (·.1)) := by
  rw [replaceSystemHead]
  cases hhead : headMatches a.state.conversation prompt with
  | true => exact soundAfter_some.mpr h
  | false =>
    simp only [Bool.false_eq_true, if_false, replaceOrInsertSystemHead_changes hhead,
      Bool.not_true, Bool.and_false, Option.map_map, Function.comp_def, Option.map_id']
    refine (soundAfter_replaceConversation h _ _).mpr fun item hitem => ?_
    rcases mem_replaceOrInsertSystemHead hitem with hold | rfl
    · exact h.previewable item hold
    · trivial

theorem soundAfter_restoreSnapshot (h : Sound a.state) (snap : ChatStateSnapshot) :
    SoundAfter (restoreSnapshot env snap a) ↔ ∀ item ∈ snap.conversation, Previewable item := by
  simp only [restoreSnapshot, snapshotTurnSlice_of_inside h.inside, bind_eq_bind,
    bind_some, rebaseTurnCaptureOffset_conversation]
  by_cases hstored : 0 < snap.estimateAtLastResponse
  · simp only [hstored, if_true]
    rw [soundAfter_some]
    exact ⟨fun hs => hs.previewable, fun hs => ⟨hs, captureInside_rebase _⟩⟩
  · simp only [hstored, if_false]
    rw [← estimateConversationTokens_isSome_iff]
    cases hestimate : estimateConversationTokens snap.conversation with
    | none => exact iff_of_false not_soundAfter_none (by simp)
    | some n =>
      have hitems : ∀ item ∈ snap.conversation, Previewable item :=
        estimateConversationTokens_isSome_iff.mp (by rw [hestimate]; rfl)
      exact iff_of_true (soundAfter_some.mpr ⟨hitems, captureInside_rebase _⟩) rfl

theorem previewable_of_generation {generation : Nat}
    (h : item.workingDirectorySwitchGeneration = some generation) : Previewable item := by
  cases item with
  | user u => trivial
  | system | assistant | toolResult | backendToolCall | reasoning => cases h

theorem Sound.append (h : Sound st) (hitem : Previewable item) (estimate : Nat) :
    Sound { st with
      estimatedTokensSinceModel := estimate
      conversation := st.conversation ++ [item] } where
  previewable x hx := by
    rcases mem_append.mp hx with hx | hx
    · exact h.previewable x hx
    · exact mem_singleton.mp hx ▸ hitem
  inside cap hcap := (h.inside cap hcap).trans (by simp)

theorem converge_sound (h : Sound st) (hitem : Previewable item) (generation : Nat) :
    ∃ st', convergeWorkingDirectorySwitch generation item st = some st' ∧ Sound st' := by
  obtain ⟨newTokens, hnew⟩ :=
    isSome_iff_exists.mp (estimateItemTokens_isSome_iff.mpr hitem)
  simp only [convergeWorkingDirectorySwitch, hnew, bind_eq_bind, bind_some]
  cases hfind : st.conversation.findIdx? (ofGeneration generation) with
  | none => exact ⟨_, rfl, h.append hitem _⟩
  | some i =>
    have hi : i < st.conversation.length := (findIdx?_eq_some_iff_findIdx_eq.mp hfind).1
    obtain ⟨oldTokens, hold⟩ := isSome_iff_exists.mp
      (estimateItemTokens_isSome_iff.mpr (h.previewable _ (getElem_mem hi)))
    simp only [getElem?_eq_getElem hi, bind_some, hold]
    refine ⟨_, rfl, fun x hx => ?_, fun cap hcap => ?_⟩
    · rcases mem_or_eq_of_mem_set hx with hx | rfl
      · exact h.previewable x hx
      · exact hitem
    · exact (h.inside cap hcap).trans_eq (length_set ..).symm

theorem authoritativeItem_generation {disk : Disk} {content : Text} {generation : Nat}
    {outcome : AppendOutcome}
    (h : authoritativeItem (workingDirectorySwitch content generation) (disk.persistSwitch generation (workingDirectorySwitch content generation) outcome).2 = some item) :
    item.workingDirectorySwitchGeneration = some generation := by
  have hfound : ∀ x, disk.history.find? (ofGeneration generation) = some x →
      x.workingDirectorySwitchGeneration = some generation := fun x hx => by
    simpa [ofGeneration] using find?_some hx
  cases outcome with
  | notCommitted | indeterminate => cases h
  | ok | committed =>
    simp only [Disk.persistSwitch, Disk.appendSwitch] at h
    cases hfind : disk.history.find? (ofGeneration generation) with
    | none =>
      rw [hfind] at h
      cases h
      rfl
    | some x =>
      rw [hfind] at h
      cases h
      exact hfound _ hfind

theorem soundAfter_appendSwitch (h : Sound a.state) (content : Text) (generation : Nat)
    (outcome : AppendOutcome) :
    SoundAfter ((appendWorkingDirectorySwitch content generation outcome a).map (·.1)) := by
  simp only [appendWorkingDirectorySwitch]
  cases hitem : authoritativeItem (workingDirectorySwitch content generation)
      (a.disk.persistSwitch generation (workingDirectorySwitch content generation) outcome).2 with
  | none => exact soundAfter_some.mpr h
  | some item =>
    have hgeneration := authoritativeItem_generation hitem
    obtain ⟨st', hst', hsound⟩ :=
      converge_sound h (previewable_of_generation hgeneration) generation
    simp only [hst', map_some]
    exact soundAfter_some.mpr hsound

theorem soundAfter_pushMessage (h : Sound a.state) (item : ConversationItem) :
    SoundAfter (pushMessage item a) ↔ Previewable item := by
  rw [pushMessage]
  cases item with
  | assistant m =>
    have hitem : Previewable (.assistant m) := trivial
    exact iff_of_true (soundAfter_some.mpr (h.append hitem _)) hitem
  | system | user | toolResult | backendToolCall | reasoning =>
    simp only [isAssistant, Bool.false_eq_true, if_false, ← estimateItemTokens_isSome_iff]
    cases hestimate : estimateItemTokens _ with
    | none => exact iff_of_false not_soundAfter_none (by simp)
    | some n =>
      have hitem := estimateItemTokens_isSome_iff.mp (by rw [hestimate]; rfl)
      exact iff_of_true (soundAfter_some.mpr (h.append hitem _)) rfl

theorem soundAfter_prune (env : Env) (h : Sound a.state) :
    SoundAfter ((pruneRetainedConversation env a).map (·.1)) := by
  rw [pruneRetainedConversation]
  split
  · exact soundAfter_some.mpr h
  · split
    · exact soundAfter_some.mpr h
    · have hpruned : ∀ item ∈
          pruneWith (hardClear (effectiveThreshold env a.state)) a.state.conversation,
          Previewable item := (previewable_congr (heads_pruneWith _ _)).mpr h.previewable
      have hskeleton := congrArg List.length (pruneWith_skeleton
        (hardClear_id (effectiveThreshold env a.state)) a.state.conversation)
      rw [length_map, length_map] at hskeleton
      obtain ⟨before, hbefore⟩ := isSome_iff_exists.mp
        (conversationContentBytes_isSome_iff.mpr h.previewable)
      obtain ⟨after, hafter⟩ := isSome_iff_exists.mp
        (conversationContentBytes_isSome_iff.mpr hpruned)
      have hsound : Sound { a.state with
          conversation := pruneWith (hardClear (effectiveThreshold env a.state))
            a.state.conversation } :=
        ⟨hpruned, fun cap hcap => (h.inside cap hcap).trans_eq hskeleton.symm⟩
      simp only [hbefore, hafter, bind_eq_bind, bind_some]
      split
      · exact soundAfter_some.mpr hsound
      · exact soundAfter_some.mpr hsound

theorem soundAfter_pushUserMessage (h : Sound a.state) (item : UserItem)
    (reason : DanglingToolCallReason) : SoundAfter (pushUserMessage env item reason a) := by
  obtain ⟨a', ha', hsound⟩ := soundAfter_integrity env h reason
  have huser : Previewable (.user item) := trivial
  obtain ⟨n, hn⟩ := isSome_iff_exists.mp (estimateItemTokens_isSome_iff.mpr huser)
  have hprune := soundAfter_prune env (a := ⟨_, a'.disk.persistMessage (.user item)⟩)
    (hsound.append huser (a'.state.estimatedTokensSinceModel + n))
  simp only [pushUserMessage, ha', hn, bind_eq_bind, bind_some]
  rw [map_eq_bind] at hprune
  exact hprune

theorem mem_injectMemoryReminder {items : Conversation} {reminder : Text}
    (h : item ∈ (injectMemoryReminder items reminder).1) :
    item ∈ items ∨ ∃ content, item = .system content := by
  simp only [injectMemoryReminder] at h
  split at h
  · exact .inl h
  · split at h
    · rcases mem_cons.mp h with rfl | h
      · exact .inr ⟨_, rfl⟩
      · exact .inl (mem_cons_of_mem _ h)
    · rcases mem_cons.mp h with rfl | h
      · exact .inr ⟨_, rfl⟩
      · exact .inl h

theorem soundAfter_persistReminder (h : Sound a.state) (args : RequestArgs) :
    SoundAfter ((persistReminder env args a).map (·.1)) := by
  rw [persistReminder]
  cases args.memoryReminder with
  | none => exact soundAfter_some.mpr h
  | some reminder =>
    by_cases hpersist : args.persistMemoryReminder = true
    · simp only [hpersist, if_true, snapshotTurnSlice_of_inside h.inside, bind_eq_bind,
        bind_some]
      refine soundAfter_some.mpr ⟨fun item hitem => ?_, captureInside_rebase _⟩
      rcases mem_injectMemoryReminder hitem with hold | ⟨content, rfl⟩
      · exact h.previewable item hold
      · trivial
    · simp only [hpersist]
      exact soundAfter_some.mpr h

theorem soundAfter_buildRequest (h : Sound a.state) (args : RequestArgs) :
    SoundAfter ((buildConversationRequestCommand env args a).map (·.1)) := by
  obtain ⟨a', ha', hsound⟩ := soundAfter_integrity env h .userCancelled
  simp only [buildConversationRequestCommand, ha', bind_eq_bind, bind_some,
    buildConversationRequest_map]
  exact soundAfter_persistReminder hsound args

theorem soundAfter_truncate (h : Sound a.state) (target : Nat) :
    SoundAfter ((truncateToPromptIndex target a).map fun a =>
      { a with state := { a.state with turnCapture := none } }) := by
  have hnone : ∀ st : ChatState, CaptureInside { st with turnCapture := none } := by
    intro st cap hcap
    cases hcap
  rw [truncateToPromptIndex]
  split
  · exact soundAfter_some.mpr ⟨h.previewable, hnone _⟩
  · have hkept : ∀ item ∈ a.state.conversation.take (truncateAt target a.state.conversation),
        Previewable item := fun item hitem => h.previewable item (mem_of_mem_take hitem)
    obtain ⟨n, hn⟩ := isSome_iff_exists.mp
      (estimateConversationTokens_isSome_iff.mpr hkept)
    simp only [hn, bind_eq_bind, bind_some]
    exact soundAfter_some.mpr ⟨hkept, hnone _⟩

theorem sealHarnessTraceTurn_sound (h : Sound st) : Sound (sealHarnessTraceTurn st) := by
  rw [sealHarnessTraceTurn]
  split
  · exact h
  · exact ⟨h.previewable, h.inside⟩

end Handlers

/-! ## The actor -/

/-- The items a command brings into the conversation. -/
def ChatStateCommand.brings : ChatStateCommand → Conversation
  | .pushAssistantResponse x | .pushToolResult x => [x.item]
  | .replaceConversation items _ => items
  | .restoreSnapshot snapshot => snapshot.conversation
  | _ => []

/-- The actor runs, every item has a text and an estimate, and the capture's
offset is inside the conversation. -/
def Healthy : Option Actor → Prop
  | none => False
  | some a =>
    (∀ item ∈ a.state.conversation,
      (textContent item).isSome ∧ (estimateItemTokens item).isSome) ∧
    CaptureInside a.state

theorem healthy_iff_soundAfter {result : Option Actor} : Healthy result ↔ SoundAfter result := by
  cases result with
  | none => exact iff_of_false (fun h => h) not_soundAfter_none
  | some a =>
    rw [soundAfter_some, Healthy]
    simp only [textContent_isSome_iff, estimateItemTokens_isSome_iff, and_self]
    exact ⟨fun h => ⟨h.1, h.2⟩, fun h => ⟨h.previewable, h.inside⟩⟩

/-- The command brings no item whose preview cuts a character, and is no
history repair that reads a capture's tail in the emptied vector. -/
def Harmless (env : Env) : Option Actor → ChatStateCommand → Prop
  | none, _ => True
  | some a, cmd =>
    (∀ item ∈ cmd.brings, Previewable item) ∧
    (cmd = .repairHistory false false → ¬ AssertsOffset env a.state)

variable {env : Env}

/-- A healthy actor stays healthy under exactly the harmless commands. -/
theorem soundAfter_handle_iff (h : Sound a.state) (cmd : ChatStateCommand) :
    SoundAfter (handleCommand env a cmd) ↔ Harmless env (some a) cmd := by
  -- the commands that bring nothing and are not a repair
  have hplain : cmd.brings = [] → cmd ≠ .repairHistory false false →
      SoundAfter (handleCommand env a cmd) →
      (SoundAfter (handleCommand env a cmd) ↔ Harmless env (some a) cmd) := by
    intro hbrings hrepair hafter
    refine iff_of_true hafter ⟨?_, fun heq => absurd heq hrepair⟩
    rw [hbrings]
    exact forall_mem_nil _
  have hsame : ∀ st : ChatState, st.conversation = a.state.conversation →
      st.turnCapture = a.state.turnCapture → SoundAfter (some ⟨st, a.disk⟩) := by
    intro st hconversation hcapture
    refine soundAfter_some.mpr ⟨hconversation ▸ h.previewable, fun cap hcap => ?_⟩
    rw [hconversation]
    exact h.inside cap (hcapture ▸ hcap)
  cases cmd with
  | pushUserMessage u => exact hplain rfl (by simp) (soundAfter_pushUserMessage h _ _)
  | pushUserMessageWithRepairReason u reason =>
    exact hplain rfl (by simp) (soundAfter_pushUserMessage h _ _)
  | appendWorkingDirectorySwitchAndAck content generation outcome =>
    exact hplain rfl (by simp) (soundAfter_appendSwitch h _ _ _)
  | pushAssistantResponse x =>
    rw [handleCommand, soundAfter_pushMessage h, Harmless]
    simp [ChatStateCommand.brings]
  | pushToolResult x =>
    rw [handleCommand, soundAfter_pushMessage h, Harmless]
    simp [ChatStateCommand.brings]
  | replaceConversation items isCompaction =>
    rw [handleCommand, soundAfter_replaceConversation h, Harmless]
    simp [ChatStateCommand.brings]
  | restoreSnapshot snapshot =>
    rw [handleCommand, soundAfter_restoreSnapshot h, Harmless]
    simp [ChatStateCommand.brings]
  | repairHistory dryRun turnActive =>
    cases turnActive with
    | true => exact hplain rfl (by simp) (soundAfter_some.mpr h)
    | false =>
      rw [handleCommand, if_neg Bool.false_ne_true, soundAfter_repairHistory env h, Harmless]
      simp [ChatStateCommand.brings]
  | replaceSystemHead prompt => exact hplain rfl (by simp) (soundAfter_replaceSystemHead h prompt)
  | repairDanglingAfterHarnessHalt class' => exact hplain rfl (by simp) (soundAfter_integrity env h _)
  | buildConversationRequest args => exact hplain rfl (by simp) (soundAfter_buildRequest h args)
  | truncateToPromptIndex target => exact hplain rfl (by simp) (soundAfter_truncate h target)
  | recordTokenUsage totalTokens =>
    refine hplain rfl (by simp) ?_
    obtain ⟨n, hn⟩ := isSome_iff_exists.mp
      (estimateConversationTokens_isSome_iff.mpr h.previewable)
    simp only [handleCommand, recordTokenUsage, hn, bind_eq_bind, bind_some]
    exact hsame _ rfl rfl
  | getEstimatedMessagesTokens =>
    refine hplain rfl (by simp) ?_
    have hfilter : ∀ item ∈ a.state.conversation.filter (fun item => !isSystem item),
        Previewable item := fun item hitem => h.previewable item (mem_of_mem_filter hitem)
    obtain ⟨n, hn⟩ := isSome_iff_exists.mp
      (estimateConversationTokens_isSome_iff.mpr hfilter)
    rw [handleCommand, estimateMessagesTokens, hn]
    exact soundAfter_some.mpr h
  | beginTurnCapture =>
    refine hplain rfl (by simp) (soundAfter_some.mpr ⟨h.previewable, fun cap hcap => ?_⟩)
    cases hcap
    exact Nat.le_refl _
  | takeTurnMessages =>
    refine hplain rfl (by simp) ?_
    rw [handleCommand, takeTurnMessages]
    cases hcap : a.state.turnCapture with
    | none => exact soundAfter_some.mpr h
    | some cap =>
      simp only [turnTail, if_pos (h.inside cap hcap), bind_eq_bind, bind_some]
      refine soundAfter_some.mpr ⟨h.previewable, fun cap hcap => ?_⟩
      cases hcap
  | flushHarnessTraceTurn =>
    exact hplain rfl (by simp) (soundAfter_some.mpr (sealHarnessTraceTurn_sound h))
  | takeHarnessTraceTurns =>
    have hsealed := sealHarnessTraceTurn_sound h
    exact hplain rfl (by simp) (soundAfter_some.mpr ⟨hsealed.previewable, hsealed.inside⟩)
  | incrementPromptIndex | updateSamplingConfig | cachePromptText | recordCompactionAt
  | appendHarnessTraceItems | bookkeeping => exact hplain rfl (by simp) (hsame _ rfl rfl)

/-- A command that would bring harm panics at once; a snapshot only puts the items in place. -/
theorem handleCommand_eq_none {cmd : ChatStateCommand}
    (hrestore : ∀ snapshot, cmd ≠ .restoreSnapshot snapshot) (h : ¬ Harmless env (some a) cmd) :
    handleCommand env a cmd = none := by
  rw [Harmless, not_and_or, Classical.not_imp, not_not] at h
  have hpush : ∀ x : PushedItem, ¬ (∀ item ∈ [x.item], Previewable item) →
      pushMessage x.item a = none := by
    intro x hx
    rw [forall_mem_singleton] at hx
    have hkind : isAssistant x.item = false := by
      cases hitem : x.item with
      | assistant m =>
        rw [hitem] at hx
        exact absurd trivial hx
      | system | user | toolResult | backendToolCall | reasoning => rfl
    have hestimate : estimateItemTokens x.item = none := by
      rw [← estimateItemTokens_isSome_iff] at hx
      simpa using hx
    simp only [pushMessage, hkind, Bool.false_eq_true, if_false, hestimate, bind_eq_bind,
      bind_none]
  rcases h with h | ⟨rfl, hdebug, hchanged, cap, hcap, hpos⟩
  · cases cmd with
    | pushAssistantResponse x => exact hpush x h
    | pushToolResult x => exact hpush x h
    | restoreSnapshot snapshot => exact absurd rfl (hrestore snapshot)
    | replaceConversation items isCompaction =>
      have hestimate : estimateConversationTokens items = none := by
        have hitems : ¬ ∀ item ∈ items, Previewable item := h
        rw [← estimateConversationTokens_isSome_iff] at hitems
        simpa using hitems
      simp only [handleCommand, replaceConversation, hestimate, bind_eq_bind,
        bind_none]
      cases snapshotTurnSlice env a.state <;> rfl
    | _ => exact absurd (forall_mem_nil _) h
  · have hsnap : snapshotTurnSlice env { a.state with conversation := [] } = none := by
      have hiff := snapshot_taken env a.state
      rw [iff_false_right (by simpa using ⟨hdebug, cap, hcap, hpos.ne'⟩)] at hiff
      simpa using hiff
    simp [handleCommand, repairHistoryCommand, hchanged, replaceConversation, hsnap]

theorem sound_of_handle {a' : Actor} {cmd : ChatStateCommand} (h : Sound a.state)
    (hrestore : ∀ snapshot, cmd ≠ .restoreSnapshot snapshot) (ha' : handleCommand env a cmd = some a') :
    Sound a'.state := by
  by_cases hharmless : Harmless env (some a) cmd
  · have hafter := (soundAfter_handle_iff h cmd).mpr hharmless
    rw [ha'] at hafter
    exact soundAfter_some.mp hafter
  · rw [handleCommand_eq_none hrestore hharmless] at ha'
    cases ha'

theorem spawn_healthy_iff (history : Conversation) (config : SamplingConfig) :
    Healthy (Actor.spawn history config) ↔ ∀ item ∈ history, Previewable item := by
  rw [healthy_iff_soundAfter, ← previewable_congr (heads_repaired .userCancelled history),
    ← estimateConversationTokens_isSome_iff]
  show SoundAfter ((ChatState.new history config).map _) ↔ _
  simp only [ChatState.new, repairedAtStart, repaired, bind_eq_bind]
  cases hestimate : estimateConversationTokens
      (repairDanglingToolCalls (dedupDuplicateToolResults history).1 .userCancelled).1 with
  | none => exact iff_of_false not_soundAfter_none (by simp)
  | some n =>
    have hitems : ∀ item ∈ (repairDanglingToolCalls (dedupDuplicateToolResults history).1
        .userCancelled).1, Previewable item :=
      estimateConversationTokens_isSome_iff.mp (by rw [hestimate]; rfl)
    refine iff_of_true (soundAfter_some.mpr ⟨hitems, fun cap hcap => ?_⟩) rfl
    cases hcap

/-- The actor stays healthy over exactly the runs that start from a history
that can be read and take harmless commands only. -/
theorem healthy_throughout_iff (env : Env) (history : Conversation) (config : SamplingConfig)
    (cmds : List ChatStateCommand) :
    Guided.Throughout (handle env) Healthy (Actor.spawn history config) cmds ↔
      (∀ item ∈ history, Previewable item) ∧
      Guided.EachStep (handle env) (Harmless env) (Actor.spawn history config) cmds := by
  rw [← spawn_healthy_iff history config]
  have hrun : Healthy (Actor.spawn history config) →
      (Guided.Throughout (handle env) Healthy (Actor.spawn history config) cmds ↔
        Guided.EachStep (handle env) (Harmless env) (Actor.spawn history config) cmds) := by
    intro hstart
    refine @Guided.throughout_iff_eachStep _ _ _ _ (fun _ => True) _ _ _ trivial hstart
      (fun _ _ _ => trivial) fun s cmd _ hs => ?_
    cases s with
    | none => exact absurd hs id
    | some a =>
      obtain ⟨a', ha', hsound⟩ := healthy_iff_soundAfter.mp hs
      cases ha'
      rw [healthy_iff_soundAfter, handle_some]
      exact soundAfter_handle_iff hsound cmd
  constructor
  · intro h
    have hstart : Healthy (Actor.spawn history config) := h [] nil_prefix
    exact ⟨hstart, (hrun hstart).mp h⟩
  · rintro ⟨hstart, hsteps⟩
    exact (hrun hstart).mpr hsteps

/-- A code interpreter call whose code has a two-byte character at the bytes 99 and 100. -/
def accentedCode : ConversationItem :=
  .backendToolCall (.codeInterpreter (some (List.replicate 99 'a' ++ "éb".toList)))

/-- An actor with the default pruning, in a build with assertions. -/
def devEnv : Env := ⟨.default, true, fun base _ _ => base, fun _ => 0⟩

theorem accentedCode_panics :
    ¬ Guided.Throughout (handle devEnv) Healthy (Actor.spawn [] ⟨[], 1⟩)
      [.pushAssistantResponse ⟨accentedCode, rfl⟩] := by
  intro h
  have hestimate : estimateItemTokens accentedCode = none := by decide +kernel
  have hkind : isAssistant accentedCode = false := rfl
  have hpush : ∀ a, pushMessage accentedCode a = none := by
    intro a
    simp only [pushMessage, hestimate, hkind, Bool.false_eq_true, if_false, bind_eq_bind,
      bind_none]
  have hall := h _ (prefix_refl _)
  rw [foldl_cons, foldl_nil] at hall
  cases hstart : Actor.spawn [] ⟨[], 1⟩ with
  | none =>
    rw [hstart] at hall
    exact hall
  | some a =>
    rw [hstart, handle_some, handleCommand, hpush] at hall
    exact hall

end GrokBuild.ChatActor
