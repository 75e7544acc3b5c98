import GrokBuild.ChatActor.Panics
import GrokBuild.ChatActor.Reload

/-!
# What a restart sees

The file starts as the loaded history, of which the actor holds the repaired
form. Until the file is rewritten, both grow by the same items, and once it is
rewritten they are the same (`Tracks.step`). A restart right after a user
message or a request then gives back the conversation in memory unless the
repair itself leaves something to repair, or the file still has the calls
unanswered that a pushed result comes behind (`restart_agrees_iff`).
-/

namespace GrokBuild.ChatActor

open TextLines ChatHistory ConversationItem Runs Str List Option

/-! ## The file and the conversation -/

/-- Until it is rewritten, the file is the loaded history and what was pushed
since; then it is the conversation. -/
structure Tracks (history : Conversation) (a : Actor) : Prop where
  same : a.disk.rewritten = true → a.disk.history = a.state.conversation
  extended : a.disk.rewritten = false → ∃ pushed, a.disk.history = history ++ pushed ∧
    a.state.conversation = repairedAtStart history ++ pushed

section Handlers

variable {env : Env} {history : Conversation} {a a' : Actor}

theorem tracks_overwritten (h : a.disk = ⟨a.state.conversation, true⟩) : Tracks history a where
  same _ := by rw [h]
  extended hnot := by
    rw [h] at hnot
    cases hnot

theorem Tracks.congr (h : Tracks history a)
    (hconversation : a'.state.conversation = a.state.conversation) (hdisk : a'.disk = a.disk) :
    Tracks history a' := by
  refine ⟨?_, ?_⟩
  · rw [hconversation, hdisk]
    exact h.same
  · rw [hconversation, hdisk]
    exact h.extended

theorem Tracks.push (h : Tracks history a) {item : ConversationItem}
    (hconversation : a'.state.conversation = a.state.conversation ++ [item])
    (hdisk : a'.disk = a.disk.persistMessage item) : Tracks history a' where
  same hrewritten := by
    rw [hdisk] at hrewritten ⊢
    rw [Disk.persistMessage_history, h.same hrewritten, hconversation]
  extended hrewritten := by
    rw [hdisk] at hrewritten ⊢
    obtain ⟨pushed, hfile, hmemory⟩ := h.extended hrewritten
    refine ⟨pushed ++ [item], ?_, ?_⟩
    · rw [Disk.persistMessage_history, hfile, append_assoc]
    · rw [hconversation, hmemory, append_assoc]

theorem heads_append (xs ys : Conversation) :
    heads toolResults (xs ++ ys) = heads toolResults xs ++ heads toolResults ys :=
  filter_append xs ys

theorem Tracks.heads_eq (h : Tracks history a) :
    heads toolResults a.disk.history = heads toolResults a.state.conversation := by
  cases hrewritten : a.disk.rewritten with
  | true => rw [h.same hrewritten]
  | false =>
    obtain ⟨pushed, hfile, hmemory⟩ := h.extended hrewritten
    have hloaded : heads toolResults (repairedAtStart history) = heads toolResults history :=
      heads_repaired .userCancelled history
    rw [hfile, hmemory, heads_append, heads_append, hloaded]

theorem find?_heads (generation : Nat) (items : Conversation) :
    (heads toolResults items).find? (ofGeneration generation) =
      items.find? (ofGeneration generation) := by
  rw [heads, find?_filter]
  congr 1
  funext item
  cases item with
  | toolResult tr => rfl
  | system | user | assistant | backendToolCall | reasoning => simp [toolResults, toolResult?]

theorem snapshotTurnSlice_spec {st st' : ChatState} (h : snapshotTurnSlice env st = some st') :
    st' = { st with turnCapture := st'.turnCapture } := by
  rw [snapshotTurnSlice] at h
  split at h
  · cases h
    rfl
  · simp only [bind_eq_bind, bind_eq_some_iff, some.injEq] at h
    obtain ⟨tail, -, rfl⟩ := h
    rfl

variable {reason : DanglingToolCallReason}

/-- Integrity repair leaves a settled conversation and its file; else it
rewrites both. -/
theorem integrity_spec (h : ensureConversationIntegrity env reason a = some a') :
    a'.state.promptIndex = a.state.promptIndex ∧
      (Settled a.state.conversation ∧ a'.state.conversation = a.state.conversation ∧
          a'.disk = a.disk ∨
        ¬ Settled a.state.conversation ∧
          a'.state.conversation = repaired reason a.state.conversation ∧
          a'.disk = ⟨a'.state.conversation, true⟩) := by
  simp only [ensureConversationIntegrity, bind_eq_bind, bind_eq_some_iff,
    some.injEq] at h
  obtain ⟨st, hst, rfl⟩ := h
  have hkept := snapshotTurnSlice_spec hst
  have hconversation : st.conversation = a.state.conversation := by rw [hkept]
  have hindex : st.promptIndex = a.state.promptIndex := by rw [hkept]
  refine ⟨hindex, ?_⟩
  rw [← repairs_eq_false_iff reason, hconversation]
  cases hrepairs : repairs reason a.state.conversation with
  | false =>
    have hsettled := (repairs_eq_false_iff reason).mp hrepairs
    exact .inl ⟨rfl, repaired_of_settled reason hsettled, rfl⟩
  | true => exact .inr ⟨by decide, rfl, rfl⟩

theorem tracks_integrity (h : Tracks history a)
    (ha' : ensureConversationIntegrity env reason a = some a') : Tracks history a' := by
  obtain ⟨-, ⟨-, hconversation, hdisk⟩ | ⟨-, -, hdisk⟩⟩ := integrity_spec ha'
  · exact h.congr hconversation hdisk
  · exact tracks_overwritten hdisk

variable {items : Conversation}

theorem tracks_replaceConversation {isCompaction : Bool}
    (ha' : replaceConversation env items isCompaction a = some a') : Tracks history a' := by
  simp only [replaceConversation, bind_eq_bind, bind_eq_some_iff,
    some.injEq] at ha'
  obtain ⟨st, -, n, -, rfl⟩ := ha'
  exact tracks_overwritten rfl

theorem tracks_prune (h : Tracks history a) {cleared : Nat}
    (ha' : pruneRetainedConversation env a = some (a', cleared)) : Tracks history a' := by
  rcases pruneRetainedConversation_spec env ha' with ⟨-, rfl⟩ | ⟨-, rfl⟩
  · exact h
  · exact tracks_overwritten rfl

theorem tracks_pushUserMessage (h : Tracks history a) {u : UserItem}
    (ha' : pushUserMessage env u reason a = some a') : Tracks history a' := by
  obtain ⟨b, b', cleared, hb, hconversation, -, -, hdisk, hprune⟩ := pushUserMessage_spec env ha'
  exact tracks_prune ((tracks_integrity h hb).push hconversation hdisk) hprune

/-- The switch is taken from the file, and the file has it where the
conversation has it. -/
theorem tracks_appendSwitch (h : Tracks history a) {content : Text} {generation : Nat}
    {outcome : AppendOutcome}
    (ha' : (appendWorkingDirectorySwitch content generation outcome a).map (·.1) = some a') :
    Tracks history a' := by
  simp only [appendWorkingDirectorySwitch] at ha'
  have hfind : a.disk.history.find? (ofGeneration generation) =
      a.state.conversation.find? (ofGeneration generation) := by
    rw [← find?_heads, h.heads_eq, find?_heads]
  cases hitem : authoritativeItem (workingDirectorySwitch content generation)
      (a.disk.persistSwitch generation (workingDirectorySwitch content generation) outcome).2 with
  | none =>
    rw [hitem] at ha'
    cases ha'
    exact h.congr rfl (persistSwitch_of_none hitem)
  | some item =>
    simp only [hitem, Option.map_map, map_eq_some_iff, Function.comp_apply] at ha'
    obtain ⟨st', hst', rfl⟩ := ha'
    obtain ⟨-, ⟨i, hi, hconversation⟩ | ⟨hnone, hconversation⟩⟩ :=
      convergeWorkingDirectorySwitch_spec hst'
    · obtain ⟨hlt, hp, hfirst⟩ := findIdx?_eq_some_iff_getElem.mp hi
      have hmemory : a.state.conversation.find? (ofGeneration generation) =
          some a.state.conversation[i] := by
        rw [find?_eq_some_iff_getElem]
        exact ⟨hp, i, hlt, rfl, fun j hj => by simpa using hfirst j hj⟩
      rcases persistSwitch_spec hitem with ⟨hfile, hdisk⟩ | ⟨hfile, -, -⟩
      · obtain rfl : item = a.state.conversation[i] := by
          rw [hfind, hmemory] at hfile
          exact (some.inj hfile).symm
        exact h.congr (hconversation.trans (set_getElem_self hlt)) hdisk
      · rw [hfind, hmemory] at hfile
        cases hfile
    · have hmemory : a.state.conversation.find? (ofGeneration generation) = none := by
        rw [find?_eq_none]
        exact fun item hmem => by simp [findIdx?_eq_none_iff.mp hnone item hmem]
      rcases persistSwitch_spec hitem with ⟨hfile, -⟩ | ⟨-, rfl, hdisk⟩
      · rw [hfind, hmemory] at hfile
        cases hfile
      · exact h.push hconversation hdisk

theorem injectMemoryReminder_unchanged {reminder : Text}
    (h : (injectMemoryReminder items reminder).2 = false) :
    (injectMemoryReminder items reminder).1 = items := by
  by_cases hempty : trim reminder = []
  · simp [injectMemoryReminder, hempty]
  · cases items with
    | nil => simp [injectMemoryReminder, hempty] at h
    | cons item rest =>
      cases item with
      | system content =>
        simp only [injectMemoryReminder, if_neg hempty, bne_eq_false_iff_eq] at h ⊢
        rw [← h]
      | user | assistant | toolResult | backendToolCall | reasoning =>
        simp [injectMemoryReminder, hempty] at h

variable {args : RequestArgs}

/-- The reminder is put into the file with the conversation, or nothing is done. -/
theorem persistReminder_spec {r : Actor × Option Text} (h : persistReminder env args a = some r) :
    (r.1.state.conversation = a.state.conversation ∧ r.1.disk = a.disk ∧
        ¬ (args.persistMemoryReminder = true ∧ ∃ reminder, args.memoryReminder = some reminder ∧
          (injectMemoryReminder a.state.conversation reminder).2 = true)) ∨
      ∃ reminder, args.persistMemoryReminder = true ∧ args.memoryReminder = some reminder ∧
        (injectMemoryReminder a.state.conversation reminder).2 = true ∧
        r.1.state.conversation = (injectMemoryReminder a.state.conversation reminder).1 ∧
        r.1.disk = ⟨r.1.state.conversation, true⟩ := by
  rw [persistReminder] at h
  cases hreminder : args.memoryReminder with
  | none =>
    rw [hreminder] at h
    cases h
    exact .inl ⟨rfl, rfl, by simp⟩
  | some reminder =>
    rw [hreminder] at h
    cases hpersist : args.persistMemoryReminder with
    | false =>
      rw [hpersist] at h
      cases h
      exact .inl ⟨rfl, rfl, by simp⟩
    | true =>
      simp only [hpersist, if_true, bind_eq_bind, bind_eq_some_iff,
        some.injEq] at h
      obtain ⟨st, hst, rfl⟩ := h
      have hconversation : st.conversation = a.state.conversation := by
        rw [snapshotTurnSlice_spec hst]
      rw [hconversation]
      cases hchanged : (injectMemoryReminder a.state.conversation reminder).2 with
      | false =>
        refine .inl ⟨injectMemoryReminder_unchanged hchanged, rfl, ?_⟩
        rintro ⟨-, reminder', hsome, hinjected⟩
        obtain rfl := some.inj hsome
        rw [hchanged] at hinjected
        cases hinjected
      | true => exact .inr ⟨reminder, rfl, rfl, hchanged, rfl, rfl⟩

theorem buildRequest_spec (h : (buildConversationRequestCommand env args a).map (·.1) = some a') :
    ∃ b r, ensureConversationIntegrity env .userCancelled a = some b ∧
      persistReminder env args b = some r ∧ r.1 = a' := by
  rw [buildConversationRequestCommand] at h
  cases hb : ensureConversationIntegrity env .userCancelled a with
  | none =>
    rw [hb] at h
    cases h
  | some b =>
    simp only [hb, bind_eq_bind, bind_some, buildConversationRequest_map] at h
    obtain ⟨r, hr, hra'⟩ := map_eq_some_iff.mp h
    exact ⟨b, r, rfl, hr, hra'⟩

theorem tracks_buildRequest (h : Tracks history a)
    (ha' : (buildConversationRequestCommand env args a).map (·.1) = some a') : Tracks history a' := by
  obtain ⟨b, r, hb, hr, rfl⟩ := buildRequest_spec ha'
  have htracks := tracks_integrity h hb
  rcases persistReminder_spec hr with ⟨hconversation, hdisk, -⟩ | ⟨_, -, -, -, -, hdisk⟩
  · exact htracks.congr hconversation hdisk
  · exact tracks_overwritten hdisk

theorem tracks_replaceSystemHead (h : Tracks history a) {prompt : Text}
    (ha' : (replaceSystemHead env prompt a).map (·.1) = some a') : Tracks history a' := by
  simp only [replaceSystemHead] at ha'
  split at ha'
  · cases ha'
    exact h
  · split at ha'
    · cases ha'
    · rw [Option.map_map, map_eq_some_iff] at ha'
      obtain ⟨b, hb, rfl⟩ := ha'
      exact tracks_replaceConversation hb

theorem tracks_repairHistory (h : Tracks history a) {dryRun : Bool}
    (ha' : (repairHistoryCommand env dryRun a).map (·.1) = some a') : Tracks history a' := by
  by_cases hunchanged : dryRun = true ∨ (repairHistory a.state.conversation).2.changed = false
  · rw [repairHistoryCommand_unchanged hunchanged ha']
    exact h
  · obtain ⟨rfl, hchanged⟩ : dryRun = false ∧
        (repairHistory a.state.conversation).2.changed = true := by simpa using hunchanged
    simp only [repairHistoryCommand, Bool.false_eq_true, if_false, hchanged, if_true,
      Option.map_map, map_eq_some_iff, Function.comp_apply, exists_eq_right] at ha'
    exact tracks_replaceConversation ha'

theorem tracks_truncate (h : Tracks history a) {target : Nat}
    (ha' : truncateToPromptIndex target a = some a') : Tracks history a' := by
  rw [truncateToPromptIndex] at ha'
  split at ha'
  · cases ha'
    exact h
  · simp only [bind_eq_bind, bind_eq_some_iff, some.injEq] at ha'
    obtain ⟨n, -, rfl⟩ := ha'
    exact tracks_overwritten rfl

variable {cmd : ChatStateCommand}

/-- Every command but the restore of a snapshot keeps file and conversation together. -/
theorem Tracks.step (h : Tracks history a) (hrestore : ∀ snapshot, cmd ≠ .restoreSnapshot snapshot)
    (ha' : handleCommand env a cmd = some a') : Tracks history a' := by
  cases cmd with
  | restoreSnapshot snapshot => exact absurd rfl (hrestore snapshot)
  | pushUserMessage | pushUserMessageWithRepairReason => exact tracks_pushUserMessage h ha'
  | pushAssistantResponse | pushToolResult =>
    obtain ⟨hconversation, -, hdisk⟩ := pushMessage_spec ha'
    exact h.push hconversation hdisk
  | appendWorkingDirectorySwitchAndAck => exact tracks_appendSwitch h ha'
  | replaceConversation => exact tracks_replaceConversation ha'
  | replaceSystemHead => exact tracks_replaceSystemHead h ha'
  | repairDanglingAfterHarnessHalt => exact tracks_integrity h ha'
  | buildConversationRequest => exact tracks_buildRequest h ha'
  | repairHistory dryRun turnActive =>
    rw [handleCommand] at ha'
    split at ha'
    · cases ha'
      exact h
    · exact tracks_repairHistory h ha'
  | truncateToPromptIndex target =>
    obtain ⟨b, hb, rfl⟩ := map_eq_some_iff.mp ha'
    exact (tracks_truncate h hb).congr rfl rfl
  | takeTurnMessages =>
    simp only [handleCommand, takeTurnMessages] at ha'
    split at ha'
    · cases ha'
      exact h
    · simp only [bind_eq_bind, Option.map_bind, bind_eq_some_iff,
        Function.comp_apply, map_some, some.injEq] at ha'
      obtain ⟨tail, -, rfl⟩ := ha'
      exact h.congr rfl rfl
  | recordTokenUsage totalTokens =>
    simp only [handleCommand, recordTokenUsage, bind_eq_bind, bind_eq_some_iff,
      some.injEq] at ha'
    obtain ⟨n, -, rfl⟩ := ha'
    exact h.congr rfl rfl
  | getEstimatedMessagesTokens =>
    obtain ⟨n, -, rfl⟩ := map_eq_some_iff.mp ha'
    exact h
  | flushHarnessTraceTurn | takeHarnessTraceTurns =>
    cases ha'
    exact h.congr (sealHarnessTraceTurn_conversation a.state).1 rfl
  | beginTurnCapture | incrementPromptIndex | updateSamplingConfig | cachePromptText
  | recordCompactionAt | appendHarnessTraceItems | bookkeeping =>
    cases ha'
    exact h.congr rfl rfl

/-! ## After a user message or a request -/

/-- Loading the file gives the conversation. -/
def RestartAgrees (a : Actor) : Prop :=
  ∀ config, (ChatState.new a.disk.history config).map (·.conversation) =
    some a.state.conversation

theorem restartAgrees_iff (hsound : Sound a.state) (h : Tracks history a) :
    RestartAgrees a ↔ repairedAtStart a.disk.history = a.state.conversation := by
  have hreadable : ∀ item ∈ repairedAtStart a.disk.history, Previewable item := by
    refine (previewable_congr (?_ : _ = heads toolResults a.state.conversation)).mpr
      hsound.previewable
    rw [← h.heads_eq]
    exact heads_repaired .userCancelled a.disk.history
  obtain ⟨n, hn⟩ := isSome_iff_exists.mp (estimateConversationTokens_isSome_iff.mpr hreadable)
  have hnew : ∀ config, (ChatState.new a.disk.history config).map (·.conversation) =
      some (repairedAtStart a.disk.history) := fun config => by
    simp only [ChatState.new, hn, bind_eq_bind, bind_some, map_some]
  constructor
  · intro hagrees
    exact some.inj ((hnew a.state.samplingConfig).symm.trans
      (hagrees a.state.samplingConfig))
  · intro hsame config
    rw [hnew config, hsame]

/-- The file has calls of the loaded history without a result, and a result
that was pushed directly behind them. -/
def Displaced (history : Conversation) (disk : Disk) : Prop :=
  disk.rewritten = false ∧ LeftUnanswered history ∧
    StartsWithResult (disk.history.drop history.length)

/-- When a file that was not rewritten goes with a settled conversation, a
restart agrees unless something is left to repair or a result is displaced. -/
theorem Tracks.reload_iff (h : Tracks history a)
    (hfresh : a.disk.rewritten = false → Settled a.state.conversation) :
    repairedAtStart a.disk.history = a.state.conversation ↔
      Settled a.state.conversation ∧ ¬ Displaced history a.disk := by
  cases hrewritten : a.disk.rewritten with
  | true =>
    have hnot : ¬ Displaced history a.disk := fun hdisplaced => by
      rw [hdisplaced.1] at hrewritten
      cases hrewritten
    rw [h.same hrewritten, and_iff_left hnot]
    exact repaired_eq_self_iff
  | false =>
    have hsettled := hfresh hrewritten
    obtain ⟨pushed, hfile, hmemory⟩ := h.extended hrewritten
    rw [and_iff_right hsettled, Displaced, hfile, hmemory, drop_left, hrewritten]
    rw [hmemory] at hsettled
    rw [ChatActor.reload_iff hsettled, eq_self, true_and]

theorem settled_concat_user {u : UserItem} : Settled (items ++ [.user u]) ↔ Settled items := by
  have huser : cut toolResults [.user u] = ⟨[], [(.user u, [])]⟩ := rfl
  have hrun : SettledRun (.user u) [] := .inl rfl
  rw [Settled, cut_append, huser, Settled]
  rcases eq_nil_or_concat' (cut toolResults items).blocks with hnil | ⟨bs, b, hbs⟩
  · rw [Cut.append_of_nil hnil, hnil]
    simpa using hrun
  · rw [Cut.append_of_concat _ _ hbs, hbs]
    simp [or_imp, forall_and, hrun]

theorem settled_injectMemoryReminder {reminder : Text} :
    Settled (injectMemoryReminder items reminder).1 ↔ Settled items := by
  have hsystem : ∀ content (rest : Conversation), Settled (.system content :: rest) ↔
      ∀ b ∈ (cut toolResults rest).blocks, SettledRun b.1 b.2 := by
    intro content rest
    have hhead : toolResults.Head (.system content) := rfl
    have hrun : SettledRun (.system content) (cut toolResults rest).lead := .inl rfl
    rw [Settled, cut_head _ hhead, forall_mem_cons, and_iff_right hrun]
  by_cases hempty : trim reminder = []
  · simp [injectMemoryReminder, hempty]
  · cases items with
    | nil =>
      simp only [injectMemoryReminder, if_neg hempty]
      exact hsystem _ _
    | cons item rest =>
      cases item with
      | system content =>
        simp only [injectMemoryReminder, if_neg hempty]
        exact (hsystem _ _).trans (hsystem _ _).symm
      | user | assistant | toolResult | backendToolCall | reasoning =>
        simp only [injectMemoryReminder, if_neg hempty]
        exact hsystem _ _

/-- The commands after which the claim of a restart is made: a user message, a request. -/
def RestartPoint : ChatStateCommand → Prop
  | .pushUserMessage _ | .pushUserMessageWithRepairReason _ _ | .buildConversationRequest _ => True
  | _ => False

/-- The command rewrites a file whose conversation needs no repair: it prunes
a result, or puts the memory reminder in. -/
def Rewrites (env : Env) (st : ChatState) : ChatStateCommand → Prop
  | .pushUserMessage u | .pushUserMessageWithRepairReason u _ =>
    Clears env { st with conversation := st.conversation ++ [.user u.item] }
  | .buildConversationRequest args =>
    args.persistMemoryReminder = true ∧ ∃ reminder, args.memoryReminder = some reminder ∧
      (injectMemoryReminder st.conversation reminder).2 = true
  | _ => False

theorem not_displaced_overwritten : ¬ Displaced history ⟨items, true⟩ :=
  fun h => nomatch h.1

theorem Tracks.displaced_push (h : Tracks history a) (u : UserItem) :
    Displaced history (a.disk.persistMessage (.user u)) ↔ Displaced history a.disk := by
  simp only [Displaced, Disk.persistMessage_rewritten, Disk.persistMessage_history,
    and_congr_right_iff]
  intro hrewritten _
  obtain ⟨pushed, hfile, -⟩ := h.extended hrewritten
  rw [hfile, append_assoc, drop_left, drop_left]
  cases pushed with
  | nil => simp [StartsWithResult]
  | cons item pushed => simp [StartsWithResult]

/-- What a restart point leaves of what a restart depends on. -/
structure AfterPoint (history : Conversation) (env : Env) (a : Actor) (cmd : ChatStateCommand)
    (a' : Actor) : Prop where
  settled : Settled a'.state.conversation ↔ RepeatedIdsAnswered a.state.conversation
  fresh : a'.disk.rewritten = false → Settled a'.state.conversation
  displaced : Displaced history a'.disk ↔
    Displaced history a.disk ∧ Settled a.state.conversation ∧ ¬ Rewrites env a.state cmd

theorem repeatedIdsAnswered_of_settled (h : Settled items) : RepeatedIdsAnswered items := by
  rw [← settled_repaired_iff .userCancelled, repaired_of_settled .userCancelled h]
  exact h

/-- After the integrity repair, whatever a point does next keeps `Settled`
and either keeps the file or overwrites it. -/
theorem afterPoint_of_integrity {b : Actor} (hb : ensureConversationIntegrity env reason a = some b)
    (hsettled : Settled a'.state.conversation ↔ Settled b.state.conversation)
    (hkept : b.disk.rewritten = true → a'.disk.rewritten = true)
    (hfile : b.state.conversation = a.state.conversation → b.disk = a.disk → (Displaced history a'.disk ↔ Displaced history a.disk ∧ ¬ Rewrites env a.state cmd)) :
    AfterPoint history env a cmd a' := by
  obtain ⟨-, ⟨hwas, hconversation, hdisk⟩ | ⟨hwas, hconversation, hdisk⟩⟩ := integrity_spec hb
  · have hstill : Settled a'.state.conversation := hsettled.mpr (hconversation ▸ hwas)
    refine ⟨?_, fun _ => hstill, ?_⟩
    · exact iff_of_true hstill (repeatedIdsAnswered_of_settled hwas)
    · rw [hfile hconversation hdisk, and_iff_right hwas]
  · rw [hconversation] at hsettled
    have hrewritten : a'.disk.rewritten = true := hkept (by rw [hdisk])
    refine ⟨hsettled.trans (settled_repaired_iff _), fun hnot => ?_, ?_⟩
    · rw [hnot] at hrewritten
      cases hrewritten
    · refine iff_of_false (fun hdisplaced => ?_) fun hdisplaced => hwas hdisplaced.2.1
      rw [hdisplaced.1] at hrewritten
      cases hrewritten

theorem afterPoint_pushUserMessage (h : Tracks history a) {u : PushedUserItem}
    (hcmd : Rewrites env a.state cmd ↔ Clears env { a.state with conversation := a.state.conversation ++ [.user u.item] })
    (ha' : pushUserMessage env u.item reason a = some a') : AfterPoint history env a cmd a' := by
  obtain ⟨b, b', cleared, hb, hconversation, -, hindex, hdisk, hprune⟩ := pushUserMessage_spec env ha'
  have hb' : Settled b'.state.conversation ↔ Settled b.state.conversation := by
    rw [hconversation]
    exact settled_concat_user
  have hclears : b.state.conversation = a.state.conversation →
      (Rewrites env a.state cmd ↔ Clears env b'.state) := fun hkept => by
    rw [hcmd, clears_congr]
    · rw [hconversation, hkept]
    · rw [hindex, (integrity_spec hb).1]
  rcases pruneRetainedConversation_spec env hprune with ⟨hnone, rfl⟩ | ⟨hsome, rfl⟩
  · refine afterPoint_of_integrity hb hb' (fun hrewritten => ?_) fun hkept hsame => ?_
    · rw [hdisk]
      exact hrewritten
    · rw [hdisk, hsame, h.displaced_push, hclears hkept, and_iff_left hnone]
  · have hpruned : Settled (pruneWith (hardClear (effectiveThreshold env b'.state))
        b'.state.conversation) ↔ Settled b'.state.conversation :=
      settled_congr (pruneWith_skeleton (hardClear_id _) _)
    refine afterPoint_of_integrity hb (hpruned.trans hb') (fun _ => rfl) fun hkept _ => ?_
    exact iff_of_false not_displaced_overwritten fun hnot => hnot.2 ((hclears hkept).mpr hsome)

theorem afterPoint_buildRequest
    (ha' : (buildConversationRequestCommand env args a).map (·.1) = some a') :
    AfterPoint history env a (.buildConversationRequest args) a' := by
  obtain ⟨b, r, hb, hr, rfl⟩ := buildRequest_spec ha'
  rcases persistReminder_spec hr with ⟨hconversation, hdisk, hnone⟩ |
    ⟨reminder, hpersist, hreminder, hinjected, hconversation, hdisk⟩
  · refine afterPoint_of_integrity hb (by rw [hconversation]) (fun hrewritten => ?_)
      fun hkept hsame => ?_
    · rw [hdisk]
      exact hrewritten
    · rw [hkept] at hnone
      rw [hdisk, hsame]
      exact (and_iff_left hnone).symm
  · refine afterPoint_of_integrity hb ?_ (fun _ => by rw [hdisk]) fun hkept _ => ?_
    · rw [hconversation]
      exact settled_injectMemoryReminder
    · rw [hdisk]
      refine iff_of_false not_displaced_overwritten fun hnot => hnot.2 ?_
      exact ⟨hpersist, reminder, hreminder, hkept ▸ hinjected⟩

theorem afterPoint (h : Tracks history a) (hcmd : RestartPoint cmd)
    (ha' : handleCommand env a cmd = some a') : AfterPoint history env a cmd a' := by
  cases cmd with
  | pushUserMessage u => exact afterPoint_pushUserMessage h Iff.rfl ha'
  | pushUserMessageWithRepairReason u reason => exact afterPoint_pushUserMessage h Iff.rfl ha'
  | buildConversationRequest args => exact afterPoint_buildRequest ha'
  | _ => exact absurd hcmd id

end Handlers

/-! ## Over a run -/

/-- Right after a restart point that the actor survives, a restart agrees. -/
def AgreesAfter (env : Env) (s : Option Actor) (cmd : ChatStateCommand) : Prop :=
  RestartPoint cmd → ∀ a, handle env s cmd = some a → RestartAgrees a

/-- Before a restart point: each call id that an item declares twice has a
result behind the item, and a displaced result is repaired or rewritten away. -/
def NothingLost (env : Env) (history : Conversation) (s : Option Actor)
    (cmd : ChatStateCommand) : Prop :=
  RestartPoint cmd → ∀ a, s = some a →
    RepeatedIdsAnswered a.state.conversation ∧
      (Displaced history a.disk → ¬ Settled a.state.conversation ∨ Rewrites env a.state cmd)

/-- What holds of the actor along a run. -/
def Loaded (history : Conversation) (s : Option Actor) : Prop :=
  ∀ a, s = some a → Sound a.state ∧ Tracks history a

theorem loaded_spawn (history : Conversation) (config : SamplingConfig) :
    Loaded history (Actor.spawn history config) := by
  rintro a ha
  obtain ⟨st, hst, rfl⟩ := map_eq_some_iff.mp ha
  simp only [ChatState.new, bind_eq_bind, bind_eq_some_iff,
    some.injEq] at hst
  obtain ⟨n, hn, rfl⟩ := hst
  refine ⟨⟨?_, ?_⟩, ?_, fun _ => ⟨[], (append_nil _).symm, (append_nil _).symm⟩⟩
  · exact estimateConversationTokens_isSome_iff.mp (by rw [hn]; rfl)
  · intro cap hcap
    cases hcap
  · intro hrewritten
    cases hrewritten

theorem Loaded.step {env : Env} {history : Conversation} {s : Option Actor}
    {cmd : ChatStateCommand} (h : Loaded history s)
    (hrestore : ∀ snapshot, cmd ≠ .restoreSnapshot snapshot) :
    Loaded history (handle env s cmd) := by
  intro a' ha'
  obtain ⟨a, rfl, hstep⟩ := bind_eq_some_iff.mp ha'
  obtain ⟨hsound, htracks⟩ := h a rfl
  exact ⟨sound_of_handle hsound hrestore hstep, htracks.step hrestore hstep⟩

theorem agreesAfter_iff {env : Env} {history : Conversation} {s : Option Actor}
    {cmd : ChatStateCommand} (h : Loaded history s) :
    AgreesAfter env s cmd ↔ NothingLost env history s cmd := by
  cases s with
  | none => exact iff_of_true (fun _ _ ha => nomatch ha) fun _ _ ha => nomatch ha
  | some a =>
    obtain ⟨hsound, htracks⟩ := h a rfl
    refine imp_congr_right fun hcmd => ?_
    have hrestore : ∀ snapshot, cmd ≠ .restoreSnapshot snapshot := by
      rintro snapshot rfl
      exact hcmd
    -- a restart point brings no item from outside but a user message, so it does not panic
    have hharmless : Harmless env (some a) cmd := by
      cases cmd with
      | pushUserMessage | pushUserMessageWithRepairReason | buildConversationRequest =>
        exact ⟨forall_mem_nil _, nofun⟩
      | _ => exact absurd hcmd id
    obtain ⟨a', ha', hsound'⟩ := (soundAfter_handle_iff hsound cmd).mpr hharmless
    have htracks' := htracks.step hrestore ha'
    obtain ⟨hsettled, hfresh, hdisplaced⟩ := afterPoint htracks hcmd ha'
    have hagrees : RestartAgrees a' ↔ RepeatedIdsAnswered a.state.conversation ∧
        (Displaced history a.disk → ¬ Settled a.state.conversation ∨ Rewrites env a.state cmd) := by
      rw [restartAgrees_iff hsound' htracks', htracks'.reload_iff hfresh, hsettled, hdisplaced]
      tauto
    simp only [handle_some, ha', some.injEq, forall_eq', hagrees]

/-- A restart right after a user message or a request sees the conversation
of the actor exactly in the runs where nothing is lost at any of them. -/
theorem restart_agrees_iff (env : Env) (history : Conversation) (config : SamplingConfig)
    (cmds : List ChatStateCommand)
    (hcmds : ∀ cmd ∈ cmds, ∀ snapshot, cmd ≠ .restoreSnapshot snapshot) :
    Guided.EachStep (handle env) (AgreesAfter env) (Actor.spawn history config) cmds ↔
      Guided.EachStep (handle env) (NothingLost env history) (Actor.spawn history config) cmds :=
  Guided.eachStep_congr (loaded_spawn history config)
    (fun _ cmd hcmd h => h.step (hcmds cmd hcmd)) fun _ _ h => agreesAfter_iff h

/-! ## A turn that was killed -/

/-- A user message. -/
def helloMessage : PushedUserItem := ⟨⟨[.text "hello".toList], none, none, none⟩, rfl⟩

/-- A turn that was killed in the middle of its tool call. -/
def killedHistory : Conversation := [.assistant ⟨[], [⟨"c1".toList, "read".toList, []⟩]⟩]

/-- The start fills in a result. -/
theorem repairedAtStart_killedHistory : repairedAtStart killedHistory = killedHistory ++
    [.ofToolResult "c1".toList (syntheticDanglingResultText "read".toList .userCancelled)] := by
  rw [repairedAtStart_eq]
  rfl

theorem settled_killedHistory : Settled (repairedAtStart killedHistory) := by
  rw [repairedAtStart_killedHistory]
  refine forall_mem_singleton.mpr (.inr ⟨?_, ?_⟩)
  · decide
  · decide

theorem spawn_killedHistory : ∃ a, Actor.spawn killedHistory ⟨[], 1⟩ = some a ∧
    a.state.conversation = repairedAtStart killedHistory ∧ a.state.promptIndex = 0 ∧
    a.disk = ⟨killedHistory, false⟩ := by
  simp only [Actor.spawn, ChatState.new, repairedAtStart_killedHistory]
  exact ⟨_, rfl, rfl, rfl, rfl⟩

theorem restart_agrees_killedHistory :
    Guided.EachStep (handle devEnv) (AgreesAfter devEnv) (Actor.spawn killedHistory ⟨[], 1⟩)
      [.pushUserMessage helloMessage] := by
  refine (restart_agrees_iff devEnv killedHistory ⟨[], 1⟩ [.pushUserMessage helloMessage] ?_).mpr ?_
  · intro cmd hcmd snapshot heq
    rw [mem_singleton.mp hcmd] at heq
    cases heq
  · obtain ⟨a, hspawn, hmemory, -, hdisk⟩ := spawn_killedHistory
    rw [hspawn]
    refine Guided.eachStep_cons.mpr ⟨fun _ b hb => ?_, Guided.eachStep_nil⟩
    obtain rfl := some.inj hb
    refine ⟨repeatedIdsAnswered_of_settled (hmemory ▸ settled_killedHistory), fun hdisplaced => ?_⟩
    -- nothing was pushed yet, so no result stands behind the call in the file
    obtain ⟨-, -, _, hresult⟩ := hdisk ▸ hdisplaced
    cases hresult

/-! ## A result behind calls that the file has unanswered -/

/-- The result of another call. -/
def lateResult : PushedItem := ⟨.ofToolResult "c2".toList "done".toList, rfl⟩

/-- In memory the result comes behind the one that was filled in for the
killed call, after a restart in front of it. -/
theorem late_result_displaced :
    ¬ Guided.EachStep (handle devEnv) (AgreesAfter devEnv) (Actor.spawn killedHistory ⟨[], 1⟩)
      [.pushToolResult lateResult, .pushUserMessage helloMessage] := by
  obtain ⟨a, hspawn, hmemory, hindex, hdisk⟩ := spawn_killedHistory
  obtain ⟨a', hpush, hmemory', hindex', hdisk'⟩ :
      ∃ a', handleCommand devEnv a (.pushToolResult lateResult) = some a' ∧
        a'.state.conversation = a.state.conversation ++ [lateResult.item] ∧
        a'.state.promptIndex = a.state.promptIndex ∧
        a'.disk = a.disk.persistMessage lateResult.item := ⟨_, rfl, rfl, rfl, rfl⟩
  rw [hspawn, Guided.eachStep_cons, Guided.eachStep_cons, handle_some, hpush]
  rintro ⟨-, hagrees, -⟩
  have hloaded' : Loaded killedHistory (some a') := by
    rw [← hpush, ← handle_some, ← hspawn]
    refine (loaded_spawn killedHistory ⟨[], 1⟩).step fun snapshot heq => ?_
    cases heq
  obtain ⟨-, hkept⟩ := (agreesAfter_iff hloaded').mp hagrees trivial a' rfl
  have hdisplaced : Displaced killedHistory a'.disk := by
    rw [hdisk', hdisk]
    exact ⟨rfl, ⟨_, rfl, "c1".toList, by decide, by decide⟩, _, rfl⟩
  rcases hkept hdisplaced with hunsettled | hclears
  · rw [hmemory', hmemory, repairedAtStart_killedHistory] at hunsettled
    refine hunsettled (forall_mem_singleton.mpr (.inr ⟨?_, ?_⟩))
    · decide
    · decide
  · have hold := hclears.2.1
    rw [hindex', hindex] at hold
    exact absurd hold (by decide)

end GrokBuild.ChatActor
