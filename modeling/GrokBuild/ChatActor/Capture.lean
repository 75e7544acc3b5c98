import GrokBuild.ChatActor.Panics

/-!
# What a turn capture returns

Between `BeginTurnCapture` and `TakeTurnMessages` the capture holds what was
pushed: the saved part and the tail of the conversation. A handler that
replaces the vector saves the tail first (`Capturing.save`), a push grows it.
The history repair saves the tail of the vector it has just taken out, which
is empty (`capturing_repairHistory`).
-/

namespace GrokBuild.ChatActor

open TextLines ChatHistory ConversationItem Runs List Option

/-- A switch whose first item lies in the tail of the capture is in the file as it is there. -/
def TailSwitchesPersisted (a : Actor) : Prop :=
  ∀ cap, a.state.turnCapture = some cap → ∀ generation i,
    a.state.conversation.findIdx? (ofGeneration generation) = some i → cap.turnStartOffset ≤ i →
    a.disk.history.find? (ofGeneration generation) = a.state.conversation[i]?

/-- A capture is active and holds the messages. -/
structure Capturing (a : Actor) (messages : Conversation) : Prop where
  active : ∃ cap, a.state.turnCapture = some cap ∧
    cap.turnStartOffset ≤ a.state.conversation.length ∧
    messages = cap.preReplacementMessages ++ a.state.conversation.drop cap.turnStartOffset
  switches : TailSwitchesPersisted a

/-- The items a command pushes. -/
def pushedBy (a : Actor) : ChatStateCommand → Conversation
  | .pushUserMessage u | .pushUserMessageWithRepairReason u _ => [.user u.item]
  | .appendWorkingDirectorySwitchAndAck content generation outcome =>
    let candidate := workingDirectorySwitch content generation
    match authoritativeItem candidate (a.disk.persistSwitch generation candidate outcome).2 with
    | some item => if a.state.conversation.any (ofGeneration generation) then [] else [item]
    | none => []
  | .pushAssistantResponse x | .pushToolResult x => [x.item]
  | _ => []

/-- The items pushed over a run, in order. -/
def pushedDuring (env : Env) : Option Actor → List ChatStateCommand → Conversation
  | _, [] => []
  | none, _ => []
  | some a, cmd :: cmds => pushedBy a cmd ++ pushedDuring env (handleCommand env a cmd) cmds

/-- A history repair that changes the conversation while the capture has a tail. -/
def LosesTail : Option Actor → ChatStateCommand → Prop
  | some a, .repairHistory false false =>
    (repairHistory a.state.conversation).2.changed = true ∧
      ∃ cap, a.state.turnCapture = some cap ∧
        cap.turnStartOffset < a.state.conversation.length
  | _, _ => False

/-- A command that neither starts, ends nor abandons a capture. -/
def WithinTurn : ChatStateCommand → Prop
  | .beginTurnCapture | .takeTurnMessages | .truncateToPromptIndex _ => False
  | _ => True

/-! ## Saving the tail -/

section Handlers

variable {env : Env} {a a' : Actor} {messages : Conversation}

theorem Capturing.inside (h : Capturing a messages) : CaptureInside a.state := by
  intro cap hcap
  obtain ⟨cap', hcap', hin, -⟩ := h.active
  rw [hcap', some.injEq] at hcap
  exact hcap ▸ hin

theorem capturing_of_end (cap : TurnCaptureState) (hcap : a.state.turnCapture = some cap)
    (hend : cap.turnStartOffset = a.state.conversation.length)
    (hsaved : cap.preReplacementMessages = messages) : Capturing a messages where
  active := ⟨cap, hcap, hend.le, by rw [hend, drop_length, append_nil, hsaved]⟩
  switches := by
    intro cap' hcap' generation i hi hle
    rw [hcap, some.injEq] at hcap'
    have hlt : i < a.state.conversation.length := (findIdx?_eq_some_iff_findIdx_eq.mp hi).1
    rw [← hcap', hend] at hle
    omega

theorem Capturing.save (h : Capturing a messages)
    (hsave : ∀ cap, a.state.turnCapture = some cap → ∃ compacted,
      a'.state.turnCapture = some ⟨a'.state.conversation.length,
        cap.preReplacementMessages ++ a.state.conversation.drop cap.turnStartOffset,
        compacted⟩) : Capturing a' messages := by
  obtain ⟨cap, hcap, -, rfl⟩ := h.active
  obtain ⟨compacted, hcap'⟩ := hsave cap hcap
  exact capturing_of_end _ hcap' rfl rfl

theorem Capturing.congr (h : Capturing a messages)
    (hconversation : a'.state.conversation = a.state.conversation)
    (hcapture : a'.state.turnCapture = a.state.turnCapture) (hdisk : a'.disk = a.disk) :
    Capturing a' messages where
  active := by
    rw [hconversation, hcapture]
    exact h.active
  switches := by
    rw [TailSwitchesPersisted, hconversation, hcapture, hdisk]
    exact h.switches

theorem capturing_integrity (h : Capturing a messages) {reason : DanglingToolCallReason}
    (ha' : ensureConversationIntegrity env reason a = some a') :
    Capturing a' messages ∧
      ∀ cap, a'.state.turnCapture = some cap →
        cap.turnStartOffset = a'.state.conversation.length := by
  rw [ensureConversationIntegrity, snapshotTurnSlice_of_inside h.inside] at ha'
  simp only [bind_eq_bind, bind_some, some.injEq] at ha'
  subst ha'
  refine ⟨h.save fun cap hcap => ?_, fun cap hcap => ?_⟩
  · simp only [rebaseTurnCaptureOffset, hcap, map_some]
    exact ⟨_, rfl⟩
  · obtain ⟨old, -, rfl⟩ := map_eq_some_iff.mp hcap
    rfl

variable {items : Conversation}

theorem capturing_replaceConversation (h : Capturing a messages) {isCompaction : Bool}
    (ha' : replaceConversation env items isCompaction a = some a') : Capturing a' messages := by
  simp only [replaceConversation, snapshotTurnSlice_of_inside h.inside, bind_eq_bind,
    bind_some, bind_eq_some_iff, some.injEq] at ha'
  obtain ⟨n, -, rfl⟩ := ha'
  refine h.save fun cap hcap => ?_
  simp only [rebaseTurnCaptureOffset, hcap, map_some]
  exact ⟨_, rfl⟩

theorem capturing_restoreSnapshot (h : Capturing a messages) {snap : ChatStateSnapshot}
    (ha' : restoreSnapshot env snap a = some a') : Capturing a' messages := by
  simp only [restoreSnapshot, snapshotTurnSlice_of_inside h.inside, bind_eq_bind,
    bind_some] at ha'
  have hshape : ∃ st, a' = ⟨st, a.disk⟩ ∧ st.conversation = snap.conversation ∧
      st.turnCapture = a.state.turnCapture.map fun cap =>
        cap.savedAt a.state.conversation snap.conversation.length := by
    split at ha'
    · cases ha'
      refine ⟨_, rfl, rfl, ?_⟩
      cases a.state.turnCapture <;> rfl
    · rw [bind_eq_some_iff] at ha'
      obtain ⟨n, -, ha'⟩ := ha'
      cases ha'
      refine ⟨_, rfl, rfl, ?_⟩
      cases a.state.turnCapture <;> rfl
  obtain ⟨st, rfl, hconversation, hcapture⟩ := hshape
  refine h.save fun cap hcap => ?_
  simp only [hconversation, hcapture, hcap, map_some]
  exact ⟨_, rfl⟩

theorem capturing_replaceSystemHead (h : Capturing a messages) {prompt : Text}
    (ha' : (replaceSystemHead env prompt a).map (·.1) = some a') : Capturing a' messages := by
  simp only [replaceSystemHead] at ha'
  split at ha'
  · cases ha'
    exact h
  · split at ha'
    · cases ha'
    · simp only [Option.map_map, map_eq_some_iff] at ha'
      obtain ⟨b, hb, rfl⟩ := ha'
      exact capturing_replaceConversation h hb

theorem capturing_buildRequest (h : Capturing a messages) {args : RequestArgs}
    (ha' : (buildConversationRequestCommand env args a).map (·.1) = some a') :
    Capturing a' messages := by
  rw [buildConversationRequestCommand] at ha'
  cases hintegrity : ensureConversationIntegrity env .userCancelled a with
  | none =>
    rw [hintegrity] at ha'
    cases ha'
  | some b =>
    have hb := (capturing_integrity h hintegrity).1
    simp only [hintegrity, bind_eq_bind, bind_some, buildConversationRequest_map]
      at ha'
    rw [persistReminder] at ha'
    split at ha'
    · split at ha'
      · simp only [snapshotTurnSlice_of_inside hb.inside, bind_eq_bind, bind_some,
          map_some, some.injEq] at ha'
        subst ha'
        refine hb.save fun cap hcap => ?_
        simp only [rebaseTurnCaptureOffset, hcap, map_some]
        exact ⟨_, rfl⟩
      · cases ha'
        exact hb
    · cases ha'
      exact hb

/-! ## Pushes -/

variable {c : Conversation} {item : ConversationItem}

theorem findIdx?_append_plain (hplain : item.workingDirectorySwitchGeneration = none)
    (generation : Nat) :
    (c ++ [item]).findIdx? (ofGeneration generation) = c.findIdx? (ofGeneration generation) := by
  have hno : [item].findIdx? (ofGeneration generation) = none := by
    simp [ofGeneration, hplain]
  rw [findIdx?_append, hno]
  simp

theorem find?_append_plain (hplain : item.workingDirectorySwitchGeneration = none) (generation : Nat) :
    (c ++ [item]).find? (ofGeneration generation) = c.find? (ofGeneration generation) := by
  have hno : [item].find? (ofGeneration generation) = none := by
    simp [ofGeneration, hplain]
  rw [find?_append, hno, or_none]

theorem Capturing.push (h : Capturing a messages)
    (hplain : item.workingDirectorySwitchGeneration = none)
    (hconversation : a'.state.conversation = a.state.conversation ++ [item])
    (hcapture : a'.state.turnCapture = a.state.turnCapture)
    (hdisk : a'.disk = a.disk.persistMessage item) : Capturing a' (messages ++ [item]) where
  active := by
    obtain ⟨cap, hcap, hin, rfl⟩ := h.active
    refine ⟨cap, hcapture.trans hcap, ?_, ?_⟩
    · rw [hconversation, length_append]
      omega
    · rw [hconversation, drop_append_of_le_length hin, append_assoc]
  switches := by
    intro cap hcap generation i hi hle
    rw [hconversation, findIdx?_append_plain hplain] at hi
    have hlt : i < a.state.conversation.length := (findIdx?_eq_some_iff_findIdx_eq.mp hi).1
    rw [hdisk, Disk.persistMessage_history, find?_append_plain hplain, hconversation,
      getElem?_append_left hlt]
    exact h.switches cap (hcapture ▸ hcap) generation i hi hle

theorem capturing_pushMessage (h : Capturing a messages) {x : PushedItem}
    (ha' : pushMessage x.item a = some a') : Capturing a' (messages ++ [x.item]) := by
  obtain ⟨hconversation, hcapture, hdisk⟩ := pushMessage_spec ha'
  exact h.push x.plain hconversation hcapture hdisk

theorem pruneWith_concat_user (f : Nat → ToolResultItem → ToolResultItem) (c : Conversation)
    (u : UserItem) :
    pruneWith f (c ++ [.user u]) = (pruneBackward f 0 true c.reverse).reverse ++ [.user u] := by
  rw [pruneWith, reverse_append, reverse_singleton, singleton_append,
    pruneBackward, reverse_cons]
  rfl

theorem capturing_prune {u : UserItem} (h : Capturing a messages)
    (hconversation : a.state.conversation = c ++ [.user u])
    (hend : ∀ cap, a.state.turnCapture = some cap → cap.turnStartOffset = c.length)
    (hplain : (ConversationItem.user u).workingDirectorySwitchGeneration = none) {cleared : Nat}
    (ha' : pruneRetainedConversation env a = some (a', cleared)) : Capturing a' messages := by
  have hprune : ∀ disk, Capturing
      ⟨{ a.state with
        conversation := pruneWith (hardClear (effectiveThreshold env a.state))
          a.state.conversation }, disk⟩ messages := by
    intro disk
    obtain ⟨cap, hcap, hin, rfl⟩ := h.active
    have hoffset := hend cap hcap
    have hlen : ∀ f : Nat → ToolResultItem → ToolResultItem,
        (pruneBackward f 0 true c.reverse).reverse.length = c.length := fun f => by
      rw [length_reverse, length_pruneBackward, length_reverse]
    have htail : ∀ f : Nat → ToolResultItem → ToolResultItem,
        (pruneWith f (c ++ [.user u])).drop c.length = [.user u] := fun f => by
      rw [pruneWith_concat_user, drop_append_of_le_length (hlen f).ge]
      simp [hlen f]
    refine ⟨⟨cap, hcap, ?_, ?_⟩, ?_⟩
    · simp only [hconversation, pruneWith_concat_user, length_append, hlen, hoffset]
      omega
    · simp only [hconversation, hoffset, htail, drop_left]
    · intro cap' hcap' generation i hi hle
      have hcc : cap = cap' := some.inj (hcap.symm.trans hcap')
      -- the only item of the tail is no switch
      rw [← hcc, hoffset] at hle
      simp only [hconversation, pruneWith_concat_user] at hi
      rw [findIdx?_append_plain hplain] at hi
      have hlt := (findIdx?_eq_some_iff_findIdx_eq.mp hi).1
      rw [hlen] at hlt
      omega
  rcases pruneRetainedConversation_spec env ha' with ⟨-, rfl⟩ | ⟨-, rfl⟩
  · exact h
  · exact hprune _

theorem capturing_pushUserMessage (h : Capturing a messages) {u : PushedUserItem}
    {reason : DanglingToolCallReason} (ha' : pushUserMessage env u.item reason a = some a') :
    Capturing a' (messages ++ [.user u.item]) := by
  obtain ⟨b, b', cleared, hb, hconversation, hcapture, -, hdisk, hprune⟩ :=
    pushUserMessage_spec env ha'
  obtain ⟨hcapturing, hend⟩ := capturing_integrity h hb
  have hpush := hcapturing.push u.plain hconversation hcapture hdisk
  exact capturing_prune hpush hconversation (fun cap hcap => hend cap (hcapture ▸ hcap)) u.plain
    hprune

/-! ## The working-directory switch -/

/-- Which item comes first depends only on which items are of the generation. -/
theorem findIdx?_set {p : ConversationItem → Bool} {i : Nat} {old new : ConversationItem}
    (hold : items[i]? = some old) (hp : p new = p old) :
    (items.set i new).findIdx? p = items.findIdx? p := by
  have hmap : (items.set i new).map p = items.map p := by
    obtain ⟨hi, rfl⟩ := List.getElem?_eq_some_iff.mp hold
    rw [map_set, hp]
    exact ext_getElem (by simp) fun j hj hj' => by
      by_cases hij : i = j
      · simp [hij]
      · simp [hij]
  have hcomp : ∀ l : Conversation, l.findIdx? p = (l.map p).findIdx? id := fun l => by
    rw [findIdx?_map]
    rfl
  rw [hcomp, hmap, ← hcomp]

variable {generation : Nat}

theorem generation_of_findIdx? {i : Nat} (h : items.findIdx? (ofGeneration generation) = some i) :
    ∃ item, items[i]? = some item ∧ item.workingDirectorySwitchGeneration = some generation := by
  obtain ⟨hi, hp, -⟩ := findIdx?_eq_some_iff_getElem.mp h
  exact ⟨items[i], getElem?_eq_getElem hi, ofGeneration_iff.mp hp⟩

/-- After the append the first item of the generation in the file is the
authoritative one, and other generations are as they were. -/
theorem find?_persistSwitch {disk : Disk} {candidate : ConversationItem} {outcome : AppendOutcome}
    (hcandidate : candidate.workingDirectorySwitchGeneration = some generation)
    (h : authoritativeItem candidate (disk.persistSwitch generation candidate outcome).2 = some item)
    (other : Nat) :
    (disk.persistSwitch generation candidate outcome).1.history.find? (ofGeneration other) =
      if generation = other then some item else disk.history.find? (ofGeneration other) := by
  rcases persistSwitch_spec h with ⟨hfind, hdisk⟩ | ⟨hfind, rfl, hdisk⟩
  · rw [hdisk]
    split
    · rename_i heq
      rw [← heq, hfind]
    · rfl
  · rw [hdisk, Disk.persistMessage_history, find?_append]
    by_cases heq : generation = other
    · rw [if_pos heq, ← heq, hfind]
      simp [ofGeneration_iff.mpr hcandidate]
    · rw [if_neg heq]
      simp [ofGeneration_eq hcandidate, heq]

theorem capturing_appendSwitch (h : Capturing a messages) {content : Text} {outcome : AppendOutcome}
    (ha' : (appendWorkingDirectorySwitch content generation outcome a).map (·.1) = some a') :
    Capturing a' (messages ++
      pushedBy a (.appendWorkingDirectorySwitchAndAck content generation outcome)) := by
  have hcandidate : (workingDirectorySwitch content generation).workingDirectorySwitchGeneration =
      some generation := rfl
  simp only [appendWorkingDirectorySwitch] at ha'
  simp only [pushedBy]
  cases hitem : authoritativeItem (workingDirectorySwitch content generation)
      (a.disk.persistSwitch generation (workingDirectorySwitch content generation) outcome).2 with
  | none =>
    rw [hitem] at ha'
    cases ha'
    simp only [append_nil, persistSwitch_of_none hitem]
    exact h
  | some item =>
    have hgeneration : item.workingDirectorySwitchGeneration = some generation := by
      rcases persistSwitch_spec hitem with ⟨hfind, -⟩ | ⟨-, rfl, -⟩
      · exact ofGeneration_iff.mp (find?_some hfind)
      · exact hcandidate
    have hfile := find?_persistSwitch hcandidate hitem
    simp only [hitem, Option.map_map, map_eq_some_iff, Function.comp_apply] at ha'
    obtain ⟨st', hst', rfl⟩ := ha'
    obtain ⟨hcapture, ⟨i, hi, hconversation⟩ | ⟨hnone, hconversation⟩⟩ :=
      convergeWorkingDirectorySwitch_spec hst'
    · have hany : a.state.conversation.any (ofGeneration generation) = true := by
        rw [← findIdx?_isSome, hi]
        rfl
      simp only [hany, if_true, append_nil]
      obtain ⟨old, hold, holdgen⟩ := generation_of_findIdx? hi
      have hsame : ∀ other, ofGeneration other item = ofGeneration other old := fun other => by
        rw [ofGeneration_eq hgeneration, ofGeneration_eq holdgen]
      obtain ⟨cap, hcap, hin, rfl⟩ := h.active
      -- an item of the tail is the one in the file already
      have htail : cap.turnStartOffset ≤ i → old = item := fun hle => by
        have hknown := h.switches cap hcap generation i hi hle
        rcases persistSwitch_spec hitem with ⟨hfind, -⟩ | ⟨hfind, -, -⟩
        · rw [hfind, hold] at hknown
          exact (some.inj hknown).symm
        · rw [hfind, hold] at hknown
          cases hknown
      have hlater : ∀ j, cap.turnStartOffset ≤ j →
          (a.state.conversation.set i item)[j]? = a.state.conversation[j]? := fun j hj => by
        rw [getElem?_set]
        split
        · rename_i hij
          subst hij
          rw [hold, htail hj]
          have hlt := (List.getElem?_eq_some_iff.mp hold).1
          simp [hlt]
        · rfl
      refine ⟨⟨cap, hcapture.trans hcap, ?_, ?_⟩, ?_⟩
      · rw [hconversation, length_set]
        exact hin
      · rw [hconversation]
        congr 1
        refine ext_getElem? fun j => ?_
        rw [getElem?_drop, getElem?_drop, hlater _ (Nat.le_add_right _ _)]
      · intro cap' hcap' other j hj hle
        have hcc : cap = cap' := some.inj (hcap.symm.trans (hcapture.symm.trans hcap'))
        subst hcc
        simp only [hconversation] at hj ⊢
        rw [findIdx?_set hold (hsame other)] at hj
        rw [hlater j hle, hfile other]
        have hknown := h.switches cap hcap other j hj hle
        split
        · rename_i heq
          subst heq
          have hij : i = j := some.inj (hi.symm.trans hj)
          subst hij
          rw [hold, htail hle]
        · exact hknown
    · have hany : a.state.conversation.any (ofGeneration generation) = false := by
        rw [← findIdx?_isSome, hnone]
        rfl
      simp only [hany, Bool.false_eq_true, if_false]
      obtain ⟨cap, hcap, hin, rfl⟩ := h.active
      refine ⟨⟨cap, hcapture.trans hcap, ?_, ?_⟩, ?_⟩
      · rw [hconversation, length_append]
        omega
      · rw [hconversation, drop_append_of_le_length hin, append_assoc]
      · intro cap' hcap' other j hj hle
        have hcc : cap = cap' := some.inj (hcap.symm.trans (hcapture.symm.trans hcap'))
        subst hcc
        simp only [hconversation] at hj ⊢
        rw [hfile other]
        by_cases heq : generation = other
        · subst heq
          rw [findIdx?_append, hnone, findIdx?_singleton,
            if_pos (ofGeneration_iff.mpr hgeneration)] at hj
          have hj' : j = a.state.conversation.length := by simpa [eq_comm] using hj
          rw [if_pos rfl, hj', getElem?_concat_length]
        · rw [if_neg heq]
          have hother : ofGeneration other item = false := by
            rw [ofGeneration_eq hgeneration, decide_eq_false heq]
          rw [findIdx?_append, findIdx?_singleton, hother] at hj
          have hj' : a.state.conversation.findIdx? (ofGeneration other) = some j := by
            simpa using hj
          have hlt := (findIdx?_eq_some_iff_findIdx_eq.mp hj').1
          rw [getElem?_append_left hlt]
          exact h.switches cap hcap other j hj' hle

/-! ## History repair -/

/-- A repair that changes the conversation keeps of the capture what was saved before it. -/
theorem capturing_repairHistory {cap : TurnCaptureState} (hcap : a.state.turnCapture = some cap)
    (hchanged : (repairHistory a.state.conversation).2.changed = true)
    (ha' : (repairHistoryCommand env false a).map (·.1) = some a') :
    Capturing a' cap.preReplacementMessages := by
  simp only [repairHistoryCommand, Bool.false_eq_true, if_false, hchanged, if_true,
    Option.map_map, map_eq_some_iff, Function.comp_apply, exists_eq_right,
    replaceConversation, bind_eq_bind, bind_eq_some_iff, some.injEq] at ha'
  obtain ⟨st, hst, n, -, rfl⟩ := ha'
  -- the tail of the emptied vector is empty, whatever the offset
  have hsaved : ∃ offset, st.turnCapture =
      some ⟨offset, cap.preReplacementMessages, cap.compactionOccurred⟩ := by
    simp only [snapshotTurnSlice, hcap, turnTail, length_nil, drop_nil,
      bind_eq_bind, bind_eq_some_iff, some.injEq] at hst
    obtain ⟨tail, htail, rfl⟩ := hst
    have hnil : tail = [] := by
      split at htail
      · cases htail
        rfl
      · split at htail
        · cases htail
        · cases htail
          rfl
    exact ⟨cap.turnStartOffset, by rw [hnil, append_nil]⟩
  obtain ⟨offset, hoffset⟩ := hsaved
  refine capturing_of_end ⟨(repairHistory a.state.conversation).1.length,
    cap.preReplacementMessages, cap.compactionOccurred || false⟩ ?_ rfl rfl
  simp only [rebaseTurnCaptureOffset, hoffset, map_some]

/-! ## A step and a run -/

theorem Capturing.step (h : Capturing a messages) {cmd : ChatStateCommand} (hcmd : WithinTurn cmd)
    (hkeeps : ¬ LosesTail (some a) cmd) (ha' : handleCommand env a cmd = some a') :
    Capturing a' (messages ++ pushedBy a cmd) := by
  have hquiet : pushedBy a cmd = [] → Capturing a' messages →
      Capturing a' (messages ++ pushedBy a cmd) := by
    intro hnone hafter
    rw [hnone, append_nil]
    exact hafter
  cases cmd with
  | beginTurnCapture | takeTurnMessages | truncateToPromptIndex => exact absurd hcmd id
  | pushUserMessage u => exact capturing_pushUserMessage h ha'
  | pushUserMessageWithRepairReason u reason => exact capturing_pushUserMessage h ha'
  | pushAssistantResponse x => exact capturing_pushMessage h ha'
  | pushToolResult x => exact capturing_pushMessage h ha'
  | appendWorkingDirectorySwitchAndAck content generation outcome =>
    exact capturing_appendSwitch h ha'
  | replaceConversation items isCompaction =>
    exact hquiet rfl (capturing_replaceConversation h ha')
  | replaceSystemHead prompt => exact hquiet rfl (capturing_replaceSystemHead h ha')
  | restoreSnapshot snapshot => exact hquiet rfl (capturing_restoreSnapshot h ha')
  | repairDanglingAfterHarnessHalt class' => exact hquiet rfl (capturing_integrity h ha').1
  | buildConversationRequest args => exact hquiet rfl (capturing_buildRequest h ha')
  | repairHistory dryRun turnActive =>
    refine hquiet rfl ?_
    rw [handleCommand] at ha'
    split at ha'
    · cases ha'
      exact h
    · rename_i hactive
      cases hunchanged : dryRun || !(ChatHistory.repairHistory a.state.conversation).2.changed with
      | true =>
        have hor : dryRun = true ∨
            (ChatHistory.repairHistory a.state.conversation).2.changed = false := by
          simpa using hunchanged
        rw [repairHistoryCommand_unchanged hor ha']
        exact h
      | false =>
        obtain ⟨rfl, hchanged⟩ : dryRun = false ∧
            (ChatHistory.repairHistory a.state.conversation).2.changed = true := by
          simpa using hunchanged
        obtain rfl : turnActive = false := by simpa using hactive
        obtain ⟨cap, hcap, hin, rfl⟩ := h.active
        have hend : a.state.conversation.length ≤ cap.turnStartOffset :=
          Nat.le_of_not_lt fun hlt => hkeeps ⟨hchanged, cap, hcap, hlt⟩
        rw [drop_of_length_le hend, append_nil]
        exact capturing_repairHistory hcap hchanged ha'
  | recordTokenUsage totalTokens =>
    simp only [handleCommand, recordTokenUsage, bind_eq_bind, bind_eq_some_iff,
      some.injEq] at ha'
    obtain ⟨n, -, rfl⟩ := ha'
    exact hquiet rfl (h.congr rfl rfl rfl)
  | getEstimatedMessagesTokens =>
    simp only [handleCommand, map_eq_some_iff] at ha'
    obtain ⟨n, -, rfl⟩ := ha'
    exact hquiet rfl h
  | flushHarnessTraceTurn =>
    cases ha'
    have hsealed := sealHarnessTraceTurn_conversation a.state
    exact hquiet rfl (h.congr hsealed.1 hsealed.2 rfl)
  | takeHarnessTraceTurns =>
    cases ha'
    have hsealed := sealHarnessTraceTurn_conversation a.state
    exact hquiet rfl (h.congr hsealed.1 hsealed.2 rfl)
  | incrementPromptIndex | updateSamplingConfig | cachePromptText | recordCompactionAt
  | appendHarnessTraceItems | bookkeeping =>
    cases ha'
    exact hquiet rfl (h.congr rfl rfl rfl)

theorem Capturing.step_of_losesTail (h : Capturing a messages) {cmd : ChatStateCommand}
    (hloses : LosesTail (some a) cmd) (ha' : handleCommand env a cmd = some a') :
    pushedBy a cmd = [] ∧
      ∃ fewer, fewer.length < messages.length ∧ Capturing a' fewer := by
  cases cmd with
  | repairHistory dryRun turnActive =>
    cases dryRun with
    | true => exact absurd hloses id
    | false =>
      cases turnActive with
      | true => exact absurd hloses id
      | false =>
        obtain ⟨hchanged, cap, hcap, hlt⟩ := hloses
        refine ⟨rfl, cap.preReplacementMessages, ?_,
          capturing_repairHistory hcap hchanged ha'⟩
        obtain ⟨cap', hcap', -, rfl⟩ := h.active
        obtain rfl : cap = cap' := some.inj (hcap.symm.trans hcap')
        rw [length_append, length_drop]
        omega
  | _ => exact absurd hloses id

/-- Over a run within the turn the capture holds everything pushed exactly
when no step lost its tail; a lost tail is never made up for. -/
theorem Capturing.run (h : Capturing a messages) {cmds : List ChatStateCommand}
    (hcmds : ∀ cmd ∈ cmds, WithinTurn cmd) {b : Actor}
    (hrun : cmds.foldl (handle env) (some a) = some b) :
    ∃ captured, Capturing b captured ∧
      captured.length ≤ messages.length + (pushedDuring env (some a) cmds).length ∧
      (captured = messages ++ pushedDuring env (some a) cmds ↔
        Guided.EachStep (handle env) (fun s cmd => ¬ LosesTail s cmd) (some a) cmds) := by
  induction cmds generalizing a messages with
  | nil =>
    cases hrun
    exact ⟨messages, h, by simp [pushedDuring], by
      simp [pushedDuring, Guided.eachStep_nil]⟩
  | cons cmd cmds ih =>
    obtain ⟨hcmd, hcmds⟩ := forall_mem_cons.mp hcmds
    rw [foldl_cons, handle_some] at hrun
    rw [Guided.eachStep_cons, handle_some, pushedDuring]
    cases ha' : handleCommand env a cmd with
    | none =>
      rw [ha', foldl_handle_none] at hrun
      cases hrun
    | some a' =>
      rw [ha'] at hrun
      by_cases hloses : LosesTail (some a) cmd
      · obtain ⟨hnone, fewer, hfewer, hcapturing⟩ := h.step_of_losesTail hloses ha'
        obtain ⟨captured, hb, hlen, -⟩ := ih hcapturing hcmds hrun
        rw [hnone, nil_append]
        refine ⟨captured, hb, by omega, iff_of_false (fun heq => ?_) fun hall => hall.1 hloses⟩
        rw [heq, length_append] at hlen
        omega
      · obtain ⟨captured, hb, hlen, hiff⟩ := ih (h.step hcmd hloses ha') hcmds hrun
        rw [length_append] at hlen
        refine ⟨captured, hb, by rw [length_append]; omega, ?_⟩
        rw [← append_assoc, hiff]
        exact ⟨fun hrest => ⟨hloses, hrest⟩, fun hall => hall.2⟩

theorem capturing_begin (a : Actor) : Capturing { a with state := beginTurnCapture a.state } [] :=
  capturing_of_end _ rfl rfl rfl

theorem takeTurnMessages_of_capturing (env : Env) (h : Capturing a messages) :
    ∃ a' compacted, takeTurnMessages env a = some (a', some ⟨messages, compacted⟩) := by
  obtain ⟨cap, hcap, hin, rfl⟩ := h.active
  simp only [takeTurnMessages, hcap, turnTail, if_pos hin]
  exact ⟨_, _, rfl⟩

theorem takeTurnMessages_iff (h : Capturing a messages) (expected : Conversation) :
    (∃ a' compacted, takeTurnMessages env a = some (a', some ⟨expected, compacted⟩)) ↔
      messages = expected := by
  obtain ⟨b, compacted, htake⟩ := takeTurnMessages_of_capturing env h
  constructor
  · rintro ⟨a', compacted', h'⟩
    rw [htake] at h'
    cases h'
    rfl
  · rintro rfl
    exact ⟨b, compacted, htake⟩

end Handlers

/-- The messages taken at the end of a turn are the items pushed since it
began, each once and in order, exactly in the runs where no history repair
changes the conversation while the capture has a tail. -/
theorem turn_messages_iff (env : Env) (a b : Actor) (cmds : List ChatStateCommand)
    (hcmds : ∀ cmd ∈ cmds, WithinTurn cmd)
    (hrun : cmds.foldl (handle env) (handle env (some a) .beginTurnCapture) = some b) :
    (∃ b' compacted, takeTurnMessages env b = some (b',
        some ⟨pushedDuring env (handle env (some a) .beginTurnCapture) cmds, compacted⟩)) ↔
      Guided.EachStep (handle env) (fun s cmd => ¬ LosesTail s cmd)
        (handle env (some a) .beginTurnCapture) cmds := by
  obtain ⟨captured, hb, -, hiff⟩ := (capturing_begin a).run hcmds hrun
  rw [takeTurnMessages_iff hb]
  exact hiff

/-! ## A cancelled turn that is repaired before it is taken -/

/-- An actor on an empty history. -/
def freshActor : Actor where
  state :=
    { conversation := []
      samplingConfig := ⟨[], 1⟩
      promptIndex := 0
      promptTexts := []
      totalTokens := 0
      lastCompactionPromptIndex := none
      estimatedTokensSinceModel := 0
      estimateAtLastResponse := 0
      turnCapture := none
      harnessTraceBuffer := []
      harnessTraceTurns := [] }
  disk := ⟨[], false⟩

/-- The same build without assertions. -/
def releaseEnv : Env := { devEnv with debugAssertions := false }

/-- An answer that calls a tool. -/
def callingAnswer : PushedItem :=
  ⟨.assistant ⟨[], [⟨"c1".toList, "read".toList, []⟩]⟩, rfl⟩

/-- The actor on which that answer was pushed in a turn. -/
def answeredActor : Actor where
  state :=
    { freshActor.state with
      conversation := [callingAnswer.item]
      turnCapture := some ⟨0, [], false⟩ }
  disk := ⟨[callingAnswer.item], false⟩

theorem turn_messages_one_answer :
    ∃ b' compacted, takeTurnMessages releaseEnv answeredActor =
      some (b', some ⟨[callingAnswer.item], compacted⟩) := by
  have hwithin : ∀ cmd ∈ [ChatStateCommand.pushAssistantResponse callingAnswer],
      WithinTurn cmd := by
    intro cmd hcmd
    obtain rfl := mem_singleton.mp hcmd
    trivial
  refine (turn_messages_iff releaseEnv freshActor answeredActor
    [.pushAssistantResponse callingAnswer] hwithin rfl).mpr ?_
  exact Guided.eachStep_cons.mpr ⟨id, Guided.eachStep_nil⟩

theorem answeredActor_sound : Sound answeredActor.state where
  previewable item hitem := by
    obtain rfl := mem_singleton.mp hitem
    trivial
  inside cap hcap := by
    cases hcap
    exact Nat.zero_le _

theorem answeredActor_losesTail : LosesTail (some answeredActor) (.repairHistory false false) := by
  refine ⟨?_, ⟨0, [], false⟩, rfl, by decide⟩
  rw [repairHistory_eq]
  decide

/-- The turn was cancelled in the middle of its tool call; the repair fills
the result in, and the turn's messages are gone. -/
theorem repaired_turn_loses_answer :
    ∃ b, [.pushAssistantResponse callingAnswer, .repairHistory false false].foldl
        (handle releaseEnv) (handle releaseEnv (some freshActor) .beginTurnCapture) = some b ∧
      ¬ ∃ b' compacted, takeTurnMessages releaseEnv b = some (b', some
        ⟨pushedDuring releaseEnv (handle releaseEnv (some freshActor) .beginTurnCapture)
          [.pushAssistantResponse callingAnswer, .repairHistory false false], compacted⟩) := by
  have hpush : handleCommand releaseEnv { freshActor with state := beginTurnCapture freshActor.state }
      (.pushAssistantResponse callingAnswer) = some answeredActor := rfl
  obtain ⟨b, hb, -⟩ := (soundAfter_repairHistory releaseEnv answeredActor_sound false).mpr
    fun _ hasserts => Bool.false_ne_true hasserts.1
  have hwithin : ∀ cmd ∈ [ChatStateCommand.pushAssistantResponse callingAnswer,
      .repairHistory false false], WithinTurn cmd := by
    intro cmd hcmd
    simp only [mem_cons, not_mem_nil, or_false] at hcmd
    rcases hcmd with rfl | rfl
    · trivial
    · trivial
  have hrun : [ChatStateCommand.pushAssistantResponse callingAnswer,
      .repairHistory false false].foldl (handle releaseEnv)
        (some { freshActor with state := beginTurnCapture freshActor.state }) = some b := by
    rw [foldl_cons, handle_some, hpush]
    exact hb
  refine ⟨b, hrun, ?_⟩
  obtain ⟨captured, hcaptured, -, hiff⟩ := (capturing_begin freshActor).run hwithin hrun
  intro hall
  have hsteps := hiff.mp ((takeTurnMessages_iff hcaptured _).mp hall)
  rw [Guided.eachStep_cons, handle_some, hpush, Guided.eachStep_cons] at hsteps
  exact hsteps.2.1 answeredActor_losesTail

end GrokBuild.ChatActor
