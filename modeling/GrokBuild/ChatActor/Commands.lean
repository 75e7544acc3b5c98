import GrokBuild.ChatActor.Request
import GrokBuild.Lib.Guided

/-!
# Commands of the chat-state actor

`handle_command`: the transition for each command, and runs of them.
-/

namespace GrokBuild.ChatActor

open TextLines ChatHistory

/-- An item that a push brings. Only the actor itself makes items that carry
the generation of a working-directory switch. -/
structure PushedItem where
  item : ConversationItem
  plain : item.workingDirectorySwitchGeneration = none

/-- The same for a user message. -/
structure PushedUserItem where
  item : UserItem
  plain : (ConversationItem.user item).workingDirectorySwitchGeneration = none

/-- `ChatStateCommand`, without the reply channels. `bookkeeping` stands for
the commands that touch none of the modelled fields and read no item's text. -/
inductive ChatStateCommand where
  | pushUserMessage (item : PushedUserItem)
  | pushUserMessageWithRepairReason (item : PushedUserItem) (reason : DanglingToolCallReason)
  | appendWorkingDirectorySwitchAndAck (content : Text) (cwdGeneration : Nat)
      (outcome : AppendOutcome)
  | pushAssistantResponse (item : PushedItem)
  | pushToolResult (item : PushedItem)
  | recordTokenUsage (totalTokens : Nat)
  | incrementPromptIndex
  | updateSamplingConfig (config : SamplingConfig)
  | replaceConversation (items : Conversation) (isCompaction : Bool)
  | repairHistory (dryRun turnActive : Bool)
  | replaceSystemHead (prompt : Text)
  | cachePromptText (text : Text)
  | recordCompactionAt (promptIndex : Nat)
  | restoreSnapshot (snapshot : ChatStateSnapshot)
  | beginTurnCapture
  | takeTurnMessages
  | appendHarnessTraceItems (items : Conversation)
  | flushHarnessTraceTurn
  | takeHarnessTraceTurns
  | repairDanglingAfterHarnessHalt (class' : Text)
  | buildConversationRequest (args : RequestArgs)
  | truncateToPromptIndex (targetPromptIndex : Nat)
  | getEstimatedMessagesTokens
  | bookkeeping

structure TurnCapture where
  messages : Conversation
  compactionOccurred : Bool
  deriving DecidableEq

variable (env : Env)

def takeTurnMessages (a : Actor) : Option (Actor × Option TurnCapture) :=
  match a.state.turnCapture with
  | none => some (a, none)
  | some cap => do
    let tail ← turnTail env a.state.conversation cap.turnStartOffset
    let messages := cap.preReplacementMessages ++ tail
    some ({ a with state := { a.state with turnCapture := none } },
      some ⟨messages, cap.compactionOccurred⟩)

def beginTurnCapture (st : ChatState) : ChatState :=
  { st with turnCapture := some ⟨st.conversation.length, [], false⟩ }

def sealHarnessTraceTurn (st : ChatState) : ChatState :=
  if st.harnessTraceBuffer = [] then st
  else
    { st with
      harnessTraceBuffer := []
      harnessTraceTurns := st.harnessTraceTurns ++ [st.harnessTraceBuffer] }

theorem sealHarnessTraceTurn_conversation (st : ChatState) :
    (sealHarnessTraceTurn st).conversation = st.conversation ∧
      (sealHarnessTraceTurn st).turnCapture = st.turnCapture := by
  rw [sealHarnessTraceTurn]
  split
  · exact ⟨rfl, rfl⟩
  · exact ⟨rfl, rfl⟩

def isSystem : ConversationItem → Bool
  | .system _ => true
  | _ => false

def estimateMessagesTokens (items : Conversation) : Option Nat :=
  estimateConversationTokens (items.filter fun item => !isSystem item)

def handleCommand (a : Actor) : ChatStateCommand → Option Actor
  | .pushUserMessage u => pushUserMessage env u.item .userCancelled a
  | .pushUserMessageWithRepairReason u reason => pushUserMessage env u.item reason a
  | .appendWorkingDirectorySwitchAndAck content generation outcome =>
    (appendWorkingDirectorySwitch content generation outcome a).map (·.1)
  | .pushAssistantResponse x | .pushToolResult x => pushMessage x.item a
  | .recordTokenUsage totalTokens => recordTokenUsage totalTokens a
  | .incrementPromptIndex =>
    some { a with state := { a.state with promptIndex := a.state.promptIndex + 1 } }
  | .updateSamplingConfig config =>
    some { a with state := { a.state with samplingConfig := config } }
  | .replaceConversation items isCompaction => replaceConversation env items isCompaction a
  | .repairHistory dryRun turnActive =>
    if turnActive then some a else (repairHistoryCommand env dryRun a).map (·.1)
  | .replaceSystemHead prompt => (replaceSystemHead env prompt a).map (·.1)
  | .cachePromptText text =>
    some { a with state := { a.state with promptTexts := a.state.promptTexts ++ [text] } }
  | .recordCompactionAt promptIndex =>
    some { a with state := { a.state with lastCompactionPromptIndex := some promptIndex } }
  | .restoreSnapshot snapshot => restoreSnapshot env snapshot a
  | .beginTurnCapture => some { a with state := beginTurnCapture a.state }
  | .takeTurnMessages => (takeTurnMessages env a).map (·.1)
  | .appendHarnessTraceItems items =>
    some { a with
      state := { a.state with harnessTraceBuffer := a.state.harnessTraceBuffer ++ items } }
  | .flushHarnessTraceTurn => some { a with state := sealHarnessTraceTurn a.state }
  | .takeHarnessTraceTurns =>
    some { a with state := { sealHarnessTraceTurn a.state with harnessTraceTurns := [] } }
  | .repairDanglingAfterHarnessHalt class' =>
    ensureConversationIntegrity env (.harnessHalted class') a
  | .buildConversationRequest args => (buildConversationRequestCommand env args a).map (·.1)
  | .truncateToPromptIndex target =>
    (truncateToPromptIndex target a).map fun a =>
      { a with state := { a.state with turnCapture := none } }
  | .getEstimatedMessagesTokens => (estimateMessagesTokens a.state.conversation).map fun _ => a
  | .bookkeeping => some a

/-- The actor's loop: it ends with the first panic. -/
def handle (a : Option Actor) (cmd : ChatStateCommand) : Option Actor :=
  a.bind fun a => handleCommand env a cmd

@[simp] theorem handle_none (cmd : ChatStateCommand) : handle env none cmd = none := rfl

@[simp] theorem handle_some (a : Actor) (cmd : ChatStateCommand) :
    handle env (some a) cmd = handleCommand env a cmd := rfl

theorem foldl_handle_none (cmds : List ChatStateCommand) :
    cmds.foldl (handle env) none = none := by
  induction cmds with
  | nil => rfl
  | cons cmd cmds ih => exact ih

end GrokBuild.ChatActor
