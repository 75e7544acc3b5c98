import GrokBuild.Lib.Lines
import GrokBuild.Lib.Runs

/-!
# Conversations

`conversation.rs`: the items of a conversation, with the fields that history
repair, replay and truncation read or write.
-/

namespace GrokBuild.ChatHistory

open TextLines

inductive ContentPart where
  | text (text : Text)
  | image (url : Text)
  deriving DecidableEq

inductive SyntheticReason where
  | compactionMeta
  | systemReminder
  | projectInstructions
  | autoContinue
  | autoRecovery
  | interjection
  | taskCompleted
  | subagentCompleted
  | notificationDrain
  | goalSummary
  | goalClassifierNudge
  | schedulerFired
  | stopHookFeedback
  | workingDirectorySwitch
  | unknown
  deriving DecidableEq

/-- `starts_prompt_turn`: an item with this reason used a prompt index. -/
def SyntheticReason.startsPromptTurn : SyntheticReason → Bool
  | taskCompleted | subagentCompleted | notificationDrain | goalClassifierNudge
  | schedulerFired => true
  | compactionMeta | systemReminder | projectInstructions | autoContinue | autoRecovery
  | interjection | goalSummary | stopHookFeedback | workingDirectorySwitch | unknown => false

structure UserItem where
  content : List ContentPart
  syntheticReason : Option SyntheticReason
  promptIndex : Option Nat
  cwdGeneration : Option Nat
  deriving DecidableEq

structure ToolCall where
  id : Text
  name : Text
  arguments : Text
  deriving DecidableEq

structure AssistantItem where
  content : Text
  toolCalls : List ToolCall
  deriving DecidableEq

structure ToolResultItem where
  toolCallId : Text
  content : Text
  images : List ContentPart
  deriving DecidableEq

inductive WebSearchToolCallAction where
  | search (query : Text)
  | openPage (url : Option Text)
  | find (pattern url : Text)
  | findInPage (pattern url : Text)
  deriving DecidableEq

/-- `BackendToolKind`, with the fields its summary reads. -/
inductive BackendToolKind where
  | webSearch (action : WebSearchToolCallAction)
  | xSearch (name input : Text)
  | codeInterpreter (code : Option Text)
  deriving DecidableEq

/-- `rs::ReasoningItem`, with the fields its text is read from. -/
structure ReasoningItem where
  summary : List Text
  content : Option (List Text)
  encryptedContent : Option Text
  deriving DecidableEq

inductive ConversationItem where
  | system (content : Text)
  | user (u : UserItem)
  | assistant (a : AssistantItem)
  | toolResult (tr : ToolResultItem)
  | backendToolCall (kind : BackendToolKind)
  | reasoning (r : ReasoningItem)
  deriving DecidableEq

namespace ConversationItem

/-- `ConversationItem::tool_result`. -/
def ofToolResult (toolCallId content : Text) : ConversationItem :=
  .toolResult ⟨toolCallId, content, []⟩

/-- `ConversationItem::user`. -/
def ofUser (content : Text) : ConversationItem := .user ⟨[.text content], none, none, none⟩

def workingDirectorySwitch (content : Text) (cwdGeneration : Nat) : ConversationItem :=
  .user ⟨[.text content], some .workingDirectorySwitch, none, some cwdGeneration⟩

/-- `ConversationItem::assistant`. -/
def ofAssistant (content : Text) : ConversationItem := .assistant ⟨content, []⟩

def workingDirectorySwitchGeneration : ConversationItem → Option Nat
  | .user u => if u.syntheticReason = some .workingDirectorySwitch then u.cwdGeneration else none
  | _ => none

def toolResult? : ConversationItem → Option ToolResultItem
  | .toolResult tr => some tr
  | _ => none

/-- The ids of the calls an item declares. -/
def callIds : ConversationItem → List Text
  | .assistant a => a.toolCalls.map (·.id)
  | _ => []

end ConversationItem

/-- Tool results follow the item before them. -/
def toolResults : Runs.View ConversationItem ToolResultItem where
  put := .toolResult
  get? := ConversationItem.toolResult?
  get?_put _ := rfl
  put_of_get? x b h := by
    cases x with
    | toolResult tr => exact congrArg _ (Option.some.inj h)
    | system | user | assistant | backendToolCall | reasoning => cases h

@[simp] theorem toolResults_put : toolResults.put = .toolResult := rfl

@[simp] theorem cut_toolResult (tr : ToolResultItem) (rest : List ConversationItem) :
    Runs.cut toolResults (.toolResult tr :: rest) =
      ⟨tr :: (Runs.cut toolResults rest).lead, (Runs.cut toolResults rest).blocks⟩ :=
  Runs.cut_put toolResults tr rest

end GrokBuild.ChatHistory
