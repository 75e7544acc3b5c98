import GrokBuild.Lib.Join
import GrokBuild.Workflow.Journal

/-!
# Queued prompts

The items of `pending_inputs` with the fields that queue operations read:
content blocks with their `_meta` maps, where a prompt comes from, its
settings, and the metadata of its row in the shared queue.
-/

namespace GrokBuild.PromptQueue

open TextLines Str Join
open Workflow (Json)

/-- `acp::Meta`, a JSON object. -/
abbrev Meta := List (Text × Json)

def Meta.get? (m : Meta) (key : Text) : Option Json := (m.find? fun e => e.1 == key).map (·.2)

def Meta.insert (m : Meta) (key : Text) (value : Json) : Meta :=
  if m.any fun e => e.1 == key then m.map fun e => if e.1 == key then (key, value) else e
  else m ++ [(key, value)]

structure TextContent where
  text : Text
  blockMeta : Option Meta

structure ImageContent where
  data : Text
  mimeType : Text
  uri : Option Text

/-- `acp::ContentBlock`. `other` is audio, a resource link or a resource. -/
inductive ContentBlock where
  | text (t : TextContent)
  | image (i : ImageContent)
  | other (block : Json)

/-- The text of a block, if it is one. -/
def ContentBlock.text? : ContentBlock → Option Text
  | .text t => some t.text
  | _ => none

def ContentBlock.image? : ContentBlock → Option ImageContent
  | .image i => some i
  | _ => none

inductive PromptMode where
  | agent
  | ask
  | plan
  deriving DecidableEq

def PromptMode.isReadOnly : PromptMode → Bool
  | .ask | .plan => true
  | .agent => false

inductive PromptOrigin where
  | user
  | taskCompleted (taskId : Text)
  | subagentCompleted (subagentId : Text)
  | workflowCompleted (completionId : Text)
  | notificationDrain
  | goalSummary
  | goalClassifierNudge
  | schedulerFired
  | planResume
  deriving DecidableEq

namespace PromptOrigin

def stripPrefix (pat s : Text) : Option Text :=
  if pat.isPrefixOf s then some (s.drop pat.length) else none

def fromPromptId (promptId : Text) : PromptOrigin :=
  match stripPrefix "task-completed-".toList promptId with
  | some taskId => .taskCompleted taskId
  | none =>
  match stripPrefix "subagent-completed-".toList promptId with
  | some subagentId => .subagentCompleted subagentId
  | none =>
  match stripPrefix "workflow-completed-".toList promptId with
  | some completionId => .workflowCompleted completionId
  | none =>
  if "notifications-".toList.isPrefixOf promptId then .notificationDrain
  else if "goal-summary-".toList.isPrefixOf promptId then .goalSummary
  else if "goal-classifier-nudge-".toList.isPrefixOf promptId then .goalClassifierNudge
  else if "scheduler-fired-".toList.isPrefixOf promptId then .schedulerFired
  else if "plan-resume-".toList.isPrefixOf promptId then .planResume
  else .user

def isSynthetic : PromptOrigin → Bool
  | .user => false
  | _ => true

def completionId : PromptOrigin → Option Text
  | .taskCompleted id | .subagentCompleted id | .workflowCompleted id => some id
  | _ => none

end PromptOrigin

structure QueueEntryMeta where
  id : Text
  version : Nat
  owner : Option Text
  lastEditor : Option Text
  kind : Text
  text : Text
  combinedTexts : Option (List Text)
  deriving DecidableEq

/-- `InputItem`. The sending half of the prompt's response channel is the
number of the prompt; a tool override update is the JSON it was parsed from. -/
structure InputItem where
  promptId : Text
  promptBlocks : List ContentBlock
  promptMode : PromptMode
  verbatim : Bool
  jsonSchema : Option Json
  origin : PromptOrigin
  toolOverridesUpdate : Option Json
  respondTo : Nat
  queueMeta : Option QueueEntryMeta
  sendNow : Bool

/-! ## Reading the blocks -/

/-- `PromptBlockMeta::from_value`, for its one field; `none` when the field is
of another type. -/
def bashCommandOfMeta (m : Meta) : Option (Option Text) :=
  match m.get? "bash_command".toList with
  | none | some .null => some none
  | some (.string command) => some (some command)
  | some _ => none

/-- `extract_bash_command`: what the first block with a readable meta says. -/
def extractBashCommand (blocks : List ContentBlock) : Option Text :=
  (blocks.findSome? fun
    | .text t => t.blockMeta.bind bashCommandOfMeta
    | _ => none).join

/-- The `displayText` of a text block. -/
def TextContent.displayText (t : TextContent) : Option Text :=
  t.blockMeta.bind fun m => (m.get? "displayText".toList).bind Json.asStr

def hasDisplayText (t : TextContent) : Bool :=
  match t.displayText with
  | some s => !(trim s).isEmpty
  | none => false

def textSeparator : Text := "\n\n".toList

def queueTextFromBlocks (blocks : List ContentBlock) : Text :=
  let display := blocks.findSome? fun
    | .text t => (t.displayText.map trim).filter fun s => !s.isEmpty
    | _ => none
  match display with
  | some text => text
  | none => join textSeparator (blocks.filterMap fun b => b.text?.map trim)

def joinTexts (texts : List Text) : Text := join textSeparator texts

/-- The texts of the text blocks. -/
def textsOf (blocks : List ContentBlock) : List Text := blocks.filterMap ContentBlock.text?

/-- The images of a prompt. -/
def imagesOf (blocks : List ContentBlock) : List ImageContent :=
  blocks.filterMap ContentBlock.image?

def joinedTextBlocks (blocks : List ContentBlock) : Text := joinTexts (textsOf blocks)

section Blocks

variable (blocks : List ContentBlock)

@[simp] theorem textsOf_nil : textsOf [] = [] := rfl

@[simp] theorem textsOf_text (t : TextContent) :
    textsOf (.text t :: blocks) = t.text :: textsOf blocks := rfl

@[simp] theorem textsOf_image (i : ImageContent) : textsOf (.image i :: blocks) = textsOf blocks :=
  rfl

@[simp] theorem textsOf_other (b : Json) : textsOf (.other b :: blocks) = textsOf blocks := rfl

@[simp] theorem imagesOf_text (t : TextContent) :
    imagesOf (.text t :: blocks) = imagesOf blocks := rfl

@[simp] theorem imagesOf_image (i : ImageContent) :
    imagesOf (.image i :: blocks) = i :: imagesOf blocks := rfl

@[simp] theorem imagesOf_other (b : Json) : imagesOf (.other b :: blocks) = imagesOf blocks := rfl

end Blocks

/-- What a prompt's channel is resolved with: the result of its turn, or a
completion of kind `Cancelled` or `RemovedFromQueue`. -/
inductive Completion where
  | turnResult
  | cancelled
  | removedFromQueue
  deriving DecidableEq

/-- A response: the prompt's number and how it was completed. -/
abbrev Response := Nat × Completion

def respondRemovedPrompt (item : InputItem) : Response := (item.respondTo, .removedFromQueue)

end GrokBuild.PromptQueue
