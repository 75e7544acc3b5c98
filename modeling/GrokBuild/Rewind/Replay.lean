import GrokBuild.Lib.Str
import GrokBuild.Rewind.Turns

/-!
# Rewind: the replay of the update log

`replay.rs`: the conversation of a session, rebuilt from `updates.jsonl` and
the files of its compaction checkpoints.
-/

namespace GrokBuild.Rewind

open TextLines ChatHistory

/-- `ContentChunk`: its text, if it is one, and what its `_meta` says. -/
structure ContentChunk where
  text : Option Text
  promptIndex : Option Nat
  hostTurn : Bool
  deriving DecidableEq

/-- `CompactionCheckpointInfo`. -/
structure CheckpointInfo where
  promptIndexAtCompaction : Nat
  checkpointFile : Text
  /-- The text of the auto-continue prompt. -/
  autoContinue : Option Text
  deriving DecidableEq

/-- `CompactionCheckpointFile`. -/
structure CheckpointFile where
  compactedHistory : List ConversationItem
  schemaVersion : Nat
  originalUserInfo : Option Text
  deriving DecidableEq

/-- A line of `updates.jsonl`. -/
inductive Update where
  | userMessageChunk (chunk : ContentChunk)
  | agentMessageChunk (chunk : ContentChunk)
  | compactionCheckpoint (info : CheckpointInfo)
  | rewindMarker (targetPromptIndex : Nat)
  | other
  deriving DecidableEq

inductive CheckpointRead where
  | missing
  | failed (error : Text)
  | corrupt
  | file (file : CheckpointFile)

/-- What the replay reads besides the log. Whether the data of an image can be
decoded and sent is left open. -/
structure SessionDir where
  path : Text
  read : Text → CheckpointRead
  isValidDataUriImage : Text → Bool

namespace SessionDir

variable (dir : SessionDir)

def join (file : Text) : Text := dir.path ++ '/' :: file

def invalid : ContentPart → Bool
  | .text _ => false
  | .image url => "data:".toList.isPrefixOf url && !dir.isValidDataUriImage url

/-- `strip_invalid_images`, on one item. -/
def stripInvalidImages : ConversationItem → ConversationItem
  | .user u =>
    .user { u with content := u.content.map fun part =>
      if dir.invalid part then .text "[image removed — invalid data]".toList else part }
  | .toolResult tr =>
    .toolResult { tr with images := tr.images.filter fun part => !dir.invalid part }
  | item => item

end SessionDir

structure ReplayResult where
  conversation : List ConversationItem
  promptIndexReached : Nat
  originalUserInfo : Option Text
  lastCompactionPromptIndex : Option Nat
  deriving DecidableEq

inductive ReplayAction where
  | continue
  | stop
  deriving DecidableEq

structure ReplayState where
  target : Nat
  conversation : List ConversationItem
  promptCounter : Nat
  inUserMessage : Bool
  currentUserText : Text
  currentUserPromptIndex : Option Nat
  seenPromptIndexMarker : Bool
  currentAgentText : Text
  hasPendingAgent : Bool
  checkpointActive : Bool
  checkpointBaseLen : Nat
  checkpointPromptIndex : Nat
  originalUserInfo : Option Text

/-- `counts_as_replay_turn_progressive`, with the flag it leaves. -/
def countsAsReplayTurnProgressive (seenMarker : Bool) : ConversationItem → Bool × Bool
  | .user u => if u.promptIndex.isSome then (true, true) else (!seenMarker, seenMarker)
  | _ => (false, seenMarker)

/-- How many items stay in front of the turn after the kept ones. -/
def cutAfterTurns (turnsToKeep : Nat) : Bool → List ConversationItem → Nat
  | _, [] => 0
  | seenMarker, item :: items =>
    match countsAsReplayTurnProgressive seenMarker item, turnsToKeep with
    | (true, _), 0 => 0
    | (true, seenMarker), turnsToKeep + 1 => cutAfterTurns turnsToKeep seenMarker items + 1
    | (false, seenMarker), _ => cutAfterTurns turnsToKeep seenMarker items + 1

namespace ReplayState

def new (target : Nat) : ReplayState where
  target
  conversation := []
  promptCounter := 0
  inUserMessage := false
  currentUserText := []
  currentUserPromptIndex := none
  seenPromptIndexMarker := false
  currentAgentText := []
  hasPendingAgent := false
  checkpointActive := false
  checkpointBaseLen := 0
  checkpointPromptIndex := 0
  originalUserInfo := none

variable (st : ReplayState)

def conversationHasMarkers : Bool :=
  st.seenPromptIndexMarker || st.conversation.any fun item => (markerOf item).isSome

def truncateTarget (target : Nat) : Nat :=
  if st.conversationHasMarkers then target else target - 1

def flushPendingUser : ReplayState :=
  if st.currentUserText = [] then { st with currentUserPromptIndex := none }
  else
    let counted := st.currentUserPromptIndex.isSome || !st.seenPromptIndexMarker
    { st with
      conversation := st.conversation ++
        [.user ⟨[.text st.currentUserText], none, st.currentUserPromptIndex, none⟩]
      promptCounter := if counted then st.promptCounter + 1 else st.promptCounter
      currentUserText := []
      currentUserPromptIndex := none }

def flushPendingAgent : ReplayState :=
  if st.hasPendingAgent then
    { st with
      conversation := st.conversation ++ [.ofAssistant st.currentAgentText]
      currentAgentText := []
      hasPendingAgent := false }
  else st

/-- The user message in progress is over. -/
def endUserMessage : ReplayState :=
  if st.inUserMessage then { st.flushPendingUser with inUserMessage := false } else st

def flushHostTurnBoundary : ReplayState := st.endUserMessage.flushPendingAgent

def beginUserMessage (promptIndex : Option Nat) : ReplayState :=
  { st with inUserMessage := true, currentUserText := [], currentUserPromptIndex := promptIndex }

def handleUserChunk (chunk : ContentChunk) : ReplayState :=
  if chunk.hostTurn then st.flushHostTurnBoundary
  else
    let st := if chunk.promptIndex.isSome then { st with seenPromptIndexMarker := true } else st
    let st :=
      if !st.inUserMessage then st.flushPendingAgent.beginUserMessage chunk.promptIndex
      else if chunk.promptIndex ≠ st.currentUserPromptIndex ∧
          (chunk.promptIndex.isSome ∨ st.currentUserPromptIndex.isSome) then
        st.flushPendingUser.beginUserMessage chunk.promptIndex
      else if st.currentUserPromptIndex = none then
        { st with currentUserPromptIndex := chunk.promptIndex }
      else st
    match chunk.text with
    | some text => { st with currentUserText := st.currentUserText ++ text }
    | none => st

def handleAgentChunk (chunk : ContentChunk) : ReplayState :=
  if chunk.hostTurn then st.flushHostTurnBoundary
  else
    let st := st.endUserMessage
    match chunk.text with
    | some text =>
      { st with currentAgentText := st.currentAgentText ++ text, hasPendingAgent := true }
    | none => st

/-- The message in progress is dropped. -/
def discardPending : ReplayState :=
  { st with
    inUserMessage := false
    currentUserText := []
    currentUserPromptIndex := none
    currentAgentText := []
    hasPendingAgent := false }

/-- Truncation behind a checkpoint: its history stays as it is. -/
def truncateAfterCheckpoint (target : Nat) : ReplayState :=
  let appended := st.conversation.drop st.checkpointBaseLen
  let cutPos :=
    st.checkpointBaseLen + cutAfterTurns (target - st.checkpointPromptIndex) false appended
  { st with conversation := st.conversation.take cutPos }

def truncateForPrompt (target : Nat) : ReplayState :=
  let keep := conversationTruncateForPrompt st.conversation (st.truncateTarget target)
  { st with conversation := st.conversation.take keep }

def handleRewindMarker (markerTarget : Nat) : ReplayState :=
  let st := st.discardPending
  if st.promptCounter ≤ markerTarget then st
  else
    let st :=
      if st.checkpointActive ∧ st.checkpointPromptIndex ≤ markerTarget then
        st.truncateAfterCheckpoint markerTarget
      else if markerTarget = 0 then { st with conversation := [], checkpointActive := false }
      else if st.checkpointActive then
        { st with checkpointActive := false }.truncateForPrompt markerTarget
      else st.truncateForPrompt markerTarget
    { st with promptCounter := markerTarget }

/-- The checkpoint's history replaces what was replayed so far. -/
def loadCheckpoint (dir : SessionDir) (info : CheckpointInfo) (file : CheckpointFile) :
    ReplayState :=
  let history := file.compactedHistory.map dir.stripInvalidImages
  { st.discardPending with
    conversation := match info.autoContinue with
      | some promptText => history ++ [.ofUser promptText]
      | none => history
    promptCounter := info.promptIndexAtCompaction
    checkpointActive := true
    checkpointBaseLen := history.length
    checkpointPromptIndex := info.promptIndexAtCompaction
    originalUserInfo := st.originalUserInfo.or file.originalUserInfo }

def handleCheckpoint (dir : SessionDir) (info : CheckpointInfo) :
    Except Text (ReplayState × ReplayAction) :=
  let cannot := ". Cannot safely rewind past the compaction point.".toList
  match dir.read info.checkpointFile with
  | .missing =>
    .error ("Compaction checkpoint file missing: ".toList ++ dir.join info.checkpointFile ++ cannot)
  | .failed error => .error error
  | .corrupt =>
    .error ("Compaction checkpoint file corrupt: ".toList ++ dir.join info.checkpointFile ++ cannot)
  | .file file =>
    if st.target < info.promptIndexAtCompaction then
      .ok ({ st with originalUserInfo := st.originalUserInfo.or file.originalUserInfo }, .continue)
    else if 1 < file.schemaVersion then
      .error ("Unsupported checkpoint schema version ".toList ++ Str.decimal file.schemaVersion ++
        cannot)
    else
      let st := st.loadCheckpoint dir info file
      .ok (st, if st.target < st.promptCounter then .stop else .continue)

def processUpdate (dir : SessionDir) : Update → Except Text (ReplayState × ReplayAction)
  | .compactionCheckpoint info => st.handleCheckpoint dir info
  | .rewindMarker targetPromptIndex => .ok (st.handleRewindMarker targetPromptIndex, .continue)
  | .userMessageChunk chunk => .ok (st.handleUserChunk chunk, .continue)
  | .agentMessageChunk chunk => .ok (st.handleAgentChunk chunk, .continue)
  | .other => .ok (st, .continue)

/-- The updates in their order; a malformed one is skipped. -/
def processAll (dir : SessionDir) (st : ReplayState) :
    List (Option Update) → Except Text ReplayState
  | [] => .ok st
  | none :: updates => processAll dir st updates
  | some update :: updates =>
    match st.processUpdate dir update with
    | .error error => .error error
    | .ok (st, .stop) => .ok st
    | .ok (st, .continue) => processAll dir st updates

/-- What is left beyond the target is cut off. -/
def truncateToTarget (targetPromptIndex : Nat) : ReplayState :=
  if targetPromptIndex < st.promptCounter then
    let st :=
      if st.checkpointActive ∧ st.checkpointPromptIndex ≤ targetPromptIndex then
        st.truncateAfterCheckpoint targetPromptIndex
      else if targetPromptIndex = 0 then { st with conversation := [] }
      else st.truncateForPrompt targetPromptIndex
    { st with promptCounter := targetPromptIndex }
  else st

def result : ReplayResult where
  conversation := st.conversation
  promptIndexReached := st.promptCounter
  originalUserInfo := st.originalUserInfo
  lastCompactionPromptIndex := if st.checkpointActive then some st.checkpointPromptIndex else none

/-- The end of the log. -/
def finish (targetPromptIndex : Nat) : ReplayResult :=
  (st.flushPendingUser.flushPendingAgent.truncateToTarget targetPromptIndex).result

end ReplayState

/-- `replay_to_prompt`, with what opening the log gave. -/
def replayToPrompt (dir : SessionDir) (log : Except Text (Option (List (Option Update))))
    (targetPromptIndex : Nat) : Except Text ReplayResult :=
  match log with
  | .error error => .error error
  | .ok none => .ok ⟨[], 0, none, none⟩
  | .ok (some updates) =>
    match (ReplayState.new targetPromptIndex).processAll dir updates with
    | .error error => .error error
    | .ok st => .ok (st.finish targetPromptIndex)

end GrokBuild.Rewind
