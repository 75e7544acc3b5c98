import GrokBuild.Rewind.Files
import GrokBuild.Rewind.Replay

/-!
# Rewind: a session's rewind

`handle_rewind`: the files first, then the conversation, then the rewind
points.
-/

namespace GrokBuild.Rewind

open TextLines Assoc ChatHistory

inductive RewindMode where
  | all
  | conversationOnly
  | filesOnly
  deriving DecidableEq

def RewindMode.wantsFileRevert : RewindMode → Bool
  | .all | .filesOnly => true
  | .conversationOnly => false

def RewindMode.wantsConversationRewind : RewindMode → Bool
  | .all | .conversationOnly => true
  | .filesOnly => false

structure RewindRequest where
  targetPromptIndex : Nat
  force : Bool
  mode : RewindMode

structure RewindResponse where
  success : Bool
  targetPromptIndex : Nat
  mode : RewindMode
  revertedFiles : List FlexiblePath
  cleanFiles : List FlexiblePath
  conflicts : List Conflict
  promptText : Option Text
  error : Option Text
  deriving DecidableEq

/-- The chat state, as far as a rewind goes. -/
structure ChatState where
  conversation : List ConversationItem
  promptIndex : Nat
  promptTexts : List Text
  lastCompactionPromptIndex : Option Nat

structure Session where
  disk : Disk
  points : Points
  chat : ChatState
  /-- `updates.jsonl`. -/
  updates : List Update
  rewindPendingPrompt : Option Text

/-- How a replay on the blocking pool goes wrong. -/
inductive ReplayFailure where
  | failed (error : Text)
  | panicked (error : Text)
  deriving DecidableEq

/-- What is not up to the session: where it is, which writes and deletes fail,
the order of a hash map's entries, and how the replay of the log ends. -/
structure RewindEnv where
  root : Text
  faults : Faults
  order : Snapshots → Snapshots
  replay : List Update → Nat → Except ReplayFailure ReplayResult
  order_perm : ∀ files, (order files).Perm files

theorem inOrder_perm (files : Snapshots) : files.Perm files := .refl files

namespace Session

variable (env : RewindEnv) (s : Session)

/-- The conversation that a replay stands for, under the session's preamble. -/
def replayedConversation (conversation : List ConversationItem) (result : ReplayResult) :
    List ConversationItem :=
  match result.conversation.head? with
  | some (.system _) => result.conversation
  | _ =>
    match result.originalUserInfo with
    | some ui0 => conversation.take 1 ++ [.ofUser ui0] ++ result.conversation
    | none => conversation.take 2 ++ result.conversation

/-- The chat state at the target, after a replay or without one. -/
def rewoundChat (replayed : Option ReplayResult) (target : Nat) : ChatState where
  conversation := match replayed with
    | some result => replayedConversation s.chat.conversation result
    | none => s.chat.conversation.take (conversationTruncateForPrompt s.chat.conversation target)
  promptIndex := target
  promptTexts := s.chat.promptTexts.take target
  lastCompactionPromptIndex := match replayed with
    | some result => result.lastCompactionPromptIndex
    | none => s.chat.lastCompactionPromptIndex

def needsCompactionReplay : Bool := s.chat.lastCompactionPromptIndex.isSome

/-- The answer without anything that was rewound. -/
def refusal (request : RewindRequest) (error : Option Text) : RewindResponse where
  success := false
  targetPromptIndex := request.targetPromptIndex
  mode := request.mode
  revertedFiles := []
  cleanFiles := []
  conflicts := []
  promptText := none
  error

def invalidTarget (request : RewindRequest) : Text :=
  "Cannot rewind to prompt #".toList ++ Str.decimal request.targetPromptIndex ++
    " — current prompt index is ".toList ++ Str.decimal s.chat.promptIndex ++
    ". Valid targets: 0..".toList ++ Str.decimal (s.chat.promptIndex - 1)

def replayUnavailable (request : RewindRequest) (error : Text) : Text :=
  "Cannot rewind to prompt #".toList ++ Str.decimal request.targetPromptIndex ++
    " — compaction checkpoint data is unavailable (".toList ++ error ++
    "). Try rewinding to a prompt after the compaction point instead.".toList

/-- The tracker's part, at the end. -/
def updateTracker (request : RewindRequest) : Session :=
  if request.mode.wantsFileRevert then
    { s with points := truncateFrom request.targetPromptIndex s.points }
  else if request.mode.wantsConversationRewind then
    { s with points := mergeRewindPointsFrom s.points request.targetPromptIndex }
  else s

/-- The replay, where one is needed. -/
def replayed (target : Nat) : Except ReplayFailure (Option ReplayResult) :=
  if s.needsCompactionReplay then (env.replay s.updates target).map some else .ok none

/-- The conversation's part. Nothing but the pending prompt is touched before
the replay is there. -/
def rewindConversation (request : RewindRequest) :
    Session × Except ReplayFailure (Option Text) :=
  let promptText := s.chat.promptTexts[request.targetPromptIndex]?
  let s := { s with rewindPendingPrompt := promptText }
  match s.replayed env request.targetPromptIndex with
  | .error failure => (s, .error failure)
  | .ok replayed =>
    let chat := s.rewoundChat replayed request.targetPromptIndex
    let updates := s.updates ++ [.rewindMarker request.targetPromptIndex]
    ({ s with chat, updates }, .ok promptText)

/-- A forced rewind to a valid target. -/
def commitRewind (request : RewindRequest) (files : Snapshots) (conflicts : List Conflict) :
    Session × Except Text RewindResponse :=
  let (revertedFiles, disk) :=
    if request.mode.wantsFileRevert then revertFiles env.root env.faults s.disk files
    else ([], s.disk)
  let s := { s with disk }
  let (s, rewound) :=
    if request.mode.wantsConversationRewind then s.rewindConversation env request
    else (s, .ok none)
  match rewound with
  | .error (.failed error) => (s, .ok (refusal request (some (replayUnavailable request error))))
  | .error (.panicked error) => (s, .error ("spawn_blocking panicked: ".toList ++ error))
  | .ok promptText =>
    (s.updateTracker request, .ok
      { success := true
        targetPromptIndex := request.targetPromptIndex
        mode := request.mode
        revertedFiles
        cleanFiles := []
        conflicts
        promptText
        error := none })

def handleRewind (request : RewindRequest) : Session × Except Text RewindResponse :=
  if request.mode ≠ .filesOnly ∧ s.chat.promptIndex ≤ request.targetPromptIndex then
    (s, .ok (refusal request (some (s.invalidTarget request))))
  else
    let files :=
      if request.mode.wantsFileRevert then
        env.order (filesToRevert s.points request.targetPromptIndex)
      else []
    let (cleanFiles, conflicts) := preview env.root s.points s.disk files
    if request.force then s.commitRewind env request files conflicts
    else
      let error :=
        if conflicts ≠ [] then
          some "External modifications detected. Confirm to revert anyway.".toList
        else none
      (s, .ok { refusal request error with cleanFiles, conflicts })

end Session

end GrokBuild.Rewind
