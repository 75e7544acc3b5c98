import GrokBuild.ChatHistory.Repair
import GrokBuild.ChatActor.Tokens

/-!
# The state of the chat-state actor

`ChatState` with the fields its handlers read, the persisted history, and the
turn capture: an offset into the conversation, saved and rebased by every
handler that replaces or repairs the vector. A handler that panics is `none`.
-/

namespace GrokBuild.ChatActor

open TextLines ChatHistory

structure PruningConfig where
  enabled : Bool
  keepLastNTurns : Nat
  softTrimThreshold : Nat
  softTrimHead : Nat
  softTrimTail : Nat
  hardClearAgeTurns : Nat

def PruningConfig.default : PruningConfig := ⟨true, 3, 4000, 1500, 1500, 10⟩

/-- What an actor is spawned with, and what the code leaves to its build and
to floating point. -/
structure Env where
  pruning : PruningConfig
  /-- Whether `debug_assert!` is compiled in. -/
  debugAssertions : Bool
  /-- `(base_estimate as f64 * (total as f64 / estimate as f64)).round()`. -/
  reseed : Nat → Nat → Nat → Nat
  /-- What `serde_json` writes for an item, in bytes. -/
  itemJsonBytes : ConversationItem → Nat

structure TurnCaptureState where
  turnStartOffset : Nat
  preReplacementMessages : Conversation
  compactionOccurred : Bool
  deriving DecidableEq

/-- The fields of `SamplingConfig` that handlers read. -/
structure SamplingConfig where
  model : Text
  contextWindow : Nat
  deriving DecidableEq

structure ChatState where
  conversation : Conversation
  samplingConfig : SamplingConfig
  promptIndex : Nat
  promptTexts : List Text
  totalTokens : Nat
  lastCompactionPromptIndex : Option Nat
  estimatedTokensSinceModel : Nat
  estimateAtLastResponse : Nat
  turnCapture : Option TurnCaptureState
  harnessTraceBuffer : Conversation
  harnessTraceTurns : List Conversation
  deriving DecidableEq

/-- The persisted history, and whether `replace_history` was called on it
since the process started. -/
structure Disk where
  history : Conversation
  rewritten : Bool
  deriving DecidableEq

def Disk.persistMessage (disk : Disk) (item : ConversationItem) : Disk :=
  { disk with history := disk.history ++ [item] }

def Disk.replaceHistory (_disk : Disk) (items : Conversation) : Disk := ⟨items, true⟩

@[simp] theorem Disk.persistMessage_history (disk : Disk) (item : ConversationItem) :
    (disk.persistMessage item).history = disk.history ++ [item] := rfl

@[simp] theorem Disk.persistMessage_rewritten (disk : Disk) (item : ConversationItem) :
    (disk.persistMessage item).rewritten = disk.rewritten := rfl

@[simp] theorem Disk.replaceHistory_history (disk : Disk) (items : Conversation) :
    (disk.replaceHistory items).history = items := rfl

@[simp] theorem Disk.replaceHistory_rewritten (disk : Disk) (items : Conversation) :
    (disk.replaceHistory items).rewritten = true := rfl

structure Actor where
  state : ChatState
  disk : Disk
  deriving DecidableEq

/-! ## Starting -/

/-- The two passes of `ChatState::new` over the history it is given. -/
def repairedAtStart (items : Conversation) : Conversation :=
  (repairDanglingToolCalls (dedupDuplicateToolResults items).1 .userCancelled).1

def ChatState.new (conversation : Conversation) (samplingConfig : SamplingConfig) :
    Option ChatState := do
  let conversation := repairedAtStart conversation
  let initialTokens ← estimateConversationTokens conversation
  some
    { conversation
      samplingConfig
      promptIndex := 0
      promptTexts := []
      totalTokens := initialTokens
      lastCompactionPromptIndex := none
      estimatedTokensSinceModel := 0
      estimateAtLastResponse := initialTokens
      turnCapture := none
      harnessTraceBuffer := []
      harnessTraceTurns := [] }

/-- An actor spawned on a persisted history. -/
def Actor.spawn (history : Conversation) (samplingConfig : SamplingConfig) : Option Actor :=
  (ChatState.new history samplingConfig).map fun state => ⟨state, ⟨history, false⟩⟩

/-! ## Turn capture -/

def turnTail (env : Env) (conversation : Conversation) (offset : Nat) : Option Conversation :=
  if offset ≤ conversation.length then some (conversation.drop offset)
  else if env.debugAssertions then none
  else some []

def snapshotTurnSlice (env : Env) (st : ChatState) : Option ChatState :=
  match st.turnCapture with
  | none => some st
  | some cap => do
    let tail ← turnTail env st.conversation cap.turnStartOffset
    let cap := { cap with preReplacementMessages := cap.preReplacementMessages ++ tail }
    some { st with turnCapture := some cap }

def rebaseTurnCaptureOffset (st : ChatState) : ChatState :=
  { st with
    turnCapture := st.turnCapture.map fun cap =>
      { cap with turnStartOffset := st.conversation.length } }

@[simp] theorem rebaseTurnCaptureOffset_conversation (st : ChatState) :
    (rebaseTurnCaptureOffset st).conversation = st.conversation := rfl

/-- The capture's offset is inside the conversation. -/
def CaptureInside (st : ChatState) : Prop :=
  ∀ cap, st.turnCapture = some cap → cap.turnStartOffset ≤ st.conversation.length

/-- A capture with its tail in the given conversation saved, and its offset moved to `offset`. -/
def TurnCaptureState.savedAt (cap : TurnCaptureState) (conversation : Conversation)
    (offset : Nat) : TurnCaptureState :=
  { cap with
    preReplacementMessages :=
      cap.preReplacementMessages ++ conversation.drop cap.turnStartOffset
    turnStartOffset := offset }

theorem snapshotTurnSlice_of_inside {env : Env} {st : ChatState} (h : CaptureInside st) :
    snapshotTurnSlice env st = some { st with
      turnCapture := st.turnCapture.map fun cap =>
        cap.savedAt st.conversation cap.turnStartOffset } := by
  rw [snapshotTurnSlice]
  cases hcap : st.turnCapture with
  | none =>
    obtain ⟨conversation, _, _, _, _, _, _, _, turnCapture, _, _⟩ := st
    cases hcap
    rfl
  | some cap =>
    have hin := h cap hcap
    simp only [turnTail, if_pos hin]
    rfl

theorem captureInside_rebase (st : ChatState) : CaptureInside (rebaseTurnCaptureOffset st) := by
  intro cap hcap
  obtain ⟨old, -, rfl⟩ := Option.map_eq_some_iff.mp hcap
  exact Nat.le_refl _

end GrokBuild.ChatActor
