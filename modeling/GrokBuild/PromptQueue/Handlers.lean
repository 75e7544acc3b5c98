import GrokBuild.PromptQueue.Combine

/-!
# The handlers of the prompt queue

`prompt_queue.rs` on the actor's state: `queue_input` and the operations that
clients send for rows of the queue. Beside them what starts and ends a turn:
`maybe_start_running_task` promotes the front without taking it out,
`handle_completion` and the cancel of a send-now take it out.
-/

namespace GrokBuild.PromptQueue

open TextLines Str
open Workflow (Json)

/-- `State`, with the prompt id of the running task. `responses` are the
responses sent so far; prompts are numbered as they are submitted, and
`accepted` has the numbers of those of users. `sends` is bookkeeping: the
prompts inserted as send-now since the last reorder, in that order. -/
structure State where
  pendingInputs : List InputItem
  runningPromptId : Option Text
  combineEditHolds : List Text
  responses : List Response
  submitted : Nat
  accepted : List Nat
  sends : List Nat

/-- A session without prompts. -/
def State.start : State := ⟨[], none, [], [], 0, [], []⟩

/-- What a client submits. -/
structure PromptSubmission where
  promptBlocks : List ContentBlock
  promptId : Text
  promptMode : PromptMode
  clientIdentifier : Option Text
  verbatim : Bool
  jsonSchema : Option Json
  sendNow : Bool
  toolOverridesUpdate : Option Json

/-- `is_running_prompt`. -/
def State.isRunning (st : State) (promptId : Text) : Bool := st.runningPromptId == some promptId

/-! ## Submitting -/

/-- `sweep_pending_inputs`: the items kept. The running prompt's own slot is exempt. -/
def State.sweepPendingInputs (st : State) (dropIf : InputItem → Bool) : List InputItem :=
  st.pendingInputs.filter fun item => !(!st.isRunning item.promptId && dropIf item)

def State.preemptArmed (st : State) : Bool :=
  st.pendingInputs.any fun item =>
    item.origin.completionId.isSome && !st.isRunning item.promptId

/-- The item that `queue_input` builds. -/
def PromptSubmission.item (p : PromptSubmission) (respondTo : Nat) : InputItem :=
  let origin := PromptOrigin.fromPromptId p.promptId
  { promptId := p.promptId
    promptBlocks := p.promptBlocks
    promptMode := p.promptMode
    verbatim := p.verbatim
    jsonSchema := p.jsonSchema
    origin
    toolOverridesUpdate := p.toolOverridesUpdate
    respondTo
    queueMeta :=
      if origin.isSynthetic then none
      else
        some
          { id := p.promptId
            version := 0
            owner := p.clientIdentifier
            lastEditor := none
            kind :=
              (if (extractBashCommand p.promptBlocks).isSome then "bash" else "prompt").toList
            text := queueTextFromBlocks p.promptBlocks
            combinedTexts := none }
    sendNow := false }

/-- Whether the front is the running prompt's item. -/
def State.frontRuns (st : State) (pending : List InputItem) : Bool :=
  match pending.head? with
  | some front => st.isRunning front.promptId
  | none => false

/-- Where a send-now goes: behind the running front, and behind the send-nows there. -/
def State.sendNowIndex (st : State) (pending : List InputItem) : Nat :=
  let start := if st.frontRuns pending then 1 else 0
  start + ((pending.drop start).takeWhile (·.sendNow)).length

/-- The item inserted as send-now. -/
def State.insertSendNow (st : State) (item : InputItem) (pending : List InputItem) :
    List InputItem :=
  pending.insertIdx (st.sendNowIndex pending) { item with sendNow := true }

/-- `queue_input`, and whether the running turn must be cancelled. -/
def queueInput (p : PromptSubmission) (goalActive blockedInWait : Bool) (st : State) :
    State × Bool :=
  let item := p.item st.submitted
  let synthetic := item.origin.isSynthetic
  let pending :=
    if !synthetic && st.preemptArmed then st.sweepPendingInputs (·.origin.isSynthetic)
    else st.pendingInputs
  let turnRunning := st.runningPromptId.isSome
  let heldUserQueue := pending.any fun queued =>
    !queued.origin.isSynthetic && !st.isRunning queued.promptId
  let autoSendNow := turnRunning && blockedInWait && !heldUserQueue
  let sendNow := !synthetic && (p.sendNow || autoSendNow)
  ({ st with
      pendingInputs := if sendNow then st.insertSendNow item pending else pending ++ [item]
      submitted := st.submitted + 1
      accepted := if synthetic then st.accepted else st.accepted ++ [st.submitted]
      sends := if sendNow then st.sends ++ [st.submitted] else st.sends },
    sendNow && turnRunning && !goalActive)

/-! ## Rows of the queue -/

/-- The row of an id, at a version and, when one is given, of an owner. -/
def rowMatches (id : Text) (expectedVersion : Nat) (owner : Option Text) (item : InputItem) : Bool :=
  match item.queueMeta with
  | some m =>
    m.id == id && m.version == expectedVersion &&
      match owner with
      | none => true
      | some o => m.owner == some o
  | none => false

/-- `PromptBlockMeta::bash`, serialised. -/
def bashMeta (command : Text) : Meta := [("bash_command".toList, .string command)]

def applyQueuedPromptEdit (newText : Text) (editor : Option Text) (item : InputItem) : InputItem :=
  let blockMeta :=
    if (extractBashCommand item.promptBlocks).isSome then some (bashMeta newText) else none
  { item with
    promptBlocks := .text ⟨newText, blockMeta⟩ :: item.promptBlocks.filter ContentBlock.isImage
    queueMeta := item.queueMeta.map fun m =>
      { m with
        text := newText
        combinedTexts := none
        version := saturatingAdd m.version 1
        lastEditor := editor } }

def handleRemoveQueuedPrompt (id : Text) (expectedVersion : Nat) (owner : Option Text)
    (st : State) : State :=
  if st.isRunning id then st
  else
    match st.pendingInputs.find? (rowMatches id expectedVersion owner) with
    | some item =>
      { st with
        pendingInputs := st.pendingInputs.eraseP (rowMatches id expectedVersion owner)
        responses := st.responses ++ [respondRemovedPrompt item] }
    | none => st

/-- The text of an edit, if it is not blank. -/
def nonBlank (newText : Option Text) : Option Text := newText.filter fun t => !(trim t).isEmpty

/-- The row with the client's text, if the client edited it. -/
def withEditedText (newText owner : Option Text) (item : InputItem) : InputItem :=
  match nonBlank newText with
  | some text => applyQueuedPromptEdit text owner item
  | none => item

/-- `handle_interject_queued_prompt`, and whether the running turn must be cancelled. -/
def handleInterjectQueuedPrompt (id : Text) (expectedVersion : Nat) (owner newText : Option Text)
    (goalActive : Bool) (st : State) : State × Bool :=
  let row := rowMatches id expectedVersion owner
  let found := if st.isRunning id then none else st.pendingInputs.find? row
  match found with
  | some item =>
    let item := withEditedText newText owner item
    ({ st with
        pendingInputs := st.insertSendNow item (st.pendingInputs.eraseP row)
        sends := st.sends.erase item.respondTo ++ [item.respondTo] },
      st.runningPromptId.isSome && !goalActive)
  | none =>
    match nonBlank newText with
    | some text =>
      if st.isRunning id then (st, false)
      else
        ({ st with
          pendingInputs := st.pendingInputs.replaceF fun item =>
            if row item then some (applyQueuedPromptEdit text owner item) else none }, false)
    | none => (st, false)

/-- A queued prompt of a user: it has a row and does not run. -/
def State.isQueueable (st : State) (item : InputItem) : Bool :=
  match item.queueMeta with
  | some m => !st.isRunning m.id
  | none => false

/-- `rank`: the position of the row in the requested order, or behind all. -/
def orderRank (orderedIds : List Text) (item : InputItem) : Nat :=
  (item.queueMeta.bind fun m => orderedIds.findIdx? (· == m.id)).getD usizeMax

def handleReorderQueue (orderedIds : List Text) (st : State) : State :=
  let queued := st.pendingInputs.filter st.isQueueable
  let pinned := st.pendingInputs.filter fun item => !st.isQueueable item
  { st with
    pendingInputs := pinned ++
      queued.mergeSort fun a b => orderRank orderedIds a ≤ orderRank orderedIds b
    sends := [] }

/-- `keep` of `handle_clear_queue`. -/
def State.keptByClear (st : State) (owner : Option Text) (item : InputItem) : Bool :=
  match item.queueMeta with
  | none => true
  | some m =>
    st.isRunning m.id ||
      match owner with
      | some o => m.owner != some o
      | none => false

def handleClearQueue (owner : Option Text) (st : State) : State :=
  { st with
    pendingInputs := st.pendingInputs.filter (st.keptByClear owner)
    responses := st.responses ++
      (st.pendingInputs.filter fun item => !st.keptByClear owner item).map respondRemovedPrompt }

def handleEditQueuedPrompt (id newText : Text) (editor : Option Text) (st : State) : State :=
  let row : InputItem → Bool := fun item => item.queueMeta.any fun m => m.id == id
  if (trim newText).isEmpty then st
  else if st.isRunning id then st
  else if !st.pendingInputs.any row then st
  else
    { st with
      pendingInputs := st.pendingInputs.replaceF fun item =>
        if row item then some (applyQueuedPromptEdit newText editor item) else none
      combineEditHolds := st.combineEditHolds.filter (· != id) }

/-! ## Turns -/

/-- The loop that drops stale workflow completions at the front. -/
def dropStaleFronts (stale : Text → Bool) : List InputItem → List InputItem × List Response
  | [] => ([], [])
  | item :: rest =>
    match item.origin with
    | .workflowCompleted completionId =>
      if stale completionId then
        let r := dropStaleFronts stale rest
        (r.1, respondRemovedPrompt item :: r.2)
      else (item :: rest, [])
    | _ => (item :: rest, [])

/-- The edit holds of prompts that are still queued. -/
def State.liveHolds (st : State) (pending : List InputItem) : List Text :=
  st.combineEditHolds.filter fun id => pending.any fun item => item.promptId == id

/-- The queue that the next turn is started from, and the responses that making it sends. -/
def State.startQueue (st : State) (stale : Text → Bool) (combineQueued : Bool) :
    List InputItem × List Response :=
  let fresh := dropStaleFronts stale st.pendingInputs
  let combined :=
    if combineQueued then combineFrontPendingInputs fresh.1 (st.liveHolds fresh.1)
    else (fresh.1, [])
  (combined.1, fresh.2 ++ combined.2)

/-- The front at its promotion: its tool override is taken. -/
def InputItem.promoted (item : InputItem) : InputItem := { item with toolOverridesUpdate := none }

/-- `maybe_start_running_task`: what the workflow tracker reports of a
completion, and whether queued prompts are combined, are given. The front
stays in the queue. -/
def maybeStartRunningTask (stale : Text → Bool) (combineQueued : Bool) (st : State) : State :=
  if st.runningPromptId.isSome || st.pendingInputs.isEmpty then st
  else
    let queue := st.startQueue stale combineQueued
    { st with
      pendingInputs := queue.1.modifyHead InputItem.promoted
      runningPromptId := queue.1.head?.map (·.promptId)
      combineEditHolds := st.liveHolds (dropStaleFronts stale st.pendingInputs).1
      responses := st.responses ++ queue.2 }

def handleCompletion (promptId : Text) (st : State) : State :=
  let owned := st.pendingInputs.head?.filter fun front => front.promptId == promptId
  let st' :=
    match owned with
    | some front =>
      { st with
        pendingInputs := st.pendingInputs.tail
        responses := st.responses ++ [(front.respondTo, .turnResult)] }
    | none => st
  if st.isRunning promptId || owned.isSome then { st' with runningPromptId := none } else st'

/-- `cancel_turn_for_send_now`: the front is resolved whether or not its turn runs. -/
def cancelTurnForSendNow (st : State) : State :=
  { st with
    pendingInputs := st.pendingInputs.tail
    runningPromptId := none
    responses := st.responses ++
      (st.pendingInputs.take 1).map fun item => (item.respondTo, Completion.cancelled) }

/-! ## Runs -/

/-- The operations of clients on the queue. -/
inductive QueueOperation where
  | queueInput (p : PromptSubmission) (goalActive blockedInWait : Bool)
  | remove (id : Text) (expectedVersion : Nat) (owner : Option Text)
  | interject (id : Text) (expectedVersion : Nat) (owner newText : Option Text)
      (goalActive : Bool)
  | reorder (orderedIds : List Text)
  | clear (owner : Option Text)
  | edit (id newText : Text) (editor : Option Text)
  | holdCombineEdit (id : Text)
  | releaseCombineEdit (id : Text)

/-- What happens to the session: an operation of a client, or the start and end of turns. -/
inductive Event where
  | operation (op : QueueOperation)
  | start (stale : Text → Bool) (combineQueued : Bool)
  | completion (promptId : Text)
  | cancelForSendNow

def QueueOperation.apply (st : State) : QueueOperation → State
  | .queueInput p goalActive blockedInWait =>
    (PromptQueue.queueInput p goalActive blockedInWait st).1
  | .remove id expectedVersion owner => handleRemoveQueuedPrompt id expectedVersion owner st
  | .interject id expectedVersion owner newText goalActive =>
    (handleInterjectQueuedPrompt id expectedVersion owner newText goalActive st).1
  | .reorder orderedIds => handleReorderQueue orderedIds st
  | .clear owner => handleClearQueue owner st
  | .edit id newText editor => handleEditQueuedPrompt id newText editor st
  | .holdCombineEdit id => { st with combineEditHolds := id :: st.combineEditHolds.filter (· != id) }
  | .releaseCombineEdit id => { st with combineEditHolds := st.combineEditHolds.filter (· != id) }

def step (st : State) : Event → State
  | .operation op => op.apply st
  | .start stale combineQueued => maybeStartRunningTask stale combineQueued st
  | .completion promptId => handleCompletion promptId st
  | .cancelForSendNow => cancelTurnForSendNow st

end GrokBuild.PromptQueue
