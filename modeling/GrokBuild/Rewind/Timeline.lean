import GrokBuild.Rewind.Replay

/-!
# Rewind: the timeline of an update log

The logs that a session writes, entry by entry: which of them survive the
rewinds, and the replay of such a log as a machine of its own. A message is
pending in it, or none is; that is all that the replay's flags amount to.
-/

namespace GrokBuild.Rewind

open TextLines ChatHistory List

/-- What a session logs: a prompt, some text of its answer, a compaction, or
a rewind. -/
inductive Entry where
  | prompt (index : Nat) (chunks : List Text)
  | agent (text : Text) (promptIndex : Option Nat)
  | checkpoint (info : CheckpointInfo)
  | rewind (target : Nat)

namespace Entry

def updates : Entry → List Update
  | prompt index chunks =>
    chunks.map fun text => .userMessageChunk ⟨some text, some index, false⟩
  | agent text promptIndex => [.agentMessageChunk ⟨some text, promptIndex, false⟩]
  | checkpoint info => [.compactionCheckpoint info]
  | rewind target => [.rewindMarker target]

def isPrompt : Entry → Bool
  | prompt _ _ => true
  | _ => false

/-- The entry begins a prompt from the target on. -/
def beginsFrom (target : Nat) : Entry → Bool
  | prompt index _ => target ≤ index
  | _ => false

end Entry

/-- The lines of the log. -/
def logOf (entries : List Entry) : List (Option Update) :=
  (entries.flatMap Entry.updates).map some

def begun (entries : List Entry) : Nat := entries.countP Entry.isPrompt

/-- What is left in front of the target prompt. -/
def before (target : Nat) (entries : List Entry) : List Entry :=
  entries.takeWhile fun e => !e.beginsFrom target

/-- The surviving entries after one more. -/
def survive (survivors : List Entry) : Entry → List Entry
  | .rewind target => before target survivors
  | e => survivors ++ [e]

/-- The log without the rewinds and what they discarded. -/
def survivors (entries : List Entry) : List Entry := entries.foldl survive []

/-- The checkpoint's file can be loaded. -/
def Readable (dir : SessionDir) (info : CheckpointInfo) : Prop :=
  ∃ file, dir.read info.checkpointFile = .file file ∧ file.schemaVersion ≤ 1

/-- A turn is running from its prompt on, until a rewind. -/
def turnAfter (running : Bool) : Entry → Bool
  | .prompt _ _ => true
  | .rewind _ => false
  | _ => running

/-- An entry that a session can log after the survivors: the next prompt, text
of the running turn, a compaction with the number of prompts so far, or a
rewind to a prompt that has begun. -/
def Loggable (dir : SessionDir) (survivors : List Entry) (running : Bool) : Entry → Prop
  | .prompt index chunks => index = begun survivors ∧ chunks ≠ []
  | .agent _ _ => running = true
  | .checkpoint info => info.promptIndexAtCompaction = begun survivors ∧ Readable dir info
  | .rewind target => target < begun survivors

/-- The log of a session that goes on from the survivors. -/
def Logged (dir : SessionDir) : List Entry → Bool → List Entry → Prop
  | _, _, [] => True
  | survivors, running, e :: entries =>
    Loggable dir survivors running e ∧
      Logged dir (survive survivors e) (turnAfter running e) entries

/-! ## The machine -/

inductive Pending where
  | none
  | user (index : Nat) (text : Text)
  | agent (text : Text)
  deriving DecidableEq

/-- What the replay has made of the log so far. The checkpoint is the length
of its history, and its prompt index. -/
structure Branch where
  conversation : List ConversationItem
  promptCounter : Nat
  checkpoint : Option (Nat × Nat)
  pending : Pending
  deriving DecidableEq

def userItem (index : Nat) (text : Text) : ConversationItem :=
  .user ⟨[.text text], none, some index, none⟩

/-- The history of a checkpoint, healed. -/
def SessionDir.history (dir : SessionDir) (info : CheckpointInfo) : List ConversationItem :=
  match dir.read info.checkpointFile with
  | .file file => file.compactedHistory.map dir.stripInvalidImages
  | _ => []

namespace Branch

def new : Branch := ⟨[], 0, none, .none⟩

variable (b : Branch)

/-- The pending message is put into the conversation. -/
def settle : Branch :=
  match b.pending with
  | .none => b
  | .user index text =>
    if text = [] then { b with pending := .none }
    else
      { b with
        conversation := b.conversation ++ [userItem index text]
        promptCounter := b.promptCounter + 1
        pending := .none }
  | .agent text =>
    { b with conversation := b.conversation ++ [.ofAssistant text], pending := .none }

def begin (index : Nat) (text : Text) : Branch := { b.settle with pending := .user index text }

def answer (text : Text) : Branch :=
  match b.pending with
  | .agent earlier => { b with pending := .agent (earlier ++ text) }
  | _ => { b.settle with pending := .agent text }

def load (dir : SessionDir) (info : CheckpointInfo) : Branch where
  conversation := dir.history info ++ (info.autoContinue.map ConversationItem.ofUser).toList
  promptCounter := info.promptIndexAtCompaction
  checkpoint := some ((dir.history info).length, info.promptIndexAtCompaction)
  pending := .none

/-- The conversation in front of the target prompt. -/
def cut (target : Nat) : Branch :=
  let keep := conversationTruncateForPrompt b.conversation target
  match b.checkpoint with
  | some (base, index) =>
    let appended := b.conversation.drop base
    let cutPos := base + cutAfterTurns (target - index) false appended
    if index ≤ target then { b with conversation := b.conversation.take cutPos }
    else if target = 0 then { b with conversation := [], checkpoint := none }
    else { b with conversation := b.conversation.take keep, checkpoint := none }
  | none =>
    if target = 0 then { b with conversation := [] }
    else { b with conversation := b.conversation.take keep }

def rewind (target : Nat) : Branch :=
  let b := { b with pending := .none }
  if b.promptCounter ≤ target then b else { b.cut target with promptCounter := target }

def step (dir : SessionDir) (target : Nat) : Entry → Branch
  | .prompt index chunks => b.begin index chunks.flatten
  | .agent text _ => b.answer text
  | .checkpoint info =>
    if target < info.promptIndexAtCompaction then b else load dir info
  | .rewind markerTarget => b.rewind markerTarget

def run (dir : SessionDir) (target : Nat) (b : Branch) (entries : List Entry) : Branch :=
  entries.foldl (fun b => b.step dir target) b

/-- At the end of the log. -/
def finish (target : Nat) : Branch :=
  if target < b.settle.promptCounter then { b.settle.cut target with promptCounter := target }
  else b.settle

end Branch

namespace Branch

theorem pending_settle (b : Branch) : b.settle.pending = .none := by
  unfold settle
  split
  · assumption
  · split <;> rfl
  · rfl

theorem pending_cut (b : Branch) (target : Nat) : (b.cut target).pending = b.pending := by
  unfold cut
  split
  · split
    · rfl
    · split <;> rfl
  · split <;> rfl

theorem pending_rewind (b : Branch) (target : Nat) : (b.rewind target).pending = .none := by
  unfold rewind
  simp only
  split
  · rfl
  · exact pending_cut _ target

/-- Only checkpoints up to the target are loaded. -/
def Within (target : Nat) (b : Branch) : Prop :=
  ∀ base index, b.checkpoint = some (base, index) → index ≤ target

theorem checkpoint_settle (b : Branch) : b.settle.checkpoint = b.checkpoint := by
  unfold settle
  split
  · rfl
  · split <;> rfl
  · rfl

theorem checkpoint_cut (b : Branch) (target : Nat) :
    (b.cut target).checkpoint = b.checkpoint ∨ (b.cut target).checkpoint = none := by
  unfold cut
  split
  · split
    · exact .inl rfl
    · split <;> exact .inr rfl
  · split <;> exact .inl rfl

theorem Within.step {target : Nat} {b : Branch} (h : b.Within target) (dir : SessionDir)
    (e : Entry) : (b.step dir target e).Within target := by
  intro base index hcheck
  cases e with
  | prompt index' chunks =>
    rw [show (b.step dir target (.prompt index' chunks)).checkpoint = b.settle.checkpoint from rfl,
      checkpoint_settle] at hcheck
    exact h base index hcheck
  | agent text promptIndex =>
    refine h base index (hcheck ▸ ?_)
    show _ = (b.answer text).checkpoint
    unfold answer
    split
    · rfl
    · exact b.checkpoint_settle.symm
  | checkpoint info =>
    simp only [Branch.step] at hcheck
    split at hcheck
    · exact h base index hcheck
    · obtain ⟨-, rfl⟩ := Prod.mk.inj (Option.some.inj hcheck)
      omega
  | rewind markerTarget =>
    simp only [Branch.step, rewind] at hcheck
    split at hcheck
    · exact h base index hcheck
    · rcases checkpoint_cut { b with pending := .none } markerTarget with hsame | hnone
      · exact h base index (hsame.symm.trans hcheck)
      · rw [show (cut { b with pending := .none } markerTarget).checkpoint = some (base, index)
          from hcheck] at hnone
        cases hnone

end Branch

/-! ## The replay is the machine -/

/-- The state's flags and buffers, as far as a pending message goes. -/
def ShowsPending (st : ReplayState) : Pending → Prop
  | .none => st.inUserMessage = false ∧ st.currentUserText = [] ∧
      st.currentUserPromptIndex = none ∧ st.currentAgentText = [] ∧ st.hasPendingAgent = false
  | .user index text => st.inUserMessage = true ∧ st.currentUserText = text ∧
      st.currentUserPromptIndex = some index ∧ st.currentAgentText = [] ∧
      st.hasPendingAgent = false
  | .agent text => st.inUserMessage = false ∧ st.currentUserText = [] ∧
      st.currentUserPromptIndex = none ∧ st.currentAgentText = text ∧ st.hasPendingAgent = true

structure Shows (target : Nat) (st : ReplayState) (b : Branch) : Prop where
  target : st.target = target
  conversation : st.conversation = b.conversation
  promptCounter : st.promptCounter = b.promptCounter
  checkpoint : (if st.checkpointActive then
    some (st.checkpointBaseLen, st.checkpointPromptIndex) else none) = b.checkpoint
  pending : ShowsPending st b.pending
  marked : 0 < st.promptCounter ∨ st.inUserMessage = true → st.seenPromptIndexMarker = true

namespace Shows

variable {target : Nat} {st : ReplayState} {b : Branch}

theorem new (target : Nat) : Shows target (.new target) .new where
  target := rfl
  conversation := rfl
  promptCounter := rfl
  checkpoint := rfl
  pending := ⟨rfl, rfl, rfl, rfl, rfl⟩
  marked h := by rcases h with h | h <;> cases h

theorem settle (h : Shows target st b) : Shows target st.flushHostTurnBoundary b.settle := by
  obtain ⟨htarget, hconv, hcount, hcheck, hpending, hmarked⟩ := h
  unfold Branch.settle ReplayState.flushHostTurnBoundary ReplayState.endUserMessage
  cases hb : b.pending with
  | none =>
    rw [hb] at hpending
    obtain ⟨huser, htext, hindex, hagent, hhas⟩ := hpending
    simp only [huser, Bool.false_eq_true, if_false, ReplayState.flushPendingAgent, hhas]
    exact ⟨htarget, hconv, hcount, hcheck, hb ▸ ⟨huser, htext, hindex, hagent, hhas⟩, hmarked⟩
  | user index text =>
    rw [hb] at hpending
    obtain ⟨huser, htext, hindex, hagent, hhas⟩ := hpending
    simp only [huser, if_true, ReplayState.flushPendingUser, htext]
    split
    · simp only [ReplayState.flushPendingAgent, hhas, Bool.false_eq_true, if_false]
      refine ⟨htarget, hconv, hcount, hcheck, ⟨rfl, ‹_›, rfl, hagent, rfl⟩, ?_⟩
      exact fun _ => hmarked (.inr huser)
    · simp only [ReplayState.flushPendingAgent, hhas, Bool.false_eq_true, if_false, hindex,
        Option.isSome_some, Bool.true_or, if_true]
      refine ⟨htarget, ?_, ?_, hcheck, ⟨rfl, rfl, rfl, hagent, rfl⟩, ?_⟩
      · simp [hconv, userItem]
      · simp [hcount]
      · exact fun _ => hmarked (.inr huser)
  | agent text =>
    rw [hb] at hpending
    obtain ⟨huser, htext, hindex, hagent, hhas⟩ := hpending
    simp only [huser, Bool.false_eq_true, if_false, ReplayState.flushPendingAgent, hhas, if_true]
    exact ⟨htarget, by simp [hconv, hagent], hcount, hcheck, ⟨rfl, htext, hindex, rfl, rfl⟩,
      fun hor => hmarked (huser ▸ hor)⟩

variable {index : Nat}

theorem handleUserChunk_first (h : Shows target st b) (text : Text)
    (hnew : ∀ earlier, b.pending ≠ .user index earlier) :
    st.handleUserChunk ⟨some text, some index, false⟩ =
      { st.flushHostTurnBoundary with
        inUserMessage := true
        currentUserText := text
        currentUserPromptIndex := some index
        seenPromptIndexMarker := true } := by
  have hpending := h.pending
  unfold ReplayState.handleUserChunk ReplayState.flushHostTurnBoundary ReplayState.endUserMessage
  cases hb : b.pending with
  | none =>
    rw [hb] at hpending
    obtain ⟨huser, htext, hindex, hagent, hhas⟩ := hpending
    simp [huser, hhas, ReplayState.flushPendingAgent, ReplayState.beginUserMessage]
  | user earlier text' =>
    rw [hb] at hpending
    obtain ⟨huser, htext, hindex, hagent, hhas⟩ := hpending
    have hne : index ≠ earlier := by
      rintro rfl
      exact hnew text' hb
    by_cases htext' : text' = []
    · simp [huser, htext, htext', hindex, hne, hhas, hagent, ReplayState.flushPendingUser,
        ReplayState.flushPendingAgent, ReplayState.beginUserMessage]
    · simp [huser, htext, htext', hindex, hne, hhas, hagent, ReplayState.flushPendingUser,
        ReplayState.flushPendingAgent, ReplayState.beginUserMessage]
  | agent text' =>
    rw [hb] at hpending
    obtain ⟨huser, htext, hindex, hagent, hhas⟩ := hpending
    simp [huser, hhas, ReplayState.flushPendingAgent, ReplayState.beginUserMessage]

theorem firstChunk (h : Shows target st b) (text : Text)
    (hnew : ∀ earlier, b.pending ≠ .user index earlier) :
    Shows target (st.handleUserChunk ⟨some text, some index, false⟩) (b.begin index text) := by
  rw [h.handleUserChunk_first text hnew]
  have hsettled := h.settle
  have hpending := hsettled.pending
  rw [Branch.pending_settle] at hpending
  obtain ⟨-, -, -, hagent, hhas⟩ := hpending
  exact ⟨hsettled.target, hsettled.conversation, hsettled.promptCounter, hsettled.checkpoint,
    ⟨rfl, rfl, rfl, hagent, hhas⟩, fun _ => rfl⟩

theorem nextChunk (h : Shows target st b) {earlier : Text}
    (hpending : b.pending = .user index earlier) (text : Text) :
    Shows target (st.handleUserChunk ⟨some text, some index, false⟩)
      { b with pending := .user index (earlier ++ text) } := by
  obtain ⟨htarget, hconv, hcount, hcheck, hp, hmarked⟩ := h
  rw [hpending] at hp
  obtain ⟨huser, htext, hindex, hagent, hhas⟩ := hp
  unfold ReplayState.handleUserChunk
  simp only [Bool.false_eq_true, if_false, Option.isSome_some, if_true, huser, hindex,
    Bool.not_true, ne_eq, not_true_eq_false, false_and, reduceCtorEq]
  exact ⟨htarget, hconv, hcount, hcheck, ⟨rfl, by rw [htext], rfl, hagent, hhas⟩, fun _ => rfl⟩

theorem flushHostTurnBoundary_idle (h : st.hasPendingAgent = false) :
    st.flushHostTurnBoundary = st.endUserMessage := by
  have hidle : st.endUserMessage.hasPendingAgent = false := by
    unfold ReplayState.endUserMessage ReplayState.flushPendingUser
    split
    · split <;> exact h
    · exact h
  unfold ReplayState.flushHostTurnBoundary ReplayState.flushPendingAgent
  rw [hidle]
  rfl

theorem agentChunk (h : Shows target st b) (text : Text) (promptIndex : Option Nat) :
    Shows target (st.handleAgentChunk ⟨some text, promptIndex, false⟩) (b.answer text) := by
  have hafter : st.handleAgentChunk ⟨some text, promptIndex, false⟩ =
      { st.endUserMessage with
        currentAgentText := st.endUserMessage.currentAgentText ++ text
        hasPendingAgent := true } := rfl
  have hpending := h.pending
  rw [hafter]
  -- without an earlier text, what is pending is settled first
  have hfresh : st.hasPendingAgent = false →
      Shows target { st.endUserMessage with
        currentAgentText := st.endUserMessage.currentAgentText ++ text
        hasPendingAgent := true } { b.settle with pending := .agent text } := by
    intro hidle
    have hsettled := h.settle
    rw [flushHostTurnBoundary_idle hidle] at hsettled
    have hnone := hsettled.pending
    rw [Branch.pending_settle] at hnone
    obtain ⟨huser, htext, hindex, hagent, hhas⟩ := hnone
    exact ⟨hsettled.target, hsettled.conversation, hsettled.promptCounter, hsettled.checkpoint,
      ⟨huser, htext, hindex, by simp [hagent], rfl⟩, hsettled.marked⟩
  unfold Branch.answer
  cases hb : b.pending with
  | none =>
    rw [hb] at hpending
    exact hfresh hpending.2.2.2.2
  | user index text' =>
    rw [hb] at hpending
    exact hfresh hpending.2.2.2.2
  | agent text' =>
    rw [hb] at hpending
    obtain ⟨huser, htext, hindex, hagent, hhas⟩ := hpending
    have hsame : st.endUserMessage = st := by
      unfold ReplayState.endUserMessage
      rw [huser]
      rfl
    rw [hsame]
    exact ⟨h.target, h.conversation, h.promptCounter, h.checkpoint,
      ⟨huser, htext, hindex, by simp [hagent], rfl⟩, h.marked⟩

theorem truncateForPrompt_of_seen (st : ReplayState) (h : st.seenPromptIndexMarker = true)
    (markerTarget : Nat) :
    let keep := conversationTruncateForPrompt st.conversation markerTarget
    st.truncateForPrompt markerTarget = { st with conversation := st.conversation.take keep } := by
  have htarget : st.truncateTarget markerTarget = markerTarget := by
    unfold ReplayState.truncateTarget ReplayState.conversationHasMarkers
    rw [h, Bool.true_or, if_pos rfl]
  unfold ReplayState.truncateForPrompt
  rw [htarget]

theorem cut (h : Shows target st b) (hpending : b.pending = .none)
    (hseen : st.seenPromptIndexMarker = true) {markerTarget : Nat} {st' : ReplayState}
    (hst' : st' =
      if st.checkpointActive ∧ st.checkpointPromptIndex ≤ markerTarget then
        st.truncateAfterCheckpoint markerTarget
      else if markerTarget = 0 then { st with conversation := [], checkpointActive := false }
      else if st.checkpointActive then
        { st with checkpointActive := false }.truncateForPrompt markerTarget
      else st.truncateForPrompt markerTarget) :
    Shows target { st' with promptCounter := markerTarget }
      { b.cut markerTarget with promptCounter := markerTarget } := by
  have hcheck := h.checkpoint
  have hconv := h.conversation
  have hp := h.pending
  rw [hpending] at hp
  have hshow : ∀ st'' : ReplayState, ShowsPending st'' .none → ShowsPending st'' b.pending :=
    fun _ hnone => hpending ▸ hnone
  have hkeep : ∀ active, ReplayState.truncateForPrompt { st with checkpointActive := active }
      markerTarget = { st with
        checkpointActive := active
        conversation := b.conversation.take
          (conversationTruncateForPrompt b.conversation markerTarget) } := by
    intro active
    rw [← hconv]
    exact truncateForPrompt_of_seen { st with checkpointActive := active } hseen markerTarget
  unfold Branch.cut
  cases hactive : st.checkpointActive with
  | true =>
    rw [hactive, if_pos rfl] at hcheck
    rw [hactive] at hst'
    rw [← hcheck]
    by_cases hle : st.checkpointPromptIndex ≤ markerTarget
    · rw [if_pos ⟨rfl, hle⟩] at hst'
      simp only [hle, if_true]
      subst hst'
      unfold ReplayState.truncateAfterCheckpoint
      rw [hconv]
      refine ⟨h.target, rfl, rfl, ?_, hshow _ hp, fun _ => hseen⟩
      show (if st.checkpointActive then _ else _) = _
      rw [hactive]
      rfl
    · rw [if_neg fun hor => hle hor.2] at hst'
      by_cases hzero : markerTarget = 0
      · obtain rfl := hzero
        rw [if_pos rfl] at hst'
        simp only [hle, if_false, if_true]
        subst hst'
        exact ⟨h.target, rfl, rfl, rfl, hshow _ hp, fun _ => hseen⟩
      · rw [if_neg hzero, if_pos rfl, hkeep] at hst'
        simp only [hle, if_false, hzero]
        subst hst'
        exact ⟨h.target, rfl, rfl, rfl, hshow _ hp, fun _ => hseen⟩
  | false =>
    rw [hactive, if_neg Bool.false_ne_true] at hcheck
    rw [hactive, if_neg fun hor => Bool.false_ne_true hor.1] at hst'
    rw [← hcheck]
    by_cases hzero : markerTarget = 0
    · rw [if_pos hzero] at hst'
      simp only [hzero, if_true]
      subst hst'
      exact ⟨h.target, rfl, rfl, rfl, hshow _ hp, fun _ => hseen⟩
    · have hkeep' := hkeep st.checkpointActive
      rw [if_neg hzero, if_neg Bool.false_ne_true] at hst'
      rw [show ({ st with checkpointActive := st.checkpointActive } : ReplayState) = st from rfl,
        ← hst'] at hkeep'
      simp only [hzero, if_false]
      subst hkeep'
      refine ⟨h.target, rfl, rfl, ?_, hshow _ hp, fun _ => hseen⟩
      show (if st.checkpointActive then _ else _) = _
      rw [hactive]
      rfl

theorem discardPending (h : Shows target st b) :
    Shows target st.discardPending { b with pending := .none } := by
  refine ⟨h.target, h.conversation, h.promptCounter, h.checkpoint, ⟨rfl, rfl, rfl, rfl, rfl⟩, ?_⟩
  rintro (hpos | hnot)
  · exact h.marked (.inl hpos)
  · cases hnot

theorem rewind (h : Shows target st b) (markerTarget : Nat) :
    Shows target (st.handleRewindMarker markerTarget) (b.rewind markerTarget) := by
  have hdiscarded := h.discardPending
  unfold ReplayState.handleRewindMarker Branch.rewind
  by_cases hle : b.promptCounter ≤ markerTarget
  · have hle' : st.discardPending.promptCounter ≤ markerTarget := by
      rw [hdiscarded.promptCounter]
      exact hle
    rw [if_pos hle']
    simpa only [hle, if_true] using hdiscarded
  · have hle' : ¬ st.discardPending.promptCounter ≤ markerTarget := by
      rw [hdiscarded.promptCounter]
      exact hle
    rw [if_neg hle']
    simp only [hle, if_false]
    exact hdiscarded.cut rfl (hdiscarded.marked (.inl (by omega))) rfl

variable {dir : SessionDir}

theorem load (h : Shows target st b) {info : CheckpointInfo} {file : CheckpointFile}
    (hread : dir.read info.checkpointFile = .file file)
    (hseen : 0 < info.promptIndexAtCompaction → st.seenPromptIndexMarker = true) :
    Shows target (st.loadCheckpoint dir info file) (.load dir info) := by
  have hhistory : dir.history info = file.compactedHistory.map dir.stripInvalidImages := by
    unfold SessionDir.history
    rw [hread]
  unfold ReplayState.loadCheckpoint Branch.load
  rw [hhistory]
  refine ⟨h.target, ?_, rfl, rfl, ⟨rfl, rfl, rfl, rfl, rfl⟩, ?_⟩
  · cases info.autoContinue with
    | none => simp
    | some promptText => simp
  · rintro (hpos | hnot)
    · exact hseen hpos
    · cases hnot

/-! ### The whole log -/

theorem chunks (h : Shows target st b) {earlier : Text} (hpending : b.pending = .user index earlier)
    (texts : List Text) (dir : SessionDir) (rest : List (Option Update)) :
    ∃ st', st.processAll dir ((Entry.prompt index texts).updates.map some ++ rest) =
        st'.processAll dir rest ∧
      st'.seenPromptIndexMarker = true ∧
      Shows target st' { b with pending := .user index (earlier ++ texts.flatten) } := by
  induction texts generalizing st b earlier with
  | nil =>
    have hp := h.pending
    rw [hpending] at hp
    refine ⟨st, rfl, h.marked (.inr hp.1), ?_⟩
    rw [flatten_nil, append_nil, ← hpending]
    exact h
  | cons text texts ih =>
    obtain ⟨st', hrun, hseen', hshows⟩ := ih (h.nextChunk hpending text) rfl
    refine ⟨st', hrun, hseen', ?_⟩
    rw [flatten_cons, ← append_assoc]
    exact hshows

theorem seen_handleAgentChunk (st : ReplayState) (text : Text) (promptIndex : Option Nat) :
    (st.handleAgentChunk ⟨some text, promptIndex, false⟩).seenPromptIndexMarker =
      st.seenPromptIndexMarker := by
  show st.endUserMessage.seenPromptIndexMarker = _
  unfold ReplayState.endUserMessage ReplayState.flushPendingUser
  split
  · split <;> rfl
  · rfl

theorem seen_handleRewindMarker (st : ReplayState) (markerTarget : Nat) :
    (st.handleRewindMarker markerTarget).seenPromptIndexMarker = st.seenPromptIndexMarker := by
  unfold ReplayState.handleRewindMarker
  simp only
  repeat' split
  all_goals rfl

theorem begun_before_le (target : Nat) (entries : List Entry) :
    begun (before target entries) ≤ begun entries :=
  (takeWhile_sublist _).countP_le

theorem entry (h : Shows target st b) {survivors : List Entry} {running : Bool} {e : Entry}
    (hseen : 0 < begun survivors → st.seenPromptIndexMarker = true)
    (hfresh : ∀ index text, b.pending = .user index text → index < begun survivors)
    (hlog : Loggable dir survivors running e) (rest : List (Option Update)) :
    ∃ st', st.processAll dir (e.updates.map some ++ rest) = st'.processAll dir rest ∧
      Shows target st' (b.step dir target e) ∧
      (0 < begun (survive survivors e) → st'.seenPromptIndexMarker = true) ∧
      ∀ index text, (b.step dir target e).pending = .user index text →
        index < begun (survive survivors e) := by
  cases e with
  | prompt index texts =>
    obtain ⟨rfl, hne⟩ := hlog
    obtain ⟨text, texts, rfl⟩ := exists_cons_of_ne_nil hne
    have hfirst := h.firstChunk text fun earlier hearlier =>
      absurd (hfresh _ _ hearlier) (Nat.lt_irrefl _)
    obtain ⟨st', hrun, hseen', hshows⟩ := hfirst.chunks rfl texts dir rest
    refine ⟨st', hrun, hshows, fun _ => hseen', ?_⟩
    intro index text' hpending
    obtain ⟨rfl, -⟩ := Pending.user.inj hpending
    show begun survivors < begun (survivors ++ [_])
    simp [begun, Entry.isPrompt]
  | agent text promptIndex =>
    refine ⟨_, rfl, h.agentChunk text promptIndex, fun hpos => ?_, ?_⟩
    · rw [seen_handleAgentChunk]
      apply hseen
      simpa [begun, survive, Entry.isPrompt] using hpos
    · intro index text' hpending
      simp only [Branch.step, Branch.answer] at hpending
      split at hpending <;> cases hpending
  | checkpoint info =>
    obtain ⟨hindex, file, hread, hschema⟩ := hlog
    have hbegun : begun (survive survivors (.checkpoint info)) = begun survivors := by
      simp [begun, survive, Entry.isPrompt]
    rw [hbegun]
    simp only [Entry.updates, map_cons, map_nil, cons_append, nil_append,
      ReplayState.processAll, ReplayState.processUpdate, ReplayState.handleCheckpoint]
    by_cases hskip : target < info.promptIndexAtCompaction
    · have hskip' : st.target < info.promptIndexAtCompaction := h.target ▸ hskip
      simp only [hread, hskip', if_true, Branch.step, hskip]
      exact ⟨_, rfl, ⟨h.target, h.conversation, h.promptCounter, h.checkpoint, h.pending, h.marked⟩,
        hseen, hfresh⟩
    · have hskip' : ¬ st.target < info.promptIndexAtCompaction := h.target ▸ hskip
      have hload := h.load hread (hindex ▸ hseen)
      have hcontinue : ¬ (st.loadCheckpoint dir info file).target <
          (st.loadCheckpoint dir info file).promptCounter := by
        rw [hload.target, hload.promptCounter]
        exact hskip
      have hschema' : ¬ 1 < file.schemaVersion := by omega
      simp only [hread, hskip', hschema', if_false, hcontinue, Branch.step, hskip]
      refine ⟨_, rfl, hload, hseen, ?_⟩
      intro index text hpending
      cases hpending
  | rewind markerTarget =>
    refine ⟨_, rfl, h.rewind markerTarget, fun hpos => ?_, ?_⟩
    · rw [seen_handleRewindMarker]
      exact hseen (Nat.lt_of_lt_of_le hpos (begun_before_le _ _))
    · intro index text hpending
      have hnone := Branch.pending_rewind b markerTarget
      rw [show b.rewind markerTarget = b.step dir target (.rewind markerTarget) from rfl,
        hpending] at hnone
      cases hnone

theorem run (h : Shows target st b) {survivors : List Entry} {running : Bool} {entries : List Entry}
    (hseen : 0 < begun survivors → st.seenPromptIndexMarker = true)
    (hfresh : ∀ index text, b.pending = .user index text → index < begun survivors)
    (hlog : Logged dir survivors running entries) :
    ∃ st', st.processAll dir (logOf entries) = .ok st' ∧
      Shows target st' (b.run dir target entries) := by
  induction entries generalizing st b survivors running with
  | nil => exact ⟨st, rfl, h⟩
  | cons e entries ih =>
    obtain ⟨hentry, hrest⟩ := hlog
    obtain ⟨st', hrun, hshows, hseen', hfresh'⟩ := h.entry hseen hfresh hentry (logOf entries)
    obtain ⟨last, hlast, hshows'⟩ := ih hshows hseen' hfresh' hrest
    refine ⟨last, ?_, hshows'⟩
    rw [← hlast, ← hrun]
    simp [logOf]

/-- The flushes at the end of the log. -/
theorem flushAll_eq (h : Shows target st b) :
    st.flushPendingUser.flushPendingAgent =
      { st.flushHostTurnBoundary with inUserMessage := st.inUserMessage } := by
  have hpending := h.pending
  by_cases huser : st.inUserMessage = true
  · have hidle : st.flushPendingUser.hasPendingAgent = false := by
      have hhas : st.hasPendingAgent = false := by
        cases hb : b.pending with
        | user index text =>
          rw [hb] at hpending
          exact hpending.2.2.2.2
        | none | agent =>
          rw [hb] at hpending
          rw [hpending.1] at huser
          cases huser
      unfold ReplayState.flushPendingUser
      split <;> exact hhas
    have hkept : st.flushPendingUser.inUserMessage = st.inUserMessage := by
      unfold ReplayState.flushPendingUser
      split <;> rfl
    unfold ReplayState.flushHostTurnBoundary ReplayState.endUserMessage
    rw [if_pos huser]
    unfold ReplayState.flushPendingAgent
    simp only [hidle, Bool.false_eq_true, if_false, ← hkept]
    rw [← hidle]
  · have hempty : st.currentUserText = [] ∧ st.currentUserPromptIndex = none := by
      cases hb : b.pending with
      | user index text =>
        rw [hb] at hpending
        exact absurd hpending.1 huser
      | none | agent =>
        rw [hb] at hpending
        exact ⟨hpending.2.1, hpending.2.2.1⟩
    have hsame : st.flushPendingUser = st := by
      unfold ReplayState.flushPendingUser
      rw [if_pos hempty.1, ← hempty.2]
    have hkept : st.flushPendingAgent.inUserMessage = st.inUserMessage := by
      unfold ReplayState.flushPendingAgent
      split <;> rfl
    unfold ReplayState.flushHostTurnBoundary ReplayState.endUserMessage
    rw [if_neg huser, hsame, ← hkept]

theorem finish (h : Shows target st b) (hwithin : b.Within target) :
    (st.finish target).conversation = (b.finish target).conversation ∧
    (st.finish target).promptIndexReached = (b.finish target).promptCounter ∧
    (st.finish target).lastCompactionPromptIndex = (b.finish target).checkpoint.map (·.2) := by
  -- the flag of a user message in progress is not in the result
  have hflag : ∀ (st : ReplayState) (user : Bool), ReplayState.result
      (ReplayState.truncateToTarget { st with inUserMessage := user } target) =
        (st.truncateToTarget target).result := by
    intro st user
    unfold ReplayState.truncateToTarget
    simp only
    repeat' split
    all_goals rfl
  have hsettled := h.settle
  have hpending := Branch.pending_settle b
  have hresult : ∀ {st : ReplayState} {b : Branch}, Shows target st b →
      st.result.conversation = b.conversation ∧ st.result.promptIndexReached = b.promptCounter ∧
      st.result.lastCompactionPromptIndex = b.checkpoint.map (·.2) := by
    intro st b hshows
    refine ⟨hshows.conversation, hshows.promptCounter, ?_⟩
    rw [← hshows.checkpoint]
    unfold ReplayState.result
    cases st.checkpointActive <;> rfl
  have hwithin' : ∀ base index, b.settle.checkpoint = some (base, index) → index ≤ target := by
    rw [Branch.checkpoint_settle]
    exact hwithin
  unfold ReplayState.finish
  rw [h.flushAll_eq, hflag]
  generalize st.flushHostTurnBoundary = settled at hsettled
  unfold ReplayState.truncateToTarget Branch.finish
  by_cases hlt : target < b.settle.promptCounter
  · have hlt' : target < settled.promptCounter := hsettled.promptCounter ▸ hlt
    rw [if_pos hlt, if_pos hlt']
    apply hresult
    refine hsettled.cut hpending (hsettled.marked (.inl (by omega))) ?_
    by_cases hactive : settled.checkpointActive = true
    · have hle : settled.checkpointPromptIndex ≤ target := by
        have hcheck := hsettled.checkpoint
        rw [if_pos hactive] at hcheck
        exact hwithin' _ _ hcheck.symm
      rw [if_pos ⟨hactive, hle⟩, if_pos ⟨hactive, hle⟩]
    · have hinactive : settled.checkpointActive = false := by simpa using hactive
      simp only [hinactive, Bool.false_eq_true, false_and, if_false]
  · have hlt' : ¬ target < settled.promptCounter := hsettled.promptCounter ▸ hlt
    rw [if_neg hlt, if_neg hlt']
    exact hresult hsettled

end Shows

theorem Branch.Within.run {target : Nat} {b : Branch} (h : b.Within target) (dir : SessionDir)
    (entries : List Entry) : (b.run dir target entries).Within target := by
  induction entries generalizing b with
  | nil => exact h
  | cons e entries ih => exact ih (h.step dir e)

theorem replayToPrompt_logOf {dir : SessionDir} {entries : List Entry}
    (hlog : Logged dir [] false entries) (target : Nat) :
    ∃ result, replayToPrompt dir (.ok (some (logOf entries))) target = .ok result ∧
      result.conversation = ((Branch.new.run dir target entries).finish target).conversation ∧
      result.promptIndexReached =
        ((Branch.new.run dir target entries).finish target).promptCounter ∧
      result.lastCompactionPromptIndex =
        ((Branch.new.run dir target entries).finish target).checkpoint.map (·.2) := by
  obtain ⟨st, hrun, hshows⟩ := (Shows.new target).run (fun hpos => by cases hpos)
    (fun _ _ hpending => by cases hpending) hlog
  have hwithin : Branch.new.Within target := fun _ _ hcheck => by cases hcheck
  refine ⟨_, ?_, hshows.finish (Branch.Within.run hwithin dir entries)⟩
  unfold replayToPrompt
  simp only [hrun]

end GrokBuild.Rewind
