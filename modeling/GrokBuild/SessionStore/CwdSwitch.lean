import GrokBuild.ChatHistory.Items
import GrokBuild.Lib.Guided
import GrokBuild.SessionStore.Patches
import GrokBuild.SessionStore.Torn

/-!
# Session storage: the record of a directory switch

`append_cwd_switch_with_bookkeeping`: a call appends its item under the lock of
the chat history, unless an item of its generation is there, and then patches
the summary under the lock of the summary. Any number of calls do so at the
same time, and each is retried until it returns `Ok`.
-/

namespace GrokBuild.SessionStore

open TextLines Str LineLog ChatHistory Function List

inductive StrictAppendAck where
  | appended
  | alreadyPresent (authoritative : ConversationItem)
  deriving DecidableEq

/-- `AppendCwdSwitchError`, without the errors it wraps. -/
inductive AppendCwdSwitchError where
  | notCommitted
  | committed (acknowledgement : StrictAppendAck)
  deriving DecidableEq

/-- How an append goes: a fault before the write, a write that fails after some
bytes, a fault of a barrier behind the write, or none. -/
inductive AppendFault where
  | refused
  | stopped (written : Nat)
  | unsynced
  | none
  deriving DecidableEq

section Model

variable (codec : Codec ConversationItem)

def findCwdSwitchGeneration (contents : Bytes) (generation : Nat) : Option ConversationItem :=
  (segments contents).findSome? fun line =>
    (codec.decode line).filter (·.workingDirectorySwitchGeneration = some generation)

/-- `append_cwd_switch_line_sync_with`. -/
def appendCwdSwitchLine (contents line : Bytes) (generation : Nat) (fault : AppendFault) :
    Bytes × Except AppendCwdSwitchError StrictAppendAck :=
  if fault = .refused then (contents, .error .notCommitted)
  else match findCwdSwitchGeneration codec contents generation with
    | some authoritative => (contents, .ok (.alreadyPresent authoritative))
    | none =>
      match fault with
      | .refused => (contents, .error .notCommitted)
      | .stopped written => (appendJsonlLine contents line written, .error .notCommitted)
      | .unsynced =>
        (appendJsonlLine contents line (line.length + 1), .error (.committed .appended))
      | .none => (appendJsonlLine contents line (line.length + 1), .ok .appended)

/-- The generation of an item that a call takes. -/
def switchGeneration (item : ConversationItem) : Option Nat :=
  item.workingDirectorySwitchGeneration.filter (· > 0)

/-- The append of `append_cwd_switch_with_bookkeeping`. -/
def appendCwdSwitch (contents : Bytes) (message : ConversationItem) (fault : AppendFault) :
    Bytes × Except AppendCwdSwitchError StrictAppendAck :=
  match switchGeneration message with
  | none => (contents, .error .notCommitted)
  | some generation =>
    appendCwdSwitchLine codec contents (codec.encode message ++ [newline]) generation fault

/-- The patch of `append_cwd_switch_with_bookkeeping`. -/
def switchPatch (disposition : StrictAppendAck) (generation : Option Nat) : SummaryPatch where
  recordActivity := disposition = .appended
  chatMessages := if disposition = .appended then some (.increment ⟨1, one_le_usizeMax⟩) else none
  chatFormatVersion := some chatFormatVersion
  cwdSwitchBookkeepingGeneration := generation

/-- The rest of `append_cwd_switch_with_bookkeeping`: the patch, which may
fail, and the barrier behind it, which may fail after the patch is done. -/
def bookkeep (summary : Summary) (message : ConversationItem) (disposition : StrictAppendAck)
    (now : DateTime) (fault : Fault) (synced : Bool) :
    Summary × Except AppendCwdSwitchError StrictAppendAck :=
  if fault = .none then
    ((summary.applyPatch (switchPatch disposition (switchGeneration message)) now).1,
      if synced then .ok disposition else .error (.committed disposition))
  else (summary, .error (.committed disposition))

/-! ## Calls of any writers -/

/-- Where a call stands: in front of its append (again, after an error),
between its append and its patch, or behind its `Ok`. -/
inductive Progress where
  | waiting
  | holding (disposition : StrictAppendAck)
  | returned (disposition : StrictAppendAck)
  deriving DecidableEq

variable {ι : Type} [DecidableEq ι]

/-- The chat history, the summary and the calls. -/
structure SwitchState (ι : Type) where
  chat : Bytes
  summary : Summary
  progress : ι → Progress

/-- What a call does next, under the lock of its file. -/
inductive SwitchEvent (ι : Type) where
  | append (call : ι) (fault : AppendFault)
  | patch (call : ι) (now : DateTime) (fault : Fault) (synced : Bool)

def afterAppend : Except AppendCwdSwitchError StrictAppendAck → Progress
  | .ok disposition => .holding disposition
  | .error _ => .waiting

def afterPatch : Except AppendCwdSwitchError StrictAppendAck → Progress
  | .ok disposition => .returned disposition
  | .error _ => .waiting

variable (message : ι → ConversationItem)

def SwitchState.step (s : SwitchState ι) : SwitchEvent ι → SwitchState ι
  | .append k fault =>
    match s.progress k with
    | .waiting =>
      let (chat, result) := appendCwdSwitch codec s.chat (message k) fault
      { s with chat, progress := update s.progress k (afterAppend result) }
    | _ => s
  | .patch k now fault synced =>
    match s.progress k with
    | .holding disposition =>
      let (summary, result) := bookkeep s.summary (message k) disposition now fault synced
      { s with summary, progress := update s.progress k (afterPatch result) }
    | _ => s

end Model

/-! ## The switches of the history -/

section Switches

variable (codec : Codec ConversationItem)

/-- The generations of the switch items that parse. -/
def switchesIn (contents : Bytes) : List Nat :=
  (segments contents).filterMap fun line =>
    (codec.decode line).bind (·.workingDirectorySwitchGeneration)

variable {codec}

theorem findCwdSwitchGeneration_isSome {contents : Bytes} {generation : Nat} :
    (findCwdSwitchGeneration codec contents generation).isSome ↔
      generation ∈ switchesIn codec contents := by
  unfold findCwdSwitchGeneration switchesIn
  rw [findSome?_isSome_iff, mem_filterMap]
  refine exists_congr fun line => and_congr_right fun _ => ?_
  cases codec.decode line with
  | none => simp
  | some item => simp [Option.filter]

theorem switchesIn_append {message : ConversationItem} {generation : Nat}
    (h : RecordText codec.decode (codec.encode message) message)
    (hgen : switchGeneration message = some generation) (contents : Bytes) (written : Nat) :
    switchesIn codec (appendJsonlLine contents (codec.encode message ++ [newline]) written) =
      switchesIn codec contents ++
        if (codec.encode message).length ≤ reached contents written then [generation] else [] := by
  have hgeneration : message.workingDirectorySwitchGeneration = some generation :=
    Option.eq_some_of_filter_eq_some hgen
  have hblank : (codec.decode []).bind (·.workingDirectorySwitchGeneration) = none := by
    rw [h.parse_torn [] nil_prefix (Ne.symm h.object.ne_nil)]
    rfl
  have htorn : ∀ a ∈ [TornAppend.mk message written], ∀ p, p <+: codec.encode a.record →
      p ≠ codec.encode a.record →
        (codec.decode p).bind (·.workingDirectorySwitchGeneration) = none := by
    intro a ha p hp hne
    obtain rfl := mem_singleton.mp ha
    rw [h.parse_torn p hp hne]
    rfl
  have hrun := filterMap_pieces_run codec.encode hblank
    (by simpa using h.newline_not_mem) htorn contents
  rw [filterMap_pieces hblank, filterMap_pieces hblank] at hrun
  rw [appendJsonlLine_eq]
  refine hrun.trans (congrArg (switchesIn codec contents ++ ·) ?_)
  rw [whole, whole, append_nil]
  split
  · simp [h.parse_text, hgeneration]
  · rfl

theorem reached_line (contents record : Bytes) :
    record.length ≤ reached contents ((record ++ [newline]).length + 1) := by
  have hheal : (heal contents).length ≤ 1 := by
    unfold heal
    split <;> simp
  simp only [reached, length_append, length_singleton]
  omega

end Switches

end GrokBuild.SessionStore
