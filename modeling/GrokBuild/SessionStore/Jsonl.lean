import GrokBuild.Lib.Utf8
import Mathlib.Data.List.DropRight
import GrokBuild.Rewind.Points
import GrokBuild.SessionStore.Summary

/-!
# Session storage: the JSONL files

`storage/jsonl/mod.rs`: appends to the files of a session, one JSON record a
line, and their three readers. The chat history and the updates skip the lines
they cannot read; the rewind points are read strictly. What serde and the
upgrade of legacy chat items do is left to parameters.
-/

namespace GrokBuild.SessionStore

open TextLines Str LineLog Rewind List

/-! ## Appends -/

/-- `append_jsonl_line_sync_with`: the file behind a call whose write stops
after `written` bytes. -/
def appendJsonlLine (contents line : Bytes) (written : Nat) : Bytes :=
  let line :=
    match contents.getLast? with
    | none => line
    | some last => if last ≠ newline then newline :: line else line
  contents ++ line.take written

theorem appendJsonlLine_eq (contents record : Bytes) (written : Nat) :
    appendJsonlLine contents (record ++ [newline]) written =
      appendTorn contents record written := by
  unfold appendJsonlLine appendTorn heal terminated
  cases contents.getLast? with
  | none => rfl
  | some last => by_cases hlast : last = newline <;> simp [hlast]

/-- The appends of a run, one after another. -/
def appendAll {α : Type} (toVec : α → Bytes) (as : List (TornAppend α)) : Bytes :=
  as.foldl (fun contents a => appendJsonlLine contents (toVec a.record ++ [newline]) a.written) []

theorem appendAll_eq {α : Type} (toVec : α → Bytes) (as : List (TornAppend α)) :
    appendAll toVec as = runAppends toVec [] as := by
  unfold appendAll runAppends append
  simp only [appendJsonlLine_eq]

/-! ## Lines that are skipped when they do not parse -/

def trimAscii (line : Bytes) : Bytes :=
  (line.dropWhile isAsciiWhitespace).rdropWhile isAsciiWhitespace

/-- A line of a tolerant reader: nothing for a blank line. -/
def readLine {α : Type} (parse : Bytes → Option α) (line : Bytes) : Option α :=
  if trimAscii line = [] then none else parse (trimAscii line)

/-- A JSON object as `to_vec` writes it. -/
structure ObjectText (text : Bytes) : Prop where
  starts : text.head? = some 0x7B
  ends : text.getLast? = some 0x7D

variable {text : Bytes}

theorem ObjectText.ne_nil (h : ObjectText text) : text ≠ [] := by
  rintro rfl
  exact absurd h.starts (by simp)

theorem trimAscii_prefix {p : Bytes} (h : ObjectText text) (hp : p <+: text) : trimAscii p <+: p := by
  obtain ⟨rest, rfl⟩ := hp
  match p with
  | [] => exact prefix_refl _
  | b :: p =>
    obtain rfl : b = 0x7B := by simpa using h.starts
    have hstart : (0x7B :: p).dropWhile isAsciiWhitespace = 0x7B :: p := rfl
    rw [trimAscii, hstart]
    exact rdropWhile_prefix _ _

theorem trimAscii_object (h : ObjectText text) : trimAscii text = text := by
  have hstart : text.dropWhile isAsciiWhitespace = text := by
    match text, h.starts with
    | b :: text, hb =>
      obtain rfl : b = 0x7B := by simpa using hb
      rfl
  rw [trimAscii, hstart, rdropWhile_eq_self_iff]
  intro hne
  obtain hlast : text.getLast hne = 0x7D := by
    have hends := h.ends
    rw [getLast?_eq_getLast_of_ne_nil hne] at hends
    exact Option.some.inj hends
  rw [hlast]
  decide

section ReadLine

variable {α : Type} {parse : Bytes → Option α} {text : Bytes}

theorem readLine_nil : readLine parse [] = none := rfl

theorem readLine_object (h : ObjectText text) : readLine parse text = parse text := by
  rw [readLine, trimAscii_object h, if_neg h.ne_nil]

theorem readLine_torn (h : ObjectText text)
    (htorn : ∀ p, p <+: text → p ≠ text → parse p = none) {p : Bytes} (hp : p <+: text)
    (hne : p ≠ text) : readLine parse p = none := by
  have htrim := trimAscii_prefix h hp
  rw [readLine]
  split
  · rfl
  · refine htorn _ (htrim.trans hp) fun heq => hne ?_
    have hlength := htrim.length_le
    rw [heq] at hlength
    exact hp.eq_of_length_le hlength

end ReadLine

/-! ## `read_chat_history_sync` -/

/-- What the reader of the chat history calls: serde, and the upgrade of
legacy items. -/
structure ChatSerde (Value Item : Type) where
  fromSlice : Bytes → Option Value
  conversationItem : Value → Option Item
  chatRequestMessage : Value → Option Item
  upgradeLegacyReasoning : Value → List Text → List Item × List Text
  backendToolCallId : Item → Option Text
  stripInvalidImages : List Item → List Item

def chatFormatVersion : Nat := 1

/-- The items so far, and `sibling_btc_ids_seen`. -/
structure Loading (Item : Type) where
  items : List Item
  seen : List Text

def Loading.start {Item : Type} : Loading Item := ⟨[], []⟩

namespace ChatSerde

variable {Value Item : Type} (serde : ChatSerde Value Item) (version : Nat)

/-- `item_result`. -/
def itemOf (raw : Value) : Option Item :=
  if version ≥ chatFormatVersion then
    (serde.conversationItem raw).or (serde.chatRequestMessage raw)
  else (serde.chatRequestMessage raw).or (serde.conversationItem raw)

/-- An item that was read, behind the siblings of its upgrade. -/
def push (st : Loading Item) (raw : Value) (item : Item) : Loading Item :=
  let (siblings, seen) := serde.upgradeLegacyReasoning raw st.seen
  { items := st.items ++ siblings ++ [item]
    seen :=
      match serde.backendToolCallId item with
      | none => seen
      | some id => if id ∈ seen then seen else id :: seen }

/-- One line in the loop. -/
def readChatLine (st : Loading Item) (line : Bytes) : Loading Item :=
  let line := trimAscii line
  if line = [] then st
  else
    match serde.fromSlice line with
    | none => st
    | some raw =>
      match serde.itemOf version raw with
      | none => st
      | some item => serde.push st raw item

/-- `read_chat_history_sync`. -/
def readChatHistory (contents : Bytes) : List Item :=
  serde.stripInvalidImages ((segments contents).foldl (serde.readChatLine version) .start).items

/-- A line with the value it is decoded from. -/
def parseItem (line : Bytes) : Option (Value × Item) :=
  (serde.fromSlice line).bind fun raw => (serde.itemOf version raw).map fun item => (raw, item)

/-- The history that the records of a chat load as: upgraded and without
invalid images. -/
def history (records : List (Value × Item)) : List Item :=
  serde.stripInvalidImages (records.foldl (fun st r => serde.push st r.1 r.2) .start).items

theorem readChatLine_eq (st : Loading Item) (line : Bytes) :
    serde.readChatLine version st line =
      match readLine (serde.parseItem version) line with
      | some r => serde.push st r.1 r.2
      | none => st := by
  unfold readChatLine readLine parseItem
  dsimp only
  by_cases hline : trimAscii line = []
  · simp [hline]
  · rw [if_neg hline, if_neg hline]
    cases hraw : serde.fromSlice (trimAscii line) with
    | none => rfl
    | some raw => cases hitem : serde.itemOf version raw <;> simp [hitem]

theorem readChatHistory_eq (contents : Bytes) :
    serde.readChatHistory version contents =
      serde.history ((segments contents).filterMap (readLine (serde.parseItem version))) := by
  unfold readChatHistory history
  rw [foldl_filterMap]
  refine congrArg (fun step => serde.stripInvalidImages
    ((segments contents).foldl step Loading.start).items) (funext₂ fun st line => ?_)
  rw [readChatLine_eq]
  cases readLine (serde.parseItem version) line <;> rfl

end ChatSerde

/-! ## `read_updates_jsonl` -/

/-- A line of the updates: `from_utf8`, then `SessionUpdateEnvelope::from_str`. -/
def parseUpdate {Update : Type} (fromStr : Text → Option Update) (line : Bytes) : Option Update :=
  (decodeUtf8 line).bind fromStr

def readUpdatesJsonl {Update : Type} (fromStr : Text → Option Update) (contents : Bytes) :
    List Update :=
  (segments contents).filterMap (readLine (parseUpdate fromStr))

/-! ## The rewind points -/

/-- `read_jsonl`: the file as a text, and every line that is not blank a
record. -/
def readJsonl {α : Type} (codec : Codec α) (contents : Bytes) : Option (List α) :=
  codec.readStrict validUtf8 blankUtf8 contents

def loadRewindPoints (codec : Codec RewindPoint) (contents : Bytes) : Option (List RewindPoint) :=
  readJsonl codec contents

/-- `truncate_rewind_points_from`: the file that is written, unless the points
do not load. -/
def truncateRewindPointsFrom (codec : Codec RewindPoint) (contents : Bytes) (fromIndex : Nat) :
    Option Bytes :=
  (loadRewindPoints codec contents).map fun points =>
    codec.encodeAll (points.filter (·.promptIndex < fromIndex))

/-- `dedup_by_key` on the prompt index. -/
def dedupByIndex : Option Nat → List RewindPoint → List RewindPoint
  | _, [] => []
  | last, p :: ps =>
    if last = some p.promptIndex then dedupByIndex last ps
    else p :: dedupByIndex (some p.promptIndex) ps

/-- `merge_rewind_points_from` of `file_state.rs`, on points in any order. -/
def mergeAnyRewindPointsFrom (points : List RewindPoint) (targetIndex : Nat) : List RewindPoint :=
  mergeRewindPointsFrom
    (dedupByIndex none (points.insertionSort fun p q => p.promptIndex ≤ q.promptIndex)) targetIndex

/-- `merge_rewind_points_from` of the adapter. -/
def mergeRewindPoints (codec : Codec RewindPoint) (contents : Bytes) (targetIndex : Nat) :
    Option Bytes :=
  (loadRewindPoints codec contents).map fun points =>
    codec.encodeAll (mergeAnyRewindPointsFrom points targetIndex)

end GrokBuild.SessionStore
