import GrokBuild.SessionStore.Jsonl
import GrokBuild.Workflow.Journal

/-!
# Session storage: what a torn append costs

Appends to the files of a session may stop after any number of their bytes.
The chat history and the updates load as the records that were written as a
whole. The rewind points load so exactly when no append stopped inside its
record; else they do not load, and neither rewrite of them writes anything.
-/

namespace GrokBuild.SessionStore

open TextLines Str LineLog Rewind Workflow List

/-- A record as it is written: an object on one line that parses, and no torn
part of it does. -/
structure RecordText {β : Type} (parse : Bytes → Option β) (text : Bytes) (b : β) : Prop where
  object : ObjectText text
  newline_not_mem : newline ∉ text
  parse_text : parse text = some b
  parse_torn : ∀ p, p <+: text → p ≠ text → parse p = none

theorem filterMap_readLine_appendAll {α β : Type} {toVec : α → Bytes} {parse : Bytes → Option β}
    {value : α → β} {as : List (TornAppend α)}
    (h : ∀ a ∈ as, RecordText parse (toVec a.record) (value a.record)) :
    (segments (appendAll toVec as)).filterMap (readLine parse) = (whole toVec [] as).map value := by
  have hblank : readLine parse [] = none := readLine_nil
  have hrun := filterMap_pieces_run toVec hblank
    (fun a ha => (h a ha).newline_not_mem)
    (fun a ha p hp hne => readLine_torn (h a ha).object (h a ha).parse_torn hp hne) []
  rw [appendAll_eq, ← filterMap_pieces hblank, hrun, pieces_nil, filterMap_nil,
    nil_append, ← filterMap_eq_map']
  refine filterMap_congr fun r hr => ?_
  obtain ⟨a, ha, rfl⟩ := mem_whole hr
  rw [readLine_object (h a ha).object, (h a ha).parse_text]

theorem readChatHistory_appendAll {Value Item : Type} {serde : ChatSerde Value Item} {version : Nat}
    {toVec : Item → Bytes} {raw : Item → Value} {as : List (TornAppend Item)}
    (h : ∀ a ∈ as, RecordText (serde.parseItem version) (toVec a.record)
      (raw a.record, a.record)) :
    serde.readChatHistory version (appendAll toVec as) =
      serde.history ((whole toVec [] as).map fun item => (raw item, item)) := by
  have hlines : (segments (appendAll toVec as)).filterMap (readLine (serde.parseItem version)) =
      (whole toVec [] as).map fun item => (raw item, item) := filterMap_readLine_appendAll h
  rw [serde.readChatHistory_eq, hlines]

/-- A rewind point as it is written. -/
structure PointText (codec : Codec RewindPoint) (p : RewindPoint) : Prop
    extends codec.Lawful p where
  object : ObjectText (codec.encode p)
  utf8 : validUtf8 (codec.encode p) = true
  no_return : 13 ∉ codec.encode p

theorem PointText.strict {codec : Codec RewindPoint} {p : RewindPoint} (h : PointText codec p) :
    codec.StrictLawful validUtf8 blankUtf8 p where
  toLawful := h.toLawful
  valid := h.utf8
  no_return := h.no_return
  not_blank q hq hne := by
    obtain ⟨rest, hrest⟩ := hq
    match q, hne with
    | b :: q, _ =>
      obtain rfl : b = 0x7B := by
        have hstarts := h.object.starts
        rw [← hrest] at hstarts
        simpa using hstarts
      exact blankUtf8_brace q
  ne_nil := h.object.ne_nil

section Points

variable {codec : Codec RewindPoint} {as : List (TornAppend RewindPoint)}

theorem loadRewindPoints_appendAll (h : ∀ a ∈ as, PointText codec a.record) :
    loadRewindPoints codec (appendAll codec.encode as) =
      if NoneTorn codec.encode [] as then some (whole codec.encode [] as) else none := by
  have hstrict : ∀ a ∈ as, codec.StrictLawful validUtf8 blankUtf8 a.record :=
    fun a ha => (h a ha).strict
  rw [appendAll_eq, loadRewindPoints, readJsonl]
  split
  · next hnone => exact Codec.readStrict_of_noneTorn lineTests_utf8 hstrict hnone
  · next htorn => exact Codec.readStrict_of_torn lineTests_utf8 hstrict htorn

theorem loadRewindPoints_encodeAll {points : List RewindPoint}
    (h : ∀ p ∈ points, PointText codec p) :
    loadRewindPoints codec (codec.encodeAll points) = some points :=
  Codec.readStrict_encodeAll lineTests_utf8 fun p hp => (h p hp).strict

/-- What holds of the rewind points when no append was torn: they load as the
records that were written, and so do their rewrites. -/
structure PointsKept (codec : Codec RewindPoint) (as : List (TornAppend RewindPoint))
    (fromIndex target : Nat) : Prop where
  load : loadRewindPoints codec (appendAll codec.encode as) = some (whole codec.encode [] as)
  truncate : ∃ file, truncateRewindPointsFrom codec (appendAll codec.encode as) fromIndex = some file ∧
    loadRewindPoints codec file =
      some ((whole codec.encode [] as).filter (·.promptIndex < fromIndex))
  merge : ∃ file, mergeRewindPoints codec (appendAll codec.encode as) target = some file ∧
    loadRewindPoints codec file = some (mergeAnyRewindPointsFrom (whole codec.encode [] as) target)

/-- What holds of them when one was: nothing loads, and nothing is written. -/
structure PointsRefused (codec : Codec RewindPoint) (as : List (TornAppend RewindPoint))
    (fromIndex target : Nat) : Prop where
  load : loadRewindPoints codec (appendAll codec.encode as) = none
  truncate : truncateRewindPointsFrom codec (appendAll codec.encode as) fromIndex = none
  merge : mergeRewindPoints codec (appendAll codec.encode as) target = none

theorem pointsKept (h : ∀ a ∈ as, PointText codec a.record) {fromIndex target : Nat}
    (hmerged : ∀ p ∈ mergeAnyRewindPointsFrom (whole codec.encode [] as) target, PointText codec p)
    (hnone : NoneTorn codec.encode [] as) : PointsKept codec as fromIndex target := by
  have hload : loadRewindPoints codec (appendAll codec.encode as) =
      some (whole codec.encode [] as) := by
    rw [loadRewindPoints_appendAll h, if_pos hnone]
  have hwhole : ∀ p ∈ whole codec.encode [] as, PointText codec p := by
    intro p hp
    obtain ⟨a, ha, rfl⟩ := mem_whole hp
    exact h a ha
  have hkept : ∀ p ∈ (whole codec.encode [] as).filter (·.promptIndex < fromIndex),
      PointText codec p := fun p hp => hwhole p (mem_of_mem_filter hp)
  have hfiltered := loadRewindPoints_encodeAll hkept
  exact ⟨hload, ⟨_, congrArg (Option.map _) hload, hfiltered⟩,
    ⟨_, congrArg (Option.map _) hload, loadRewindPoints_encodeAll hmerged⟩⟩

theorem pointsRefused (h : ∀ a ∈ as, PointText codec a.record) {fromIndex target : Nat}
    (htorn : ¬ NoneTorn codec.encode [] as) : PointsRefused codec as fromIndex target := by
  have hload : loadRewindPoints codec (appendAll codec.encode as) = none := by
    rw [loadRewindPoints_appendAll h, if_neg htorn]
  exact ⟨hload, congrArg (Option.map _) hload, congrArg (Option.map _) hload⟩

end Points

/-- The chat history and the updates load as the records that were written as
a whole, in order. The rewind points do when no append stopped inside its
record, and are refused else. -/
theorem torn_append_costs_one_record {Value Item Envelope Update : Type}
    {serde : ChatSerde Value Item} {version : Nat} {toVec : Item → Bytes} {raw : Item → Value}
    {chat : List (TornAppend Item)}
    (hchat : ∀ a ∈ chat, RecordText (serde.parseItem version) (toVec a.record)
      (raw a.record, a.record))
    {fromStr : Text → Option Update} {envelopeToVec : Envelope → Bytes}
    {update : Envelope → Update} {updates : List (TornAppend Envelope)}
    (hupdates : ∀ a ∈ updates, RecordText (parseUpdate fromStr) (envelopeToVec a.record)
      (update a.record))
    {codec : Codec RewindPoint} {points : List (TornAppend RewindPoint)}
    (hpoints : ∀ a ∈ points, PointText codec a.record) {fromIndex target : Nat}
    (hmerged : ∀ p ∈ mergeAnyRewindPointsFrom (whole codec.encode [] points) target,
      PointText codec p) :
    serde.readChatHistory version (appendAll toVec chat) =
        serde.history ((whole toVec [] chat).map fun item => (raw item, item)) ∧
      readUpdatesJsonl fromStr (appendAll envelopeToVec updates) =
        (whole envelopeToVec [] updates).map update ∧
      (NoneTorn codec.encode [] points → PointsKept codec points fromIndex target) ∧
      (¬ NoneTorn codec.encode [] points → PointsRefused codec points fromIndex target) :=
  ⟨readChatHistory_appendAll hchat, filterMap_readLine_appendAll hupdates,
    pointsKept hpoints hmerged, pointsRefused hpoints⟩

/-! ## One record of each file -/

/-- `{"type":"system","content":"hi"}` -/
def hiText : Bytes := utf8Bytes "\x7b\"type\":\"system\",\"content\":\"hi\"\x7d".toList

def hiJson : Json :=
  .object [("type".toList, .string "system".toList), ("content".toList, .string "hi".toList)]

/-- A system message, by its content. -/
def systemContent (raw : Json) : Option Text :=
  if (raw.get "type".toList).bind Json.asStr = some "system".toList then
    (raw.get "content".toList).bind Json.asStr
  else none

def hiFromSlice (bytes : Bytes) : Option Json := if bytes = hiText then some hiJson else none

/-- The reader on that message: nothing of it is legacy, and it has no image. -/
def hiSerde : ChatSerde Json Text where
  fromSlice := hiFromSlice
  conversationItem := systemContent
  chatRequestMessage _ := none
  upgradeLegacyReasoning _ seen := ([], seen)
  backendToolCallId _ := none
  stripInvalidImages items := items

/-- `{"timestamp":1,"method":"session/update","params":{}}` -/
def updateText : Text :=
  "\x7b\"timestamp\":1,\"method\":\"session/update\",\"params\":\x7b\x7d\x7d".toList

/-- An update, by its method. -/
def updateFromStr (line : Text) : Option Text :=
  if line = updateText then some "session/update".toList else none

/-- The point of prompt 0 without snapshots. -/
def firstPointText : Bytes :=
  utf8Bytes ("\x7b\"prompt_index\":0,\"created_at\":\"1970-01-01T00:00:00Z\",".toList ++
    "\"file_snapshots\":\x7b\x7d,\"after_snapshots\":\x7b\x7d\x7d".toList)

def decodePoint (bytes : Bytes) : Option RewindPoint :=
  if bytes = firstPointText then some (.new 0) else none

def firstPointCodec : Codec RewindPoint := ⟨fun _ => firstPointText, decodePoint⟩

theorem pointText_firstPoint : PointText firstPointCodec (.new 0) where
  decode_encode := by
    have hdecode : decodePoint firstPointText = some (.new 0) := by rw [decodePoint, if_pos rfl]
    exact hdecode
  newline_not_mem := by decide
  decode_torn p _ hne := if_neg hne
  object := ⟨by decide, by decide⟩
  utf8 := validUtf8_utf8Bytes _
  no_return := by decide

/-- A point whose append stops behind its first byte costs every point. -/
theorem torn_point_costs_all :
    loadRewindPoints firstPointCodec
        (appendAll firstPointCodec.encode [⟨.new 0, 200⟩, ⟨.new 0, 1⟩]) = none ∧
      whole firstPointCodec.encode [] [⟨RewindPoint.new 0, 200⟩, ⟨.new 0, 1⟩] =
        [RewindPoint.new 0] := by
  refine ⟨?_, by decide⟩
  rw [loadRewindPoints_appendAll (by simpa using pointText_firstPoint)]
  exact if_neg (by decide)

theorem hiText_record : RecordText (hiSerde.parseItem 1) hiText (hiJson, "hi".toList) where
  object := ⟨by decide, by decide⟩
  newline_not_mem := by decide
  parse_text := by
    have hslice : hiFromSlice hiText = some hiJson := by rw [hiFromSlice, if_pos rfl]
    have hvalue : hiSerde.itemOf 1 hiJson = some "hi".toList := by decide
    change (hiFromSlice hiText).bind _ = _
    rw [hslice, Option.bind_some, hvalue]
    rfl
  parse_torn p _ hne := by
    have hslice : hiFromSlice p = none := by rw [hiFromSlice, if_neg hne]
    change (hiFromSlice p).bind _ = _
    rw [hslice]
    rfl

theorem updateText_record :
    RecordText (parseUpdate updateFromStr) (utf8Bytes updateText) "session/update".toList where
  object := ⟨by decide, by decide⟩
  newline_not_mem := by decide
  parse_text := by
    rw [parseUpdate, decodeUtf8_eq_some.mpr rfl, Option.bind_some, updateFromStr, if_pos rfl]
  parse_torn p _ hne := by
    unfold parseUpdate
    cases htext : decodeUtf8 p with
    | none => rfl
    | some t =>
      refine if_neg fun ht => hne ?_
      rw [← decodeUtf8_eq_some.mp htext, ht]

theorem torn_append_costs_one_record_first :
    hiSerde.readChatHistory 1 (appendAll (fun _ => hiText) [⟨"hi".toList, 5⟩, ⟨"hi".toList, 50⟩]) =
        hiSerde.history
          ((whole (fun _ => hiText) [] [⟨"hi".toList, 5⟩, ⟨"hi".toList, 50⟩]).map
            fun item => (hiJson, item)) ∧
      readUpdatesJsonl updateFromStr
          (appendAll (fun _ => utf8Bytes updateText) [⟨"session/update".toList, 60⟩]) =
        (whole (fun _ => utf8Bytes updateText) [] [⟨"session/update".toList, 60⟩]).map id ∧
      (NoneTorn firstPointCodec.encode [] [⟨.new 0, 200⟩] →
        PointsKept firstPointCodec [⟨.new 0, 200⟩] 1 1) ∧
      (¬ NoneTorn firstPointCodec.encode [] [⟨.new 0, 200⟩] →
        PointsRefused firstPointCodec [⟨.new 0, 200⟩] 1 1) := by
  have hchat : ∀ a ∈ [TornAppend.mk "hi".toList 5, ⟨"hi".toList, 50⟩],
      RecordText (hiSerde.parseItem 1) hiText (hiJson, a.record) := by
    simpa using hiText_record
  have hupdates : ∀ a ∈ [TornAppend.mk "session/update".toList 60],
      RecordText (parseUpdate updateFromStr) (utf8Bytes updateText) (id a.record) := by
    simpa using updateText_record
  refine torn_append_costs_one_record hchat hupdates ?_ ?_
  · simpa using pointText_firstPoint
  · have hmerged : mergeAnyRewindPointsFrom
        (whole firstPointCodec.encode [] [⟨RewindPoint.new 0, 200⟩]) 1 = [.new 0] := by
      decide
    rw [hmerged]
    simpa using pointText_firstPoint

end GrokBuild.SessionStore
