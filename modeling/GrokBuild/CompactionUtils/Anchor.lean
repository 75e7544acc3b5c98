import GrokBuild.CompactionUtils.Budget
import GrokBuild.CompactionUtils.Summary

/-!
# The task anchor

The last real user query of a conversation, and the history that compaction
builds from it: the query wrapped again, the items behind it, the summary. A
query is read off the built history as it was off the original exactly when it
is not empty or a continuation, and has neither the closing tag nor a block of
a runtime tag (`compaction_keeps_anchor`). The pairing of tool calls and
results is kept in any case.
-/

namespace GrokBuild.CompactionUtils

open TextLines Str Search ChatHistory ChatActor List Option

/-! ## The query of a message -/

def systemTags : List Text :=
  ["user_info".toList, "project_layout".toList, "git_status".toList, "fork-context".toList,
    "system-reminder".toList, "agent-memory".toList, "system_reminder".toList,
    "background_context".toList, "command-name".toList, "command-message".toList,
    "command-args".toList]

def openTag (tag : Text) : Text := '<' :: tag ++ ['>']

def closeTag (tag : Text) : Text := '<' :: '/' :: tag ++ ['>']

variable {tag : Text}

theorem length_removed_lt {result : Text} {start : Nat} (h : find (openTag tag) result = some start)
    (n : Nat) :
    (result.take start ++ result.drop (start + n + (closeTag tag).length)).length <
      result.length := by
  have hpre := (prefix_drop_of_find h).length_le
  have hopen : (openTag tag).length = tag.length + 2 := by simp [openTag]
  have hclose : (closeTag tag).length = tag.length + 3 := by simp [closeTag]
  rw [length_drop] at hpre
  rw [length_append, length_take, length_drop]
  omega

/-- The `while` loop for one tag. -/
def stripTag (tag result : Text) : Text :=
  match _h : find (openTag tag) result with
  | none => result
  | some start =>
    match find (closeTag tag) (result.drop start) with
    | none => result
    | some relEnd =>
      stripTag tag (result.take start ++ result.drop (start + relEnd + (closeTag tag).length))
termination_by result.length
decreasing_by exact length_removed_lt ‹_› _

def stripSystemTags (text : Text) : Text :=
  trim (systemTags.foldl (fun result tag => stripTag tag result) text)

def queryOpen : Text := "<user_query>".toList

def queryClose : Text := "</user_query>".toList

def extractUserQuery (text : Text) : Text :=
  match find queryOpen text with
  | some start =>
    let content := text.drop (start + queryOpen.length)
    match find queryClose content with
    | some stop => stripSystemTags (trim (content.take stop))
    | none => stripSystemTags text
  | none => stripSystemTags text

def autoContinuePrompt : Text :=
  "Continue the conversation from where it left off without asking the user ".toList ++
    "any further questions. Resume directly - do not acknowledge the summary, ".toList ++
    "do not recap what was happening, do not preface with \"I'll continue\" or similar.\n".toList ++
    "Pick up the last task as if the break never happened.".toList

/-- `is_bootstrap_reminder_text`: no preset of the build has such a note. -/
def isBootstrapReminderText (_text : Text) : Bool := false

def isSyntheticExtractedQuery (text : Text) : Bool :=
  text = [] || text = "__auto_continue__".toList || text = autoContinuePrompt ||
    isBootstrapReminderText text

/-- The text of an item; that of a user item can always be read. -/
def itemText (item : ConversationItem) : Text := (textContent item).getD []

def isImage : ContentPart → Bool
  | .image _ => true
  | .text _ => false

def isRealUserTurn (item : ConversationItem) : Bool :=
  match item with
  | .user u =>
    if u.syntheticReason.isSome then false
    else
      let hasImages := u.content.any isImage
      if hasImages then true
      else !isSyntheticExtractedQuery (extractUserQuery (itemText item))
  | _ => false

/-- The last real user turn. -/
def lastRealUserTurn (conversation : Conversation) : Option ConversationItem :=
  conversation.reverse.find? isRealUserTurn

def extractLastRealUserQuery (conversation : Conversation) : Option Text :=
  (lastRealUserTurn conversation).map fun item => extractUserQuery (itemText item)

/-- An assistant item, or a tool result with its content left out. -/
def recentMessage : ConversationItem → Option ConversationItem
  | .assistant a => some (.assistant a)
  | .toolResult t => some (.toolResult ⟨t.toolCallId, "Tool call omitted...".toList, []⟩)
  | _ => none

/-- `extract_messages_since_last_real_user`: from the items behind the last
real user turn, or from all. -/
def extractMessagesSinceLastRealUser (conversation : Conversation) : Conversation :=
  (conversation.rtakeWhile fun item => !isRealUserTurn item).filterMap recentMessage

/-! ## The built history -/

/-- `CompactionInputs`, with the fields that the history is built from. -/
structure CompactionInputs where
  cwdGeneration : Nat
  destinationProjectInstructions : Option Text

/-- `CompactionStateContext`, likewise. -/
structure CompactionStateContext where
  cwdGeneration : Nat
  destinationProjectInstructions : Option Text
  recentMessages : Conversation
  lastUserQuery : Option Text

def CompactionStateContext.build (conversation : Conversation) (inputs : CompactionInputs) :
    CompactionStateContext where
  cwdGeneration := inputs.cwdGeneration
  destinationProjectInstructions := inputs.destinationProjectInstructions
  recentMessages := extractMessagesSinceLastRealUser conversation
  lastUserQuery := extractLastRealUserQuery conversation

def CompactionStateContext.forCompaction (ctx : CompactionStateContext) : CompactionStateContext :=
  { ctx with recentMessages := [] }

def userMeta (content : Text) : ConversationItem :=
  .user ⟨[.text content], some .compactionMeta, none, none⟩

def projectInstructions (content : Text) : ConversationItem :=
  .user ⟨[.text content], some .projectInstructions, none, none⟩

def systemReminder (content : Text) : ConversationItem :=
  .user ⟨[.text content], some .systemReminder, none, none⟩

def wrapUserQuery (text : Text) : Text := "<user_query>\n".toList ++ text ++ "\n</user_query>".toList

def formatCompactSummaryContent (rawSummary : Text) : Text :=
  "This session is being continued from a previous conversation that ran out of context. ".toList ++
    "The summary below covers the earlier portion of the conversation.\n\n".toList ++
    formatCompactSummary rawSummary

/-- `CompactedHistoryInput`. The callers pass the system message of the
conversation, which is a `System` item. -/
structure CompactedHistoryInput where
  systemMessage : Text
  userMessagePrefix : Text
  agentsMdReminder : Option Text
  stateContext : CompactionStateContext
  compactionSummary : Text
  systemReminder : Option Text
  transcriptHint : Option Text

/-- `summary_before_recent_carrier`: the alternate carrier is not compiled in. -/
def summaryBeforeRecentCarrier (_input : CompactedHistoryInput) : Option Text := none

def buildCompactedHistory (input : CompactedHistoryInput) : Conversation :=
  let carrier := summaryBeforeRecentCarrier input
  let summaryFirst := carrier.isSome
  let summaryItem := userMeta (carrier.getD
    (formatCompactSummaryContent input.compactionSummary ++ input.transcriptHint.getD []))
  let instructions :=
    if input.stateContext.cwdGeneration = 0 then input.agentsMdReminder
    else input.stateContext.destinationProjectInstructions
  let query := input.stateContext.lastUserQuery.map fun q => ConversationItem.ofUser (wrapUserQuery q)
  let tail :=
    if summaryFirst then summaryItem :: input.stateContext.recentMessages
    else input.stateContext.recentMessages ++ [summaryItem]
  [.system input.systemMessage, userMeta input.userMessagePrefix] ++
    (instructions.map projectInstructions).toList ++ query.toList ++ tail ++
    (input.systemReminder.map systemReminder).toList

/-- What one compaction adds to the conversation, and whether it is built from
the context without the recent messages. -/
structure Round where
  inputs : CompactionInputs
  systemMessage : Text
  userMessagePrefix : Text
  agentsMdReminder : Option Text
  compactionSummary : Text
  systemReminder : Option Text
  transcriptHint : Option Text
  withoutRecent : Bool

def Round.compact (r : Round) (conversation : Conversation) : Conversation :=
  let ctx := CompactionStateContext.build conversation r.inputs
  buildCompactedHistory
    { systemMessage := r.systemMessage
      userMessagePrefix := r.userMessagePrefix
      agentsMdReminder := r.agentsMdReminder
      stateContext := if r.withoutRecent then ctx.forCompaction else ctx
      compactionSummary := r.compactionSummary
      systemReminder := r.systemReminder
      transcriptHint := r.transcriptHint }

/-- One compaction after the other. -/
def compactAll (rounds : List Round) (conversation : Conversation) : Conversation :=
  rounds.foldl (fun c r => r.compact c) conversation

/-! ## Blocks of runtime tags -/

/-- The text has an opening tag with a closing tag behind it. -/
def HasBlock (tag text : Text) : Prop :=
  ∃ i j, i ≤ j ∧ openTag tag <+: text.drop i ∧ closeTag tag <+: text.drop j

theorem exists_find_le {pat s : Text} {j : Nat} (h : pat <+: s.drop j) :
    ∃ i ≤ j, find pat s = some i := by
  induction s generalizing j with
  | nil =>
    rw [drop_nil, prefix_nil] at h
    exact ⟨0, Nat.zero_le j, by rw [find, if_pos h]⟩
  | cons c s ih =>
    by_cases hpre : pat <+: c :: s
    · exact ⟨0, Nat.zero_le j, by rw [find, if_pos hpre]⟩
    · cases j with
      | zero => exact absurd h hpre
      | succ j =>
        obtain ⟨i, hi, hfind⟩ := ih h
        exact ⟨i + 1, Nat.succ_le_succ hi, by rw [find, if_neg hpre, hfind, map_some]⟩

variable {text : Text}

theorem hasBlock_iff : HasBlock tag text ↔ ∃ start relEnd,
    find (openTag tag) text = some start ∧
      find (closeTag tag) (text.drop start) = some relEnd := by
  constructor
  · rintro ⟨i, j, hij, hopen, hclose⟩
    obtain ⟨start, hstart, hfind⟩ := exists_find_le hopen
    have hj : start + (j - start) = j := by omega
    have hbehind : closeTag tag <+: (text.drop start).drop (j - start) := by
      rw [drop_drop, hj]
      exact hclose
    obtain ⟨relEnd, -, hend⟩ := exists_find_le hbehind
    exact ⟨start, relEnd, hfind, hend⟩
  · rintro ⟨start, relEnd, hfind, hend⟩
    have hclose := prefix_drop_of_find hend
    rw [drop_drop] at hclose
    exact ⟨start, start + relEnd, Nat.le_add_right _ _, prefix_drop_of_find hfind, hclose⟩

theorem stripTag_of_not_hasBlock (h : ¬ HasBlock tag text) : stripTag tag text = text := by
  rw [hasBlock_iff] at h
  rw [stripTag]
  split
  · rfl
  · rename_i start hstart
    split
    · rfl
    · rename_i relEnd hend
      exact absurd ⟨start, relEnd, hstart, hend⟩ h

theorem stripTag_of_found {start relEnd : Nat} (hstart : find (openTag tag) text = some start)
    (hend : find (closeTag tag) (text.drop start) = some relEnd) :
    stripTag tag text =
      stripTag tag (text.take start ++ text.drop (start + relEnd + (closeTag tag).length)) := by
  rw [stripTag]
  split
  · rename_i hnone
    rw [hstart] at hnone
    cases hnone
  · rename_i start' hstart'
    rw [hstart, some.injEq] at hstart'
    subst hstart'
    rw [hend]

theorem length_stripTag (tag text : Text) : (stripTag tag text).length ≤ text.length ∧
    ((stripTag tag text).length = text.length → ¬ HasBlock tag text) := by
  induction hn : text.length using Nat.strong_induction_on generalizing text with
  | h n ih =>
    subst hn
    by_cases hblock : HasBlock tag text
    · obtain ⟨start, relEnd, hstart, hend⟩ := hasBlock_iff.mp hblock
      have hless := length_removed_lt hstart relEnd
      have hrest := (ih _ hless _ rfl).1
      rw [stripTag_of_found hstart hend]
      constructor
      · omega
      · intro heq
        omega
    · rw [stripTag_of_not_hasBlock hblock]
      exact ⟨Nat.le_refl _, fun _ => hblock⟩

theorem length_stripTags (tags : List Text) (text : Text) :
    (tags.foldl (fun result tag => stripTag tag result) text).length ≤ text.length ∧
      ((tags.foldl (fun result tag => stripTag tag result) text).length = text.length →
        ∀ tag ∈ tags, ¬ HasBlock tag text) := by
  induction tags generalizing text with
  | nil => exact ⟨Nat.le_refl _, fun _ => forall_mem_nil _⟩
  | cons tag tags ih =>
    obtain ⟨hle, hnone⟩ := length_stripTag tag text
    obtain ⟨hle', hnone'⟩ := ih (stripTag tag text)
    rw [foldl_cons]
    constructor
    · omega
    · intro heq
      have hfirst := hnone (by omega)
      rw [stripTag_of_not_hasBlock hfirst] at hnone' heq
      exact forall_mem_cons.mpr ⟨hfirst, hnone' heq⟩

theorem length_stripSystemTags_le (text : Text) : (stripSystemTags text).length ≤ text.length :=
  (trim_isInfix _).length_le.trans (length_stripTags systemTags text).1

theorem not_hasBlock_of_length (h : (stripSystemTags text).length = text.length) :
    ∀ tag ∈ systemTags, ¬ HasBlock tag text := by
  have htrimmed := (trim_isInfix
    (systemTags.foldl (fun result tag => stripTag tag result) text)).length_le
  obtain ⟨hle, hnone⟩ := length_stripTags systemTags text
  rw [stripSystemTags] at h
  exact hnone (by omega)

theorem stripSystemTags_eq_self (htrim : Trimmed text) (h : ∀ tag ∈ systemTags, ¬ HasBlock tag text) :
    stripSystemTags text = text := by
  have hsame : ∀ tags : List Text, (∀ tag ∈ tags, ¬ HasBlock tag text) →
      tags.foldl (fun result tag => stripTag tag result) text = text := by
    intro tags
    induction tags with
    | nil => exact fun _ => rfl
    | cons tag tags ih =>
      intro hall
      obtain ⟨hfirst, hrest⟩ := forall_mem_cons.mp hall
      rw [foldl_cons, stripTag_of_not_hasBlock hfirst, ih hrest]
  rw [stripSystemTags, hsame systemTags h, htrim.trim_eq]

theorem trimmed_extractUserQuery (text : Text) : Trimmed (extractUserQuery text) := by
  rw [extractUserQuery]
  split
  · dsimp only
    split
    · exact trimmed_trim _
    · exact trimmed_trim _
  · exact trimmed_trim _

/-! ## A wrapped query -/

theorem wrapUserQuery_eq (q : Text) :
    wrapUserQuery q = queryOpen ++ ('\n' :: q ++ '\n' :: queryClose) := by
  have hwrap : ∀ before after : Text, before = queryOpen ++ ['\n'] → after = '\n' :: queryClose →
      before ++ q ++ after = queryOpen ++ ('\n' :: q ++ '\n' :: queryClose) := by
    rintro before after rfl rfl
    simp only [append_assoc, cons_append, nil_append]
  exact hwrap _ _ (by decide) (by decide)

variable {q : Text}

theorem extract_wrapped {stop : Nat}
    (h : find queryClose ('\n' :: q ++ '\n' :: queryClose) = some stop) :
    extractUserQuery (wrapUserQuery q) =
      stripSystemTags (trim (('\n' :: q ++ '\n' :: queryClose).take stop)) := by
  have hopen : find queryOpen (queryOpen ++ ('\n' :: q ++ '\n' :: queryClose)) = some 0 :=
    find_self_append queryOpen _
  rw [wrapUserQuery_eq, extractUserQuery, hopen]
  simp only [Nat.zero_add, drop_left, h]

theorem extract_wrap_of_free (htrim : Trimmed q) (hfree : Free queryClose q) :
    extractUserQuery (wrapUserQuery q) = stripSystemTags q := by
  have hbefore : Free queryClose ('\n' :: q ++ ['\n'] ++ queryClose.dropLast) := by
    have hend : Free queryClose ('\n' :: queryClose.dropLast) := by decide
    have hmiddle : Free queryClose (q ++ '\n' :: queryClose.dropLast) :=
      free_append rfl (by decide) hfree hend
    rw [append_assoc, cons_append, free_cons]
    refine ⟨fun hpre => ?_, hmiddle⟩
    exact absurd (cons_prefix_cons.mp hpre).1 (by decide)
  have hstop := find_append hbefore []
  rw [append_nil, append_assoc] at hstop
  have hblank : Blank ['\n'] := by
    intro c hc
    rw [mem_singleton.mp hc]
    decide
  have hinner : trim ('\n' :: q ++ ['\n']) = q := trim_between htrim hblank hblank
  have htext : '\n' :: q ++ '\n' :: queryClose = '\n' :: q ++ ['\n'] ++ queryClose := by
    rw [append_assoc]
    rfl
  rw [extract_wrapped hstop, htext, take_left, hinner]

theorem length_extract_wrap_lt (h : ¬ Free queryClose q) :
    (extractUserQuery (wrapUserQuery q)).length < q.length := by
  obtain ⟨a, c, hq⟩ := Classical.not_not.mp h
  have hclose : queryClose <+: ('\n' :: q ++ '\n' :: queryClose).drop (a.length + 1) := by
    rw [cons_append, drop_succ_cons, ← hq, append_assoc, append_assoc,
      drop_left]
    exact prefix_append queryClose _
  obtain ⟨stop, hstop, hfind⟩ := exists_find_le hclose
  rw [extract_wrapped hfind]
  have hstrip := length_stripSystemTags_le
    (trim (('\n' :: q ++ '\n' :: queryClose).take stop))
  have htrimmed := (trim_isInfix (('\n' :: q ++ '\n' :: queryClose).take stop)).length_le
  have htake := length_take_le stop ('\n' :: q ++ '\n' :: queryClose)
  have htag : queryClose.length = 13 := rfl
  have hquery := congrArg List.length hq
  simp only [length_append] at hquery
  omega

/-- A query that is read off its wrapping unchanged. -/
def Rereads (q : Text) : Prop := Free queryClose q ∧ ∀ tag ∈ systemTags, ¬ HasBlock tag q

/-- What is read off the wrapping is the query, or it is shorter. -/
theorem extract_wrap_cases (htrim : Trimmed q) :
    (Rereads q ∧ extractUserQuery (wrapUserQuery q) = q) ∨
      (¬ Rereads q ∧ (extractUserQuery (wrapUserQuery q)).length < q.length) := by
  by_cases hfree : Free queryClose q
  · rw [extract_wrap_of_free htrim hfree]
    by_cases htags : ∀ tag ∈ systemTags, ¬ HasBlock tag q
    · exact .inl ⟨⟨hfree, htags⟩, stripSystemTags_eq_self htrim htags⟩
    · right
      constructor
      · intro h
        exact htags h.2
      · have hle := length_stripSystemTags_le q
        have hne : (stripSystemTags q).length ≠ q.length := by
          intro heq
          exact htags (not_hasBlock_of_length heq)
        omega
  · exact .inr ⟨fun h => hfree h.1, length_extract_wrap_lt hfree⟩

/-! ## The last real turn of a built history -/

theorem itemText_ofUser (text : Text) : itemText (.ofUser text) = text := by
  rw [itemText, ConversationItem.ofUser, textContent]
  simp [List.intercalate]

theorem isRealUserTurn_ofUser (text : Text) :
    isRealUserTurn (.ofUser text) = !isSyntheticExtractedQuery (extractUserQuery text) := by
  show (!isSyntheticExtractedQuery (extractUserQuery (itemText (.ofUser text)))) = _
  rw [itemText_ofUser]

variable {item : ConversationItem}

theorem not_real_of_recent {x : ConversationItem} (h : recentMessage item = some x) :
    isRealUserTurn x = false := by
  cases item with
  | assistant a =>
    cases h
    rfl
  | toolResult t =>
    cases h
    rfl
  | system | user | backendToolCall | reasoning => cases h

variable {c : Conversation}

theorem lastRealUserTurn_append {c' : Conversation} (h : ∀ item ∈ c', isRealUserTurn item = false) :
    lastRealUserTurn (c ++ c') = lastRealUserTurn c := by
  have hnone : c'.reverse.find? isRealUserTurn = none := by
    rw [find?_eq_none]
    intro item hitem
    rw [h item (mem_reverse.mp hitem)]
    exact Bool.false_ne_true
  rw [lastRealUserTurn, reverse_append, find?_append, hnone, none_or,
    lastRealUserTurn]

theorem lastRealUserTurn_eq_none (h : ∀ item ∈ c, isRealUserTurn item = false) :
    lastRealUserTurn c = none := by
  have hend := lastRealUserTurn_append (c := []) h
  rw [nil_append] at hend
  rw [hend]
  rfl

theorem lastRealUserTurn_concat (c : Conversation) (item : ConversationItem) :
    lastRealUserTurn (c ++ [item]) =
      if isRealUserTurn item then some item else lastRealUserTurn c := by
  rw [lastRealUserTurn, reverse_append, reverse_singleton, singleton_append,
    find?_cons]
  cases isRealUserTurn item with
  | true => rfl
  | false => rfl

/-- An item that is no part of a tool call. -/
def Apart (item : ConversationItem) : Prop := isToolResult item = false ∧ item.callIds = []

/-- What stands before the query in a built history. -/
def Round.before (r : Round) : Conversation :=
  let instructions :=
    if r.inputs.cwdGeneration = 0 then r.agentsMdReminder
    else r.inputs.destinationProjectInstructions
  [.system r.systemMessage, userMeta r.userMessagePrefix] ++
    (instructions.map projectInstructions).toList

def Round.recent (r : Round) (c : Conversation) : Conversation :=
  if r.withoutRecent then [] else extractMessagesSinceLastRealUser c

/-- What stands behind the recent messages. -/
def Round.behind (r : Round) : Conversation :=
  userMeta (formatCompactSummaryContent r.compactionSummary ++ r.transcriptHint.getD []) ::
    (r.systemReminder.map CompactionUtils.systemReminder).toList

theorem compact_eq (r : Round) (c : Conversation) :
    r.compact c = r.before ++ (((extractLastRealUserQuery c).map fun q =>
      ConversationItem.ofUser (wrapUserQuery q)).toList ++ (r.recent c ++ r.behind)) := by
  have hshape : ∀ (before query recent behind : Conversation) (item : ConversationItem),
      before ++ query ++ (recent ++ [item]) ++ behind =
        before ++ (query ++ (recent ++ item :: behind)) := by
    intro before query recent behind item
    simp only [append_assoc, singleton_append]
  obtain ⟨inputs, systemMessage, userMessagePrefix, reminder, summary, note, hint, without⟩ := r
  cases without with
  | true => exact hshape _ _ [] _ _
  | false => exact hshape _ _ (extractMessagesSinceLastRealUser c) _ _

theorem of_before {r : Round} (h : item ∈ r.before) : isRealUserTurn item = false ∧ Apart item := by
  rcases mem_append.mp h with h | h
  · rcases mem_pair.mp h with rfl | rfl
    · exact ⟨rfl, rfl, rfl⟩
    · exact ⟨rfl, rfl, rfl⟩
  · obtain ⟨text, -, rfl⟩ := map_eq_some_iff.mp (mem_toList.mp h)
    exact ⟨rfl, rfl, rfl⟩

theorem of_behind {r : Round} (h : item ∈ r.behind) : isRealUserTurn item = false ∧ Apart item := by
  rcases mem_cons.mp h with rfl | h
  · exact ⟨rfl, rfl, rfl⟩
  · obtain ⟨text, -, rfl⟩ := map_eq_some_iff.mp (mem_toList.mp h)
    exact ⟨rfl, rfl, rfl⟩

/-! ## The anchor -/

/-- The query of the last real turn after a compaction, from the one before. -/
def reread (q : Text) : Option Text :=
  let q' := extractUserQuery (wrapUserQuery q)
  if isSyntheticExtractedQuery q' then none else some q'

theorem extractLast_compact (r : Round) (c : Conversation) :
    extractLastRealUserQuery (r.compact c) = (extractLastRealUserQuery c).bind reread := by
  have hbehind : ∀ item ∈ r.recent c ++ r.behind, isRealUserTurn item = false := by
    intro item hitem
    rcases mem_append.mp hitem with hitem | hitem
    · cases hrecent : r.withoutRecent with
      | true =>
        rw [Round.recent, if_pos hrecent] at hitem
        exact absurd hitem not_mem_nil
      | false =>
        rw [Round.recent, if_neg (by rw [hrecent]; exact Bool.false_ne_true)] at hitem
        obtain ⟨x, -, hx⟩ := mem_filterMap.mp hitem
        exact not_real_of_recent hx
    · exact (of_behind hitem).1
  have hbefore : lastRealUserTurn r.before = none :=
    lastRealUserTurn_eq_none fun item hitem => (of_before hitem).1
  rw [compact_eq, ← append_assoc, extractLastRealUserQuery, lastRealUserTurn_append hbehind]
  cases extractLastRealUserQuery c with
  | none =>
    show (lastRealUserTurn (r.before ++ [])).map _ = none
    rw [append_nil, hbefore, map_none]
  | some q =>
    show (lastRealUserTurn (r.before ++ [.ofUser (wrapUserQuery q)])).map _ = reread q
    rw [lastRealUserTurn_concat, hbefore, isRealUserTurn_ofUser, reread]
    cases isSyntheticExtractedQuery (extractUserQuery (wrapUserQuery q)) with
    | true => rfl
    | false =>
      show some (extractUserQuery (itemText _)) = some _
      rw [itemText_ofUser]

theorem extractLast_compactAll (rounds : List Round) (c : Conversation) :
    extractLastRealUserQuery (compactAll rounds c) =
      rounds.foldl (fun query _ => query.bind reread) (extractLastRealUserQuery c) := by
  induction rounds generalizing c with
  | nil => rfl
  | cons r rounds ih =>
    show extractLastRealUserQuery (compactAll rounds (r.compact c)) = _
    rw [ih, extractLast_compact]
    rfl

theorem trimmed_of_reread {q' : Text} (h : reread q = some q') : Trimmed q' := by
  rw [reread] at h
  split at h
  · cases h
  · cases h
    exact trimmed_extractUserQuery _

/-- A query that is read off its wrapping as the query of a real turn. -/
def Lasting (q : Text) : Prop := isSyntheticExtractedQuery q = false ∧ Rereads q

theorem reread_of_lasting (htrim : Trimmed q) (h : Lasting q) : reread q = some q := by
  rcases extract_wrap_cases htrim with ⟨-, heq⟩ | ⟨hnot, -⟩
  · rw [reread, heq, h.1]
    rfl
  · exact absurd h.2 hnot

theorem length_reread_lt {q' : Text} (htrim : Trimmed q) (h : ¬ Lasting q)
    (hread : reread q = some q') : q'.length < q.length := by
  rw [reread] at hread
  split at hread
  · cases hread
  · rename_i hreal
    cases hread
    rcases extract_wrap_cases htrim with ⟨hrereads, heq⟩ | ⟨-, hless⟩
    · rw [heq] at hreal
      exact absurd ⟨by simpa using hreal, hrereads⟩ h
    · exact hless

theorem run_none (rounds : List Round) :
    rounds.foldl (fun (query : Option Text) _ => query.bind reread) none = none := by
  induction rounds with
  | nil => rfl
  | cons r rounds ih => exact ih

theorem run_of_lasting (rounds : List Round) (htrim : Trimmed q) (h : Lasting q) :
    rounds.foldl (fun (query : Option Text) _ => query.bind reread) (some q) = some q := by
  induction rounds with
  | nil => rfl
  | cons r rounds ih =>
    rw [foldl_cons, bind_some, reread_of_lasting htrim h]
    exact ih

/-- Over a run of compactions a query never gets longer. -/
theorem length_le_of_run (rounds : List Round) {p : Text} (htrim : Trimmed q)
    (h : rounds.foldl (fun query _ => query.bind reread) (some q) = some p) : p.length ≤ q.length := by
  induction rounds generalizing q with
  | nil =>
    cases h
    exact Nat.le_refl _
  | cons r rounds ih =>
    rw [foldl_cons, bind_some] at h
    by_cases hlasts : Lasting q
    · rw [reread_of_lasting htrim hlasts] at h
      exact ih htrim h
    · cases hread : reread q with
      | none =>
        rw [hread, run_none] at h
        cases h
      | some q' =>
        rw [hread] at h
        have hless := length_reread_lt htrim hlasts hread
        have hrest := ih (trimmed_of_reread hread) h
        omega

/-! ## Tool calls and results -/

theorem requested_append_apart {ids : List Text} {behind : Conversation}
    (hbehind : ∀ item ∈ behind, Apart item) (h : RequestedFrom ids c) :
    RequestedFrom ids (c ++ behind) := by
  induction c generalizing ids with
  | nil =>
    induction behind generalizing ids with
    | nil => trivial
    | cons item behind ih =>
      obtain ⟨⟨hitem, -⟩, hrest⟩ := forall_mem_cons.mp hbehind
      rw [nil_append, requestedFrom_of_head hitem]
      exact ih hrest trivial
  | cons item c ih =>
    cases hkind : isToolResult item with
    | true =>
      cases item with
      | toolResult t => exact ⟨h.1, ih h.2⟩
      | system | user | assistant | backendToolCall | reasoning => cases hkind
    | false =>
      rw [cons_append, requestedFrom_of_head hkind]
      exact ih ((requestedFrom_of_head hkind ids c).mp h)

theorem requested_apart_append {before : Conversation} (hbefore : ∀ item ∈ before, Apart item)
    (h : Requested c) : Requested (before ++ c) := by
  induction before with
  | nil => exact h
  | cons item before ih =>
    obtain ⟨⟨hitem, hids⟩, hrest⟩ := forall_mem_cons.mp hbefore
    rw [Requested, cons_append, requestedFrom_of_head hitem, hids]
    exact ih hrest

theorem requested_recent {ids ids' : List Text} (hids : ids ⊆ ids') (h : RequestedFrom ids c) :
    RequestedFrom ids' (c.filterMap recentMessage) := by
  induction c generalizing ids ids' with
  | nil => trivial
  | cons item c ih =>
    cases item with
    | assistant a => exact ih (List.Subset.refl _) h
    | toolResult t => exact ⟨hids h.1, ih hids h.2⟩
    | system | user | backendToolCall | reasoning => exact ih (nil_subset _) h

theorem requested_since (h : Requested c) :
    Requested (c.rtakeWhile fun item => !isRealUserTurn item) := by
  have hsplit := rdropWhile_append_rtakeWhile (fun item => !isRealUserTurn item) c
  rcases eq_nil_or_concat (c.rdropWhile fun item => !isRealUserTurn item)
    with hnil | ⟨pre, item, hpre⟩
  · rw [hnil, nil_append] at hsplit
    rw [hsplit]
    exact h
  · have hreal : isRealUserTurn item = true := by
      have hlast := rdropWhile_last_not (fun item => !isRealUserTurn item) c
        (by rw [hpre]; simp)
      simpa [hpre] using hlast
    rw [hpre, concat_eq_append, append_assoc, singleton_append] at hsplit
    rw [← hsplit] at h
    cases item with
    | user u => exact RequestedFrom.behind rfl h
    | system | assistant | toolResult | backendToolCall | reasoning => cases hreal

theorem requested_compact (r : Round) (h : Requested c) : Requested (r.compact c) := by
  have hrecent : Requested (r.recent c) := by
    rw [Round.recent]
    split
    · trivial
    · exact requested_recent (List.Subset.refl _) (requested_since h)
  have hquery : ∀ item ∈ ((extractLastRealUserQuery c).map fun q =>
      ConversationItem.ofUser (wrapUserQuery q)).toList, Apart item := by
    intro item hitem
    obtain ⟨q, -, rfl⟩ := map_eq_some_iff.mp (mem_toList.mp hitem)
    exact ⟨rfl, rfl⟩
  rw [compact_eq]
  apply requested_apart_append fun item hitem => (of_before hitem).2
  apply requested_apart_append hquery
  exact requested_append_apart (fun item hitem => (of_behind hitem).2) hrecent

theorem requested_compactAll (rounds : List Round) (h : Requested c) :
    Requested (compactAll rounds c) := by
  induction rounds generalizing c with
  | nil => exact h
  | cons r rounds ih => exact ih (requested_compact r h)

/-! ## The result -/

/-- The query of the last real turn is not empty, `__auto_continue__` or the
continuation prompt, and has neither the closing tag nor a block of a runtime tag. -/
def KeepsAnchor (c : Conversation) : Prop :=
  ∀ item, lastRealUserTurn c = some item →
    let q := extractUserQuery (itemText item)
    isSyntheticExtractedQuery q = false ∧ Free queryClose q ∧ ∀ tag ∈ systemTags, ¬ HasBlock tag q

/-- After any run of compactions the last real query is the one before exactly
when it lasts; results still follow their calls in any case. -/
theorem compaction_keeps_anchor (c : Conversation) (r : Round) (rounds : List Round) :
    (extractLastRealUserQuery (compactAll (r :: rounds) c) = extractLastRealUserQuery c ↔
        KeepsAnchor c) ∧
      (Requested c → Requested (compactAll (r :: rounds) c)) := by
  constructor
  case right => exact requested_compactAll (r :: rounds)
  rw [extractLast_compactAll, KeepsAnchor, extractLastRealUserQuery]
  cases lastRealUserTurn c with
  | none =>
    rw [map_none, run_none]
    exact iff_of_true rfl fun item h => by cases h
  | some item =>
    have htrim : Trimmed (extractUserQuery (itemText item)) := trimmed_extractUserQuery _
    rw [map_some]
    constructor
    · intro hrun item' hitem'
      cases hitem'
      by_contra hlasts
      rw [foldl_cons, bind_some] at hrun
      cases hread : reread (extractUserQuery (itemText item)) with
      | none =>
        rw [hread, run_none] at hrun
        cases hrun
      | some q' =>
        rw [hread] at hrun
        have hless := length_reread_lt htrim hlasts hread
        have hrest := length_le_of_run rounds (trimmed_of_reread hread) hrun
        omega
    · intro hkeeps
      exact run_of_lasting (r :: rounds) htrim (hkeeps item rfl)

def emptyRound : Round where
  inputs := ⟨0, none⟩
  systemMessage := []
  userMessagePrefix := []
  agentsMdReminder := none
  compactionSummary := []
  systemReminder := none
  transcriptHint := none
  withoutRecent := false

theorem lt_mem_of_hasBlock (h : HasBlock tag text) : '<' ∈ text := by
  obtain ⟨i, j, -, hopen, -⟩ := h
  have hmem : '<' ∈ text.drop i := hopen.subset mem_cons_self
  exact mem_of_mem_drop hmem

theorem compaction_keeps_anchor_hi :
    let c := [ConversationItem.ofUser (wrapUserQuery "hi".toList)]
    extractLastRealUserQuery (compactAll [emptyRound, emptyRound] c) = extractLastRealUserQuery c ∧
      Requested (compactAll [emptyRound, emptyRound] c) := by
  intro c
  have htags : ∀ tag ∈ systemTags, ¬ HasBlock tag "hi".toList :=
    fun tag _ h => absurd (lt_mem_of_hasBlock h) (by decide)
  have hfree : Free queryClose "hi".toList := by decide
  have htrim : Trimmed "hi".toList := trimmed_trim "hi".toList
  have hquery : extractUserQuery (wrapUserQuery "hi".toList) = "hi".toList := by
    rw [extract_wrap_of_free htrim hfree, stripSystemTags_eq_self htrim htags]
  have hkeeps : KeepsAnchor c := by
    intro item hitem
    have hc : c = [] ++ [ConversationItem.ofUser (wrapUserQuery "hi".toList)] := rfl
    rw [hc, lastRealUserTurn_concat] at hitem
    split at hitem
    · cases hitem
      rw [itemText_ofUser, hquery]
      exact ⟨by decide, hfree, htags⟩
    · cases hitem
  exact ⟨(compaction_keeps_anchor c emptyRound [emptyRound]).1.mpr hkeeps,
    (compaction_keeps_anchor c emptyRound [emptyRound]).2 trivial⟩

/-- A prompt of an image alone is a real turn, and the built history has none. -/
theorem compaction_loses_image_prompt :
    let c := [ConversationItem.user ⟨[.image "data:image/png;base64,AAAA".toList], none, none, none⟩]
    extractLastRealUserQuery c = some [] ∧
      extractLastRealUserQuery (emptyRound.compact c) = none := by
  intro c
  have hblank : stripSystemTags [] = [] :=
    eq_nil_of_length_eq_zero (Nat.le_zero.mp (length_stripSystemTags_le []))
  have hquery : extractLastRealUserQuery c = some [] := congrArg some hblank
  have hwrapped : extractUserQuery (wrapUserQuery []) = [] := by
    rcases extract_wrap_cases (trimmed_trim []) with ⟨-, heq⟩ | ⟨-, hless⟩
    · exact heq
    · exact absurd hless (Nat.not_lt_zero _)
  constructor
  · exact hquery
  · rw [extractLast_compact, hquery, bind_some, reread, hwrapped]
    rfl

end GrokBuild.CompactionUtils
