import GrokBuild.Compaction.UserQueries
import GrokBuild.Lib.Trim

/-!
# Compaction: what a round carries over

A summary is the blocks of all rounds so far and a text. When no block holds
an end tag before its own, the loop that looks for the tags finds exactly the
blocks and the text again.
-/

namespace GrokBuild.Compaction

open TextLines Str Search CompactionItem CompactionItemBuilder List

/-! ## Taking a summary apart -/

/-- A block that ends where its end tag first occurs. -/
def IsBlock (b : Text) : Prop :=
  ∃ inner, b = startTag ++ inner ++ endTag ∧
    Free endTag (startTag ++ inner ++ endTag.dropLast)

def Blank (w : Text) : Prop := ∀ c ∈ w, isWhitespace c

/-- The blocks, with blanks behind each, and then the rest. -/
inductive Laid (tail : Text) : List Text → Text → Prop
  | nil : Laid tail [] tail
  | cons {b w t : Text} {bs : List Text} (hb : IsBlock b) (hw : Blank w)
    (ht : Laid tail bs t) : Laid tail (b :: bs) (b ++ w ++ t)

variable {w : Text}

theorem trim_blank (hw : Blank w) : trim w = [] := by
  have h := trim_blank_append hw []
  rw [append_nil] at h
  exact h

@[simp] theorem pushRest_nil (piece : Text) : pushRest [] piece = trim piece := by
  rw [pushRest]
  split
  · exact Eq.symm ‹_›
  · rfl

theorem lt_notMem_blank (hw : Blank w) : '<' ∉ w := by
  intro h
  have := hw _ h
  revert this
  decide

theorem find_blank_append (hw : Blank w) (s : Text) :
    find startTag (w ++ s) = (find startTag s).map (· + w.length) :=
  find_append_of_notMem (lt_notMem_blank hw) s

variable {text : Text}

theorem splitLoop_tail (h : find startTag text = none) (sections : List Text) (rest : Text) :
    splitLoop text sections rest = (sections, pushRest rest text) := by
  rw [splitLoop]
  split
  · rfl
  · simp_all

theorem splitLoop_block {b : Text} (hb : IsBlock b) (hw : Blank w) (t : Text) (sections : List Text) :
    splitLoop (w ++ (b ++ t)) sections [] = splitLoop t (sections ++ [b]) [] := by
  obtain ⟨inner, rfl, hfree⟩ := hb
  have hstart : find startTag (w ++ (startTag ++ inner ++ endTag ++ t)) = some w.length := by
    have hself := find_self_append startTag (inner ++ endTag ++ t)
    rw [← append_assoc, ← append_assoc] at hself
    rw [find_blank_append hw, hself]
    simp
  have hstop : find endTag (startTag ++ inner ++ endTag ++ t) =
      some (startTag ++ inner).length := find_append hfree t
  have habs : w.length + (startTag ++ inner).length + endTag.length =
      w.length + (startTag ++ inner ++ endTag).length := by
    simp only [length_append]
    omega
  rw [splitLoop]
  split
  · simp_all
  · next start hfind =>
    cases hstart.symm.trans hfind
    rw [drop_left, hstop]
    simp only [habs, pushRest_nil]
    rw [take_left, trim_blank hw, ← append_assoc w, ← length_append,
      drop_left, take_left, drop_left]

variable {tail : Text} {bs : List Text}

/-- The loop finds the blocks, and the rest without its blanks. -/
theorem splitLoop_laid (htail : Free startTag tail) {t : Text} (h : Laid tail bs t) (hw : Blank w)
    (sections : List Text) : splitLoop (w ++ t) sections [] = (sections ++ bs, trim tail) := by
  induction h generalizing w sections with
  | nil =>
    have hnone : find startTag (w ++ tail) = none := by
      rw [find_blank_append hw, find_eq_none htail, Option.map_none]
    rw [splitLoop_tail hnone, pushRest_nil, trim_blank_append hw, append_nil]
  | cons hb hw' ht ih =>
    rw [append_assoc, splitLoop_block hb hw, ih hw']
    simp

theorem splitPriorCompactionText_laid (htail : Free startTag tail) (h : Laid tail bs text) :
    splitPriorCompactionText text =
      if bs = [] then (none, tail) else (some (joinLines bs), trim tail) := by
  have hloop := splitLoop_laid htail h (w := []) (by simp [Blank]) []
  rw [nil_append, nil_append] at hloop
  rw [splitPriorCompactionText, hloop]
  by_cases hbs : bs = []
  · subst hbs
    cases h
    rfl
  · simp [hbs]

/-! ## Putting a summary together -/

theorem Laid.append {t : Text} {bs' : List Text} (ht : Laid tail bs' t) (hw : Blank w) :
    ∀ {bs : List Text}, bs ≠ [] → (∀ b ∈ bs, IsBlock b) →
      Laid tail (bs ++ bs') (joinLines bs ++ w ++ t)
  | [], hne, _ => absurd rfl hne
  | [b], _, hbs => by
    have hjoin : joinLines [b] = b := by simp [joinLines]
    rw [hjoin]
    exact .cons (hbs b mem_cons_self) hw ht
  | b :: b' :: bs, _, hbs => by
    have ih : Laid tail (b' :: bs ++ bs') (joinLines (b' :: bs) ++ w ++ t) :=
      Laid.append ht hw (by simp) fun b hb => hbs b (mem_cons_of_mem _ hb)
    have hjoin : joinLines (b :: b' :: bs) = b ++ ['\n'] ++ joinLines (b' :: bs) := by
      simp [joinLines, List.intercalate]
    have hnl : Blank ['\n'] := by
      intro c hc
      rw [mem_singleton.mp hc]
      decide
    rw [hjoin]
    simpa using Laid.cons (hbs b mem_cons_self) hnl ih

/-- A separated prior is the blocks in lines. -/
def joined (bs : List Text) : Option Text := if bs = [] then none else some (joinLines bs)

theorem laid_preamble (hbs : ∀ b ∈ bs, IsBlock b) {current : Option Text}
    (hc : ∀ c ∈ current, IsBlock c) (tail : Text) :
    Laid tail (bs ++ current.toList)
      (assembleUserQueriesPreamble (joined bs) current ++ tail) := by
  have hnl : Blank "\n\n".toList := by
    intro c hc
    have : c = '\n' := by simpa using hc
    rw [this]
    decide
  have hcurrent : Laid tail current.toList (pushSection current ++ tail) := by
    cases current with
    | none => exact .nil
    | some c => exact .cons (hc c rfl) hnl .nil
  by_cases h : bs = []
  · subst h
    exact hcurrent
  · have := Laid.append hcurrent hnl h hbs
    rw [assembleUserQueriesPreamble, joined, if_neg h, pushSection]
    simpa using this

/-! ## The blocks that are written -/

/-- Free of the end tag, and its front begins a tag. -/
def Opens (s : Text) : Prop := s.head? = some '<' ∧ Free endTag s

theorem head?_literal_append {literal : Text} {c : Char} (h : literal.head? = some c) (s : Text) :
    (literal ++ s).head? = some c := by
  rw [head?_append, h]
  rfl

/-- What may follow a piece of text that is free of the end tag. -/
def Bounds (c : Char) : Prop := c ∉ endTag.tail

instance (c : Char) : Decidable (Bounds c) := inferInstanceAs (Decidable (c ∉ endTag.tail))

theorem apart_markup : ∀ literal ∈ ["<grok_user_queries>\n", "<grok_query>", "</grok_query>\n", "\n",
    "<grok_file id=\"", "\" name=\"", "\" />\n"], Apart endTag literal.toList := by
  decide

theorem append_five (a b c d e s : Text) :
    a ++ b ++ c ++ d ++ e ++ s = a ++ (b ++ (c ++ (d ++ (e ++ s)))) := by
  simp only [append_assoc]

variable {s : Text}

theorem opens_grokFile {ref : CompactionFileRef} (hid : Free endTag ref.id)
    (hname : Free endTag ref.name) (hs : Opens s) : Opens (grokFile ref ++ s) := by
  have hquote : Bounds '"' := by decide
  have hend := free_literal (apart_markup "\" />\n" (by simp)) hs.2
  have hclose : ("\" />\n".toList ++ s).head? = some '"' := head?_literal_append (by decide) s
  have hname := free_append hclose hquote hname hend
  have hmid := free_literal (apart_markup "\" name=\"" (by simp)) hname
  have hopen : ("\" name=\"".toList ++ (ref.name ++ ("\" />\n".toList ++ s))).head? =
      some '"' := head?_literal_append (by decide) _
  have hid := free_append hopen hquote hid hmid
  have hall := free_literal (apart_markup "<grok_file id=\"" (by simp)) hid
  have hassoc : grokFile ref ++ s = "<grok_file id=\"".toList ++ (ref.id ++
      ("\" name=\"".toList ++ (ref.name ++ ("\" />\n".toList ++ s)))) := by
    unfold grokFile
    exact append_five _ _ _ _ _ s
  rw [hassoc]
  exact ⟨head?_literal_append (by decide) _, hall⟩

theorem opens_grokFiles {refs : List CompactionFileRef}
    (h : ∀ ref ∈ refs, Free endTag ref.id ∧ Free endTag ref.name) (hs : Opens s) :
    Opens (refs.flatMap grokFile ++ s) := by
  induction refs with
  | nil => exact hs
  | cons ref refs ih =>
    have ih := ih fun r hr => h r (mem_cons_of_mem _ hr)
    obtain ⟨hid, hname⟩ := h ref mem_cons_self
    rw [flatMap_cons, append_assoc]
    exact opens_grokFile hid hname ih

/-- What the query of an item shows is free of the end tag. -/
structure CleanTurn {T : Type} [CompactionItem T] (threshold : Nat) (turn : T) : Prop where
  text : Free endTag
    ((truncateMiddle ((CompactionItem.text turn).getD []) threshold).getD
      ((CompactionItem.text turn).getD []))
  attachments : ∀ ref ∈ attachmentRefs turn, Free endTag ref.id ∧ Free endTag ref.name

theorem bounded_files {refs : List CompactionFileRef}
    (h : ∀ ref ∈ refs, Free endTag ref.id ∧ Free endTag ref.name) (hs : Opens s) :
    ∃ c, ((if refs = [] then [] else '\n' :: refs.flatMap grokFile) ++ s).head? = some c ∧
      Bounds c ∧ Free endTag ((if refs = [] then [] else '\n' :: refs.flatMap grokFile) ++ s) := by
  by_cases hrefs : refs = []
  · rw [if_pos hrefs]
    exact ⟨'<', hs.1, by decide, hs.2⟩
  · rw [if_neg hrefs]
    have hline := free_literal (apart_markup "\n" (by simp)) (opens_grokFiles h hs).2
    exact ⟨'\n', rfl, by decide, hline⟩

variable {threshold : Nat}

theorem opens_grokQuery {T : Type} [CompactionItem T] {turn : T} {q : Text}
    (hq : grokQuery threshold turn = some q) (hclean : CleanTurn threshold turn) (hs : Opens s) :
    Opens (q ++ s) := by
  have hclose : Opens ("</grok_query>\n".toList ++ s) :=
    ⟨head?_literal_append (by decide) s, free_literal (apart_markup "</grok_query>\n" (by simp)) hs.2⟩
  obtain ⟨c, hhead, hbounds, hfiles⟩ := bounded_files hclean.attachments hclose
  have htext := free_append hhead hbounds hclean.text hfiles
  have hall := free_literal (apart_markup "<grok_query>" (by simp)) htext
  rw [grokQuery] at hq
  split at hq
  · cases hq
  · simp only at hq
    split at hq
    · cases hq
    · cases hq
      simp only [append_assoc] at hall ⊢
      exact ⟨head?_literal_append (by decide) _, hall⟩

theorem role_of_grokQuery {T : Type} [CompactionItem T] {turn : T} {q : Text}
    (hq : grokQuery threshold turn = some q) : role turn = .user := by
  by_contra h
  rw [grokQuery, if_pos h] at hq
  cases hq

theorem opens_queries {T : Type} [CompactionItem T] {turns : List T}
    (h : ∀ turn ∈ turns, role turn = .user → CleanTurn threshold turn) (hs : Opens s) :
    Opens ((turns.filterMap (grokQuery threshold)).flatten ++ s) := by
  induction turns with
  | nil => exact hs
  | cons turn turns ih =>
    have ih := ih fun t ht => h t (mem_cons_of_mem _ ht)
    cases hq : grokQuery threshold turn with
    | none =>
      rw [filterMap_cons_none hq]
      exact ih
    | some q =>
      have hclean := h turn mem_cons_self (role_of_grokQuery hq)
      rw [filterMap_cons_some hq, flatten_cons, append_assoc]
      exact opens_grokQuery hq hclean ih

theorem opens_dropLast_endTag : Opens endTag.dropLast := by
  constructor
  · decide
  · decide

theorem isBlock_of_extract {T : Type} [CompactionItem T] {turns : List T} {b : Text}
    (hb : extractUserQueriesFromTurns turns threshold = some b)
    (h : ∀ turn ∈ turns, role turn = .user → CleanTurn threshold turn) : IsBlock b := by
  rw [extractUserQueriesFromTurns] at hb
  split at hb
  · cases hb
  · cases hb
    have hqueries := opens_queries h opens_dropLast_endTag
    have hall := free_literal (apart_markup "<grok_user_queries>\n" (by simp)) hqueries.2
    have hheader : "<grok_user_queries>\n".toList = startTag ++ ['\n'] := by decide
    rw [hheader, append_assoc startTag] at hall ⊢
    refine ⟨_, rfl, ?_⟩
    rw [append_assoc, append_assoc]
    exact hall

/-! ## Rounds -/

/-- A round of compaction: the new items and the text that is written. -/
structure Round (T : Type) where
  turns : List T
  userTruncateChars : Nat
  summaryText : Text

variable {T : Type} [CompactionItemBuilder T]

def Round.block (r : Round T) : Option Text :=
  extractUserQueriesFromTurns r.turns r.userTruncateChars

/-- The content of the summary that a round writes behind these. -/
def nextSummary (previous : List T) (r : Round T) : Text :=
  assembleUserQueriesPreamble (separatePriorUserQueries previous).priorUserQueries r.block ++
    r.summaryText

/-- The summaries behind some rounds: that of the last one. -/
def afterRounds (rounds : List (Round T)) : List T :=
  rounds.foldl (fun previous r => [compactionSummaryItem (nextSummary previous r)]) []

def queryBlocks (rounds : List (Round T)) : List Text := rounds.filterMap Round.block

/-- The summary text has no tag. -/
def NoTag (s : Text) : Prop := Free startTag s ∧ Free endTag s

structure Round.Clean (r : Round T) : Prop where
  turns : ∀ turn ∈ r.turns, role turn = .user → CleanTurn r.userTruncateChars turn
  summaryText : NoTag r.summaryText

theorem separatePriorUserQueries_item (text : Text) :
    let split := splitPriorCompactionText text
    separatePriorUserQueries [(compactionSummaryItem text : T)] =
      { turnsForLlm := if split.2 = [] then [] else [compactionSummaryItem split.2]
        priorUserQueries := split.1
        hasPriorCompaction := true } := by
  simp only [separatePriorUserQueries, foldl_cons, foldl_nil, separateStep,
    isCompactionSummary_item, if_true, text_item]
  cases (splitPriorCompactionText text).1 <;> simp

theorem priorUserQueries_of_laid (h : Laid tail bs text) (htail : Free startTag tail) :
    (separatePriorUserQueries [(compactionSummaryItem text : T)]).priorUserQueries = joined bs := by
  rw [separatePriorUserQueries_item]
  show (splitPriorCompactionText text).1 = _
  rw [splitPriorCompactionText_laid htail h, joined]
  split <;> rfl

theorem afterRounds_append (rounds : List (Round T)) (last : Round T) :
    afterRounds (rounds ++ [last]) =
      [compactionSummaryItem (nextSummary (afterRounds rounds) last)] := by
  rw [afterRounds, foldl_append]
  rfl

theorem queryBlocks_append (rounds : List (Round T)) (last : Round T) :
    queryBlocks (rounds ++ [last]) = queryBlocks rounds ++ last.block.toList := by
  rw [queryBlocks, queryBlocks, filterMap_append]
  congr 1

theorem laid_afterRounds (rounds : List (Round T)) (last : Round T)
    (hclean : ∀ r ∈ rounds ++ [last], r.Clean) :
    Laid last.summaryText (queryBlocks (rounds ++ [last]))
      (nextSummary (afterRounds rounds) last) := by
  induction rounds using List.reverseRecOn generalizing last with
  | nil =>
    have hblock : ∀ b ∈ last.block, IsBlock b :=
      fun b hb => isBlock_of_extract hb (hclean last (by simp)).turns
    rw [queryBlocks_append]
    exact @laid_preamble [] (by simp) _ hblock last.summaryText
  | append_singleton rounds r ih =>
    have hearlier : ∀ r' ∈ rounds ++ [r], r'.Clean :=
      fun r' hr' => hclean r' (mem_append_left _ hr')
    have hprior := priorUserQueries_of_laid (T := T) (ih r hearlier)
      (hearlier r (by simp)).summaryText.1
    have hbs : ∀ b ∈ queryBlocks (rounds ++ [r]), IsBlock b := by
      intro b hb
      obtain ⟨r', hr', hrb⟩ := mem_filterMap.mp hb
      exact isBlock_of_extract hrb (hearlier r' hr').turns
    have hlast : ∀ b ∈ last.block, IsBlock b :=
      fun b hb => isBlock_of_extract hb (hclean last (by simp)).turns
    rw [nextSummary, afterRounds_append, hprior, queryBlocks_append]
    exact laid_preamble hbs hlast last.summaryText

/-- The next round finds the blocks of all rounds, each once and in order,
and the text of the last summary; it is trimmed when there is a block. -/
theorem queries_carried (rounds : List (Round T)) (last : Round T)
    (hclean : ∀ r ∈ rounds ++ [last], r.Clean) :
    let blocks := queryBlocks (rounds ++ [last])
    let rest := if blocks = [] then last.summaryText else trim last.summaryText
    (splitLoop (nextSummary (afterRounds rounds) last) [] []).1 = blocks ∧
    separatePriorUserQueries (afterRounds (rounds ++ [last])) =
      { turnsForLlm := if rest = [] then [] else [compactionSummaryItem rest]
        priorUserQueries := joined blocks
        hasPriorCompaction := true } := by
  have htail := (hclean last (by simp)).summaryText.1
  have hlaid := laid_afterRounds rounds last hclean
  have hsplit := splitPriorCompactionText_laid htail hlaid
  constructor
  · have hloop := splitLoop_laid htail hlaid (w := []) (by simp [Blank]) []
    rw [nil_append, nil_append] at hloop
    rw [hloop]
  · rw [afterRounds_append, separatePriorUserQueries_item]
    simp only [hsplit, joined]
    by_cases h : queryBlocks (rounds ++ [last]) = [] <;> simp only [h, if_true, if_false]

/-- The item of the crate's own tests. -/
inductive MockItem where
  | system
  | developer (text : Text) (summary : Bool)
  | user (text : Text)
  | assistant (text : Option Text) (tools : Bool)
  | tool

instance : CompactionItemBuilder MockItem where
  role
    | .system => .system
    | .developer _ _ => .developer
    | .user _ => .user
    | .assistant _ _ => .assistant
    | .tool => .tool
  text
    | .developer text _ | .user text => some text
    | .assistant text _ => text
    | .system | .tool => none
  isCompactionSummary
    | .developer _ summary => summary
    | _ => false
  attachmentRefs _ := []
  compactionSummaryItem text := .developer text true
  isCompactionSummary_item _ := rfl
  text_item _ := rfl

/-- Two rounds with one message of the user each. -/
theorem queries_carried_hello :
    let first : Round MockItem := ⟨[.user "hello".toList], 100, "greeted".toList⟩
    let second : Round MockItem := ⟨[.user "again".toList], 100, " done".toList⟩
    (separatePriorUserQueries (afterRounds ([first] ++ [second]))).priorUserQueries =
      some ("<grok_user_queries>\n<grok_query>hello</grok_query>\n</grok_user_queries>\n".toList ++
        "<grok_user_queries>\n<grok_query>again</grok_query>\n</grok_user_queries>".toList) := by
  intro first second
  have hclean : ∀ r ∈ [first] ++ [second], r.Clean := by
    intro r hr
    rcases mem_cons.mp hr with rfl | hr
    · exact ⟨fun t ht _ => by
        rw [mem_singleton.mp ht]
        exact ⟨by decide, by simp [attachmentRefs]⟩, by decide, by decide⟩
    · rw [mem_singleton.mp hr]
      exact ⟨fun t ht _ => by
        rw [mem_singleton.mp ht]
        exact ⟨by decide, by simp [attachmentRefs]⟩, by decide, by decide⟩
  rw [(queries_carried [first] second hclean).2]
  decide

/-! ## Rounds that do not carry -/

/-- The queries are carried and the rest is the trimmed summary text. -/
def Carries (rounds : List (Round T)) (last : Round T) : Prop :=
  (separatePriorUserQueries (afterRounds (rounds ++ [last]))).priorUserQueries =
      joined (queryBlocks (rounds ++ [last])) ∧
    (splitPriorCompactionText (nextSummary (afterRounds rounds) last)).2 = trim last.summaryText

/-- No user item, and a blank before the text. -/
def silentRound : Round MockItem := ⟨[], 100, " done".toList⟩

/-- A user who writes an end tag. -/
def taggedRound : Round MockItem := ⟨[.user "</grok_user_queries>".toList], 100, "done".toList⟩

theorem not_carries_silentRound : ¬ Carries [] silentRound := by
  intro h
  have hlaid : Laid " done".toList [] (nextSummary (afterRounds []) silentRound) := .nil
  have hsplit := splitPriorCompactionText_laid (by decide) hlaid
  have hrest := h.2
  rw [hsplit] at hrest
  revert hrest
  decide

theorem not_carries_taggedRound : ¬ Carries [] taggedRound := by
  intro h
  have hblock : IsBlock "<grok_user_queries>\n<grok_query></grok_user_queries>".toList :=
    ⟨"\n<grok_query>".toList, by decide, by decide⟩
  have hlaid : Laid "</grok_query>\n</grok_user_queries>\n\ndone".toList
      ["<grok_user_queries>\n<grok_query></grok_user_queries>".toList]
      (nextSummary (afterRounds []) taggedRound) := by
    exact Laid.cons (w := []) hblock (by simp [Blank]) .nil
  have hsplit := splitPriorCompactionText_laid (by decide) hlaid
  have hrest := h.2
  rw [hsplit] at hrest
  revert hrest
  decide

/-- Not every summary text comes back trimmed, and not every user text comes
back whole. -/
theorem not_all_carried :
    (NoTag silentRound.summaryText ∧ ¬ Carries [] silentRound) ∧
      NoTag taggedRound.summaryText ∧ ¬ Carries [] taggedRound :=
  ⟨⟨⟨by decide, by decide⟩, not_carries_silentRound⟩,
    ⟨by decide, by decide⟩, not_carries_taggedRound⟩

end GrokBuild.Compaction
