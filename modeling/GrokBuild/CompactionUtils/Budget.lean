import Mathlib.Data.List.DropRight
import GrokBuild.ChatActor.Tokens
import GrokBuild.ChatHistory.Repair
import GrokBuild.Lib.ByteText

/-!
# Fitting a conversation to a token budget

`fit_conversation_to_budget` of `compaction_utils.rs`: the longest tail that
fits and does not start in a run of tool results, or else the last turn cut in
place. What it is to return is `Fitted`; it does except where a panic or a text
shorter than the marker that replaces it comes in between
(`fit_keeps_pairs_iff`).
-/

namespace GrokBuild.CompactionUtils

open TextLines Str ByteText ChatHistory ChatActor List Option

/-! ## Cutting a text -/

def markerReserve : Nat := 64

/-- The `while` loop over `is_char_boundary`. -/
def charBoundaryBefore (s : Text) : Nat → Nat
  | 0 => 0
  | n + 1 => if isCharBoundary s (n + 1) then n + 1 else charBoundaryBefore s n

/-- The marker for the bytes that are left out. -/
def truncationMarker (dropped : Nat) : Text :=
  "\n[... truncated ".toList ++ decimal dropped ++
    " bytes to fit the compaction window ...]".toList

def truncateTextToBytes (s : Text) (maxBytes : Nat) : Option Text :=
  if byteLen s ≤ maxBytes then none
  else
    let keep := maxBytes - markerReserve
    let stop := charBoundaryBefore s (min keep (byteLen s))
    let dropped := byteLen s - stop
    -- `&s[..end]`: the loop stops on a boundary
    some ((splitAtByte s stop).elim [] Prod.fst ++ truncationMarker dropped)

/-- `usize::saturating_mul` by four. -/
def maxBytesOf (maxTokens : Nat) : Nat := min (maxTokens * 4) usizeMax

/-- The text after `truncate_text_to_bytes`. -/
def cutText (maxBytes : Nat) (s : Text) : Text := (truncateTextToBytes s maxBytes).getD s

def cutPart (maxBytes : Nat) : ContentPart → ContentPart
  | .text text => .text (cutText maxBytes text)
  | part => part

def truncateItemToTokens (item : ConversationItem) (maxTokens : Nat) : ConversationItem :=
  let maxBytes := maxBytesOf maxTokens
  match item with
  | .toolResult t => .toolResult { t with content := cutText maxBytes t.content }
  | .assistant a => .assistant { a with content := cutText maxBytes a.content }
  | .user u => .user { u with content := u.content.map (cutPart maxBytes) }
  | other => other

/-! ## The tail -/

def isToolResult : ConversationItem → Bool
  | .toolResult _ => true
  | _ => false

/-- The backward walk of the budget, over the items last first: `start` is the
first item that is kept so far. -/
def walkBack : Conversation → Nat → Nat → Option Nat
  | [], _, start => some start
  | item :: earlier, remaining, start => do
    let cost ← estimateItemTokens item
    if remaining < cost then some start
    else walkBack earlier (remaining - cost) earlier.length

def recoverTruncatedTailUnit (body : Conversation) (budget : Nat) : Option Conversation :=
  let results := body.rtakeWhile isToolResult
  let body := body.rdropWhile isToolResult
  if results = [] then
    some (body.getLast?.map fun item => truncateItemToTokens item budget).toList
  else do
    let owner := match body.getLast? with
      | some (.assistant a) => if a.toolCalls = [] then none else some (.assistant a)
      | _ => none
    let ownerCost ← match owner with
      | none => some 0
      | some o => estimateItemTokens o
    let resultBudget := budget - ownerCost
    let per := max (resultBudget / results.length) 1
    some (owner.toList ++ results.map fun r => truncateItemToTokens r per)

/-- The leading `System` item, and the rest. -/
def systemHead : Conversation → Conversation × Conversation
  | .system content :: rest => ([.system content], rest)
  | conversation => ([], conversation)

def fitConversationToBudget (conversation : Conversation) (maxTokens : Nat) :
    Option Conversation := do
  let total ← estimateConversationTokens conversation
  if total ≤ maxTokens then some conversation
  else
    let head := (systemHead conversation).1
    let body := (systemHead conversation).2
    let headTokens ← estimateConversationTokens head
    let budget := maxTokens - headTokens
    let start ← walkBack body.reverse budget body.length
    let start := start + ((body.drop start).takeWhile isToolResult).length
    if start < body.length then some (head ++ body.drop start)
    else (recoverTruncatedTailUnit body budget).map (head ++ ·)

/-! ## What it is to return -/

/-- Each tool result is behind the item that called for it, with tool results
only in between; `ids` are the calls of the last other item. -/
def RequestedFrom : List Text → Conversation → Prop
  | _, [] => True
  | ids, .toolResult tr :: rest => tr.toolCallId ∈ ids ∧ RequestedFrom ids rest
  | _, item :: rest => RequestedFrom item.callIds rest

def Requested (c : Conversation) : Prop := RequestedFrom [] c

/-- The estimate is within the budget. -/
def Fits (c : Conversation) (budget : Nat) : Prop :=
  ∃ n, estimateConversationTokens c = some n ∧ n ≤ budget

/-- A tail that fits and starts at an item that is no tool result. -/
structure FittingTail (body : Conversation) (budget : Nat) (tail : Conversation) : Prop where
  suffix : tail <:+ body
  start : ∃ item rest, tail = item :: rest ∧ isToolResult item = false
  fits : Fits tail budget

/-- A text left as it is, or a shorter one: a prefix with the marker for the rest. -/
def ShortText (s s' : Text) : Prop :=
  s' = s ∨ byteLen s' < byteLen s ∧
    ∃ p, p <+: s ∧ s' = p ++ truncationMarker (byteLen s - byteLen p)

def ShortPart : ContentPart → ContentPart → Prop
  | .text s, part => ∃ s', ShortText s s' ∧ part = .text s'
  | .image url, part => part = .image url

/-- An item with only its text contents shortened. -/
def Shortened : ConversationItem → ConversationItem → Prop
  | .toolResult t, item => ∃ s, ShortText t.content s ∧ item = .toolResult { t with content := s }
  | .assistant a, item => ∃ s, ShortText a.content s ∧ item = .assistant { a with content := s }
  | .user u, item =>
    ∃ parts, List.Forall₂ ShortPart u.content parts ∧ item = .user { u with content := parts }
  | other, item => item = other

/-- The last unit: the last item, or the final run of tool results with the
item that they are behind. -/
def lastUnit (body : Conversation) : Conversation :=
  let results := body.rtakeWhile isToolResult
  if results = [] then body.getLast?.toList
  else (body.rdropWhile isToolResult).getLast?.toList ++ results

/-- What is left for the items behind the leading `System` item. -/
def bodyBudget (conversation : Conversation) (maxTokens : Nat) : Nat :=
  maxTokens - (estimateConversationTokens (systemHead conversation).1).getD 0

structure Fitted (conversation : Conversation) (maxTokens : Nat) (out : Conversation) : Prop where
  whole : Fits conversation maxTokens → out = conversation
  cut : ¬ Fits conversation maxTokens → ∃ tail, out = (systemHead conversation).1 ++ tail ∧
    let body := (systemHead conversation).2
    let budget := bodyBudget conversation maxTokens
    (FittingTail body budget tail ∧
        ∀ tail', FittingTail body budget tail' → tail'.length ≤ tail.length) ∨
      ((∀ tail', ¬ FittingTail body budget tail') ∧ List.Forall₂ Shortened (lastUnit body) tail)
  requested : Requested out
  newest : ∀ item, conversation.getLast? = some item →
    ∃ item', out.getLast? = some item' ∧ Shortened item item'

/-! ## Where the cut is shorter -/

/-- The texts of an item that the cut looks at. -/
def cutTexts : ConversationItem → List Text
  | .toolResult t => [t.content]
  | .assistant a => [a.content]
  | .user u => u.content.filterMap fun
    | .text text => some text
    | .image _ => none
  | _ => []

/-- No text above the limit is as short as the marker that replaces it, other
than the marker itself. -/
def KeepsShort (maxTokens : Nat) (item : ConversationItem) : Prop :=
  ∀ s ∈ cutTexts item, maxBytesOf maxTokens < byteLen s →
    58 < byteLen s ∨ s = truncationMarker 58

/-- The items of the last unit that are cut: its tool results, or the one item. -/
def cutItems (body : Conversation) : Conversation :=
  let results := body.rtakeWhile isToolResult
  if results = [] then body.getLast?.toList else results

/-- The budget of each of them. -/
def unitBudget (body : Conversation) (budget : Nat) : Nat :=
  let results := body.rtakeWhile isToolResult
  if results = [] then budget
  else
    let owner := (body.rdropWhile isToolResult).getLast?.toList
    max ((budget - (estimateConversationTokens owner).getD 0) / results.length) 1

/-- Every item can be previewed; and when nothing fits, no text of the last
unit is replaced by a marker that is as long. -/
def CutsShort (conversation : Conversation) (maxTokens : Nat) : Prop :=
  let body := (systemHead conversation).2
  let budget := bodyBudget conversation maxTokens
  (∀ item ∈ conversation, Previewable item) ∧
    (¬ Fits conversation maxTokens → (∀ tail, ¬ FittingTail body budget tail) →
      ∀ item ∈ cutItems body, KeepsShort (unitBudget body budget) item)

theorem byteLen_of_ascii {s : Text} (h : ∀ c ∈ s, c.utf8Size = 1) : byteLen s = s.length := by
  induction s with
  | nil => rfl
  | cons c s ih =>
    rw [byteLen_cons, h c mem_cons_self, ih fun d hd => h d (mem_cons_of_mem _ hd),
      length_cons, Nat.add_comm]

theorem utf8Size_of_isDigit {c : Char} (h : c.isDigit = true) : c.utf8Size = 1 := by
  simp only [Char.isDigit, Bool.and_eq_true, decide_eq_true_eq] at h
  rw [Char.utf8Size, if_pos]
  exact UInt32.le_trans h.2 (by decide)

theorem byteLen_truncationMarker (n : Nat) :
    byteLen (truncationMarker n) = 56 + (decimal n).length := by
  have hdigits : byteLen (decimal n) = (decimal n).length :=
    byteLen_of_ascii fun c hc => utf8Size_of_isDigit (isDigit_of_mem_decimal hc)
  have hpieces : ∀ before after : Text, byteLen before = 16 → byteLen after = 40 →
      byteLen (before ++ decimal n ++ after) = 56 + (decimal n).length := by
    intro before after hbefore hafter
    rw [byteLen_append, byteLen_append, hdigits]
    omega
  exact hpieces _ _ rfl rfl

theorem length_decimal_le_iff {n k : Nat} (hk : 0 < k) : (decimal n).length ≤ k ↔ n < 10 ^ k :=
  Nat.length_toDigits_le_iff (by decide) hk

theorem marker_lt {n : Nat} (h : 58 < n) : byteLen (truncationMarker n) < n := by
  rw [byteLen_truncationMarker]
  by_cases htwo : n < 100
  · have hlen : (decimal n).length ≤ 2 := (length_decimal_le_iff (by decide)).mpr htwo
    omega
  · have hpow : ∀ k, 56 + (k + 3) < 10 ^ (k + 2) := by
      intro k
      induction k with
      | zero => decide
      | succ k ih =>
        rw [Nat.pow_succ]
        omega
    by_contra hlong
    have hthree : ¬ (decimal n).length ≤ 2 := by
      rw [length_decimal_le_iff (by decide)]
      exact htwo
    obtain ⟨k, hk⟩ : ∃ k, (decimal n).length = k + 3 := ⟨(decimal n).length - 3, by omega⟩
    have hless : ¬ (decimal n).length ≤ k + 2 := by omega
    rw [length_decimal_le_iff (by omega)] at hless
    have hpow := hpow k
    omega

theorem le_marker {n : Nat} (h : n ≤ 58) :
    n ≤ byteLen (truncationMarker n) ∧ (byteLen (truncationMarker n) = n → n = 58) := by
  rw [byteLen_truncationMarker]
  have hpos : 0 < (decimal n).length := Nat.length_toDigits_pos
  have hten : (decimal n).length ≤ 1 ↔ n < 10 := length_decimal_le_iff (by decide)
  constructor
  · omega
  · intro heq
    omega

theorem charBoundaryBefore_spec (s : Text) (n : Nat) :
    charBoundaryBefore s n ≤ n ∧ isCharBoundary s (charBoundaryBefore s n) = true := by
  induction n with
  | zero => exact ⟨Nat.le_refl 0, isCharBoundary_zero s⟩
  | succ n ih =>
    rw [charBoundaryBefore]
    split
    · rename_i hboundary
      exact ⟨Nat.le_refl _, hboundary⟩
    · exact ⟨Nat.le_succ_of_le ih.1, ih.2⟩
variable {maxBytes : Nat}

/-- A text above the limit becomes a prefix and the marker for the rest; below
the marker's reserve the prefix is empty. -/
theorem cutText_spec {s : Text} (h : maxBytes < byteLen s) :
    ∃ p, p <+: s ∧ byteLen p ≤ maxBytes - markerReserve ∧
      cutText maxBytes s = p ++ truncationMarker (byteLen s - byteLen p) := by
  obtain ⟨hstop, hboundary⟩ :=
    charBoundaryBefore_spec s (min (maxBytes - markerReserve) (byteLen s))
  obtain ⟨p, post, hs, hp⟩ := append_of_isCharBoundary hboundary
  have hsplit : splitAtByte s (charBoundaryBefore s (min (maxBytes - markerReserve) (byteLen s))) =
      some (p, post) := splitAtByte_eq_some.mpr ⟨hs, hp⟩
  refine ⟨p, ⟨post, hs.symm⟩, ?_, ?_⟩
  · rw [hp]
    exact hstop.trans (min_le_left _ _)
  · rw [cutText, truncateTextToBytes, if_neg (Nat.not_le_of_lt h), getD_some, hsplit, hp]
    rfl

theorem shortText_cutText_iff {s : Text} :
    ShortText s (cutText maxBytes s) ↔
      (maxBytes < byteLen s → 58 < byteLen s ∨ s = truncationMarker 58) := by
  by_cases hfits : byteLen s ≤ maxBytes
  · have hsame : cutText maxBytes s = s := by
      rw [cutText, truncateTextToBytes, if_pos hfits, getD_none]
    refine iff_of_true (.inl hsame) fun habove => ?_
    omega
  · have habove : maxBytes < byteLen s := Nat.lt_of_not_le hfits
    obtain ⟨p, hpre, hp, hcut⟩ := cutText_spec habove
    have hlen : byteLen p ≤ byteLen s := by
      obtain ⟨rest, rfl⟩ := hpre
      rw [byteLen_append]
      omega
    rw [markerReserve] at hp
    constructor
    · intro hshort _
      by_contra hnone
      rw [not_or, Nat.not_lt] at hnone
      obtain ⟨hle, hother⟩ := hnone
      have hempty : p = [] := byteLen_eq_zero.mp (by omega)
      rw [hempty, byteLen_nil, Nat.sub_zero, nil_append] at hcut
      obtain ⟨hge, heq58⟩ := le_marker hle
      rcases hshort with hsame | ⟨hless, -⟩
      · have heq : byteLen (truncationMarker (byteLen s)) = byteLen s := by
          rw [← hcut, hsame]
        rw [heq58 heq] at hcut
        exact hother (hsame.symm.trans hcut)
      · rw [hcut] at hless
        omega
    · intro hcond
      by_cases hlong : 58 < byteLen s - byteLen p
      · refine .inr ⟨?_, p, hpre, hcut⟩
        have hmarker := marker_lt hlong
        rw [hcut, byteLen_append]
        omega
      · have hempty : p = [] := byteLen_eq_zero.mp (by omega)
        rw [hempty, byteLen_nil, Nat.sub_zero] at hlong
        rcases hcond habove with h58 | hmarker
        · exact absurd h58 hlong
        · left
          have heq : byteLen s = 58 := by
            rw [hmarker]
            decide
          rw [hcut, hempty, byteLen_nil, Nat.sub_zero, nil_append, heq, ← hmarker]

/-! ## Shortened items -/

theorem ShortPart.refl (part : ContentPart) : ShortPart part part := by
  cases part with
  | text s => exact ⟨s, .inl rfl, rfl⟩
  | image url => rfl

theorem Shortened.refl (item : ConversationItem) : Shortened item item := by
  cases item with
  | toolResult t => exact ⟨t.content, .inl rfl, rfl⟩
  | assistant a => exact ⟨a.content, .inl rfl, rfl⟩
  | user u =>
    have hparts : List.Forall₂ ShortPart u.content u.content :=
      forall₂_same.mpr fun part _ => .refl part
    exact ⟨u.content, hparts, rfl⟩
  | system | backendToolCall | reasoning => rfl

theorem shortPart_cutPart_iff {part : ContentPart} :
    ShortPart part (cutPart maxBytes part) ↔
      ∀ s, part = .text s → ShortText s (cutText maxBytes s) := by
  cases part with
  | text s =>
    constructor
    · rintro ⟨s', hshort, heq⟩ t ht
      cases ht
      cases heq
      exact hshort
    · intro h
      exact ⟨_, h s rfl, rfl⟩
  | image url =>
    refine iff_of_true rfl fun s hs => ?_
    cases hs
variable {item : ConversationItem} {maxTokens : Nat}
/-- The cut shortens an item when no marker is as long as the text it stands for. -/
theorem shortened_truncate_iff :
    Shortened item (truncateItemToTokens item maxTokens) ↔ KeepsShort maxTokens item := by
  have hone : ∀ content : Text, KeepsShort maxTokens (.ofAssistant content) ↔
      ShortText content (cutText (maxBytesOf maxTokens) content) := by
    intro content
    rw [shortText_cutText_iff]
    exact forall_mem_singleton
  cases item with
  | toolResult t =>
    refine Iff.trans ?_ (hone t.content).symm
    constructor
    · rintro ⟨s, hshort, heq⟩
      cases heq
      exact hshort
    · intro hshort
      exact ⟨_, hshort, rfl⟩
  | assistant a =>
    refine Iff.trans ?_ (hone a.content).symm
    constructor
    · rintro ⟨s, hshort, heq⟩
      cases heq
      exact hshort
    · intro hshort
      exact ⟨_, hshort, rfl⟩
  | user u =>
    have hparts : KeepsShort maxTokens (.user u) ↔ List.Forall₂ ShortPart u.content
        (u.content.map (cutPart (maxBytesOf maxTokens))) := by
      rw [forall₂_map_right_iff, forall₂_same]
      simp only [shortPart_cutPart_iff, shortText_cutText_iff]
      constructor
      · rintro h part hpart s rfl
        exact h s (mem_filterMap.mpr ⟨_, hpart, rfl⟩)
      · intro h s hs
        obtain ⟨part, hpart, htext⟩ := mem_filterMap.mp hs
        cases part with
        | text s' =>
          cases htext
          exact h _ hpart s rfl
        | image url => cases htext
    rw [hparts]
    constructor
    · rintro ⟨parts, hshort, heq⟩
      cases heq
      exact hshort
    · intro hshort
      exact ⟨_, hshort, rfl⟩
  | system | backendToolCall | reasoning =>
    refine iff_of_true rfl fun s hs => ?_
    cases hs

/-! ## Estimates -/

/-- The tokens of items that can be previewed. -/
def tokens (c : Conversation) : Nat := (c.map fun item => (estimateItemTokens item).getD 0).sum
variable {c : Conversation}

theorem estimate_eq (h : ∀ item ∈ c, Previewable item) :
    estimateConversationTokens c = some (tokens c) := by
  induction c with
  | nil => rfl
  | cons item c ih =>
    obtain ⟨hitem, hrest⟩ := forall_mem_cons.mp h
    obtain ⟨n, hn⟩ := isSome_iff_exists.mp (estimateItemTokens_isSome_iff.mpr hitem)
    have hc := ih hrest
    rw [estimateConversationTokens, map_eq_some_iff] at hc ⊢
    obtain ⟨ns, hns, hsum⟩ := hc
    refine ⟨n :: ns, ?_, ?_⟩
    · rw [mapM_cons, hn, hns]
      rfl
    · rw [sum_cons, hsum, tokens, tokens, map_cons, sum_cons, hn, getD_some]

theorem fits_iff (h : ∀ item ∈ c, Previewable item) {budget : Nat} :
    Fits c budget ↔ tokens c ≤ budget := by
  simp [Fits, estimate_eq h]

theorem tokens_append (c c' : Conversation) : tokens (c ++ c') = tokens c + tokens c' := by
  rw [tokens, map_append, List.sum_append]
  rfl

theorem tokens_drop_le (c : Conversation) {i j : Nat} (h : i ≤ j) :
    tokens (c.drop j) ≤ tokens (c.drop i) := by
  obtain ⟨k, rfl⟩ := Nat.exists_eq_add_of_le h
  have hcut := take_append_drop k (c.drop i)
  rw [drop_drop] at hcut
  rw [← hcut, tokens_append]
  omega

/-! ## The walk -/

/-- The walk stops at the first item from which on everything fits. -/
theorem walkBack_spec (body : Conversation) (h : ∀ item ∈ body, Previewable item) (budget : Nat) :
    ∃ start, walkBack body.reverse budget body.length = some start ∧
      tokens (body.drop start) ≤ budget ∧ ∀ k < start, budget < tokens (body.drop k) := by
  induction body using List.reverseRecOn generalizing budget with
  | nil => exact ⟨0, rfl, Nat.zero_le _, fun k hk => absurd hk (Nat.not_lt_zero k)⟩
  | append_singleton body item ih =>
    have hbody : ∀ x ∈ body, Previewable x := fun x hx => h x (mem_append_left _ hx)
    have hitem : Previewable item := h item (mem_append_right _ mem_cons_self)
    obtain ⟨cost, hcost⟩ := isSome_iff_exists.mp (estimateItemTokens_isSome_iff.mpr hitem)
    have hlast : tokens [item] = cost := by
      simp [tokens, hcost]
    have hdrop : ∀ k ≤ body.length,
        tokens ((body ++ [item]).drop k) = tokens (body.drop k) + cost := by
      intro k hk
      rw [drop_append_of_le_length hk, tokens_append, hlast]
    rw [reverse_append, reverse_singleton, singleton_append, walkBack, hcost]
    simp only [bind_eq_bind, bind_some, length_reverse]
    by_cases hover : budget < cost
    · refine ⟨_, if_pos hover, ?_, ?_⟩
      · rw [drop_length]
        exact Nat.zero_le _
      · intro k hk
        rw [length_append, length_singleton] at hk
        rw [hdrop k (by omega)]
        omega
    · obtain ⟨start, hwalk, hfits, hbefore⟩ := ih hbody (budget - cost)
      refine ⟨start, (if_neg hover).trans hwalk, ?_, ?_⟩
      · by_cases hstart : start ≤ body.length
        · rw [hdrop start hstart]
          omega
        · have hfirst := hbefore body.length (Nat.lt_of_not_le hstart)
          rw [drop_length] at hfirst
          exact absurd hfirst (Nat.not_lt_zero _)
      · intro k hk
        have hbound := hbefore k hk
        by_cases hin : k ≤ body.length
        · rw [hdrop k hin]
          omega
        · rw [drop_eq_nil_of_le (by omega)] at hbound
          exact absurd hbound (Nat.not_lt_zero _)

/-- Where the tail starts once it has moved over the tool results. -/
def tailStart (body : Conversation) (start : Nat) : Nat :=
  start + ((body.drop start).takeWhile isToolResult).length

theorem drop_tailStart (body : Conversation) (start : Nat) :
    body.drop (tailStart body start) = (body.drop start).dropWhile isToolResult := by
  have hcut : (body.drop start).takeWhile isToolResult ++ (body.drop start).dropWhile isToolResult =
      body.drop start := takeWhile_append_dropWhile
  calc body.drop (tailStart body start)
      = (body.drop start).drop ((body.drop start).takeWhile isToolResult).length := by
        rw [tailStart, drop_drop]
    _ = (body.drop start).dropWhile isToolResult := by
        nth_rewrite 2 [← hcut]
        rw [drop_left]
variable {body : Conversation}

theorem isToolResult_of_lt {start k : Nat} (hstart : start ≤ k)
    (hk : k < tailStart body start) : ∃ item, body[k]? = some item ∧ isToolResult item = true := by
  rw [tailStart] at hk
  have hlt : k - start < ((body.drop start).takeWhile isToolResult).length := by omega
  have hitem := getElem?_eq_getElem hlt
  obtain ⟨rest, hrest⟩ := takeWhile_prefix isToolResult (l := body.drop start)
  refine ⟨_, ?_, mem_takeWhile_imp (getElem_mem hlt)⟩
  rw [← hitem, ← getElem?_append_left hlt, hrest, getElem?_drop]
  congr 1
  omega

theorem tailStart_le {body tail : Conversation} {budget start : Nat}
    (h : ∀ item ∈ body, Previewable item) (hbefore : ∀ k < start, budget < tokens (body.drop k))
    (htail : FittingTail body budget tail) :
    ∃ k, tailStart body start ≤ k ∧ k < body.length ∧ tail = body.drop k := by
  obtain ⟨⟨pre, hpre⟩, ⟨item, rest, rfl, hitem⟩, hfits⟩ := htail
  have hdrop : body.drop pre.length = item :: rest := by
    rw [← hpre, drop_left]
  have hshort : pre.length < body.length := by
    rw [← hpre, length_append, length_cons]
    omega
  refine ⟨pre.length, ?_, hshort, hdrop.symm⟩
  have hpreview : ∀ x ∈ item :: rest, Previewable x := fun x hx =>
    h x (hpre ▸ mem_append_right _ hx)
  rw [fits_iff hpreview, ← hdrop] at hfits
  by_contra hlt
  by_cases hstart : start ≤ pre.length
  · obtain ⟨x, hx, htool⟩ := isToolResult_of_lt hstart (Nat.lt_of_not_le hlt)
    have hhead := congrArg (·[0]?) hdrop
    simp only [getElem?_drop, Nat.add_zero, getElem?_cons_zero] at hhead
    rw [hx, some.injEq] at hhead
    rw [hhead, hitem] at htool
    cases htool
  · have hover := hbefore pre.length (Nat.lt_of_not_le hstart)
    omega

theorem fittingTail_tailStart {budget start : Nat}
    (h : ∀ item ∈ body, Previewable item) (hfits : tokens (body.drop start) ≤ budget)
    (hin : tailStart body start < body.length) :
    FittingTail body budget (body.drop (tailStart body start)) := by
  have hne : body.drop (tailStart body start) ≠ [] := by
    rw [ne_eq, drop_eq_nil_iff]
    omega
  obtain ⟨item, rest, hcons⟩ := exists_cons_of_ne_nil hne
  refine ⟨drop_suffix _ _, ⟨item, rest, hcons, ?_⟩, ?_⟩
  · rw [drop_tailStart] at hcons
    have hhead := head?_dropWhile_not isToolResult (body.drop start)
    rw [hcons] at hhead
    simpa using hhead
  · rw [fits_iff fun x hx => h x (mem_of_mem_drop hx)]
    exact (tokens_drop_le body (Nat.le_add_right start _)).trans hfits

/-! ## Requests -/

theorem requestedFrom_of_head (h : isToolResult item = false)
    (ids : List Text) (rest : Conversation) :
    RequestedFrom ids (item :: rest) ↔ RequestedFrom item.callIds rest := by
  cases item with
  | toolResult tr => cases h
  | system | user | assistant | backendToolCall | reasoning => exact Iff.rfl

theorem RequestedFrom.behind {ids : List Text} {pre : Conversation}
    {rest : Conversation} (hitem : isToolResult item = false)
    (h : RequestedFrom ids (pre ++ item :: rest)) : RequestedFrom item.callIds rest := by
  induction pre generalizing ids with
  | nil => exact (requestedFrom_of_head hitem ids rest).mp h
  | cons x pre ih =>
    cases hx : isToolResult x with
    | true =>
      cases x with
      | toolResult tr => exact ih h.2
      | system | user | assistant | backendToolCall | reasoning => cases hx
    | false => exact ih ((requestedFrom_of_head hx ids _).mp h)

theorem Requested.tail {pre rest : Conversation}
    (h : Requested (pre ++ item :: rest)) (hitem : isToolResult item = false) :
    Requested (item :: rest) :=
  (requestedFrom_of_head hitem [] rest).mpr (h.behind hitem)

theorem Shortened.callIds {item item' : ConversationItem} (h : Shortened item item') :
    item'.callIds = item.callIds := by
  cases item with
  | toolResult t =>
    obtain ⟨s, -, rfl⟩ := h
    rfl
  | assistant a =>
    obtain ⟨s, -, rfl⟩ := h
    rfl
  | user u =>
    obtain ⟨parts, -, rfl⟩ := h
    rfl
  | system | backendToolCall | reasoning =>
    cases h
    rfl

theorem Shortened.isToolResult {item item' : ConversationItem} (h : Shortened item item') :
    isToolResult item' = CompactionUtils.isToolResult item := by
  cases item with
  | toolResult t =>
    obtain ⟨s, -, rfl⟩ := h
    rfl
  | assistant a =>
    obtain ⟨s, -, rfl⟩ := h
    rfl
  | user u =>
    obtain ⟨parts, -, rfl⟩ := h
    rfl
  | system | backendToolCall | reasoning =>
    cases h
    rfl

theorem RequestedFrom.shortened {ids : List Text} {c c' : Conversation}
    (hshort : List.Forall₂ Shortened c c') (h : RequestedFrom ids c) : RequestedFrom ids c' := by
  induction hshort generalizing ids with
  | nil => trivial
  | @cons item item' c c' hitem _ ih =>
    cases hkind : CompactionUtils.isToolResult item with
    | true =>
      cases item with
      | toolResult t =>
        obtain ⟨s, -, rfl⟩ := hitem
        exact ⟨h.1, ih h.2⟩
      | system | user | assistant | backendToolCall | reasoning => cases hkind
    | false =>
      have hkind' := hitem.isToolResult.trans hkind
      rw [requestedFrom_of_head hkind']
      rw [requestedFrom_of_head hkind] at h
      rw [hitem.callIds]
      exact ih h

/-! ## The recovered unit -/

theorem rdropWhile_append_rtakeWhile (p : ConversationItem → Bool) (body : Conversation) :
    body.rdropWhile p ++ body.rtakeWhile p = body := by
  rw [List.rdropWhile, List.rtakeWhile, ← reverse_append, takeWhile_append_dropWhile,
    reverse_reverse]

theorem owner_of_requested (h : Requested body)
    (hresults : body.rtakeWhile isToolResult ≠ []) :
    ∃ pre a, body.rdropWhile isToolResult = pre ++ [.assistant a] ∧ a.toolCalls ≠ [] := by
  obtain ⟨result, results, hcons⟩ := exists_cons_of_ne_nil hresults
  have htool : isToolResult result = true :=
    mem_rtakeWhile_imp (hcons ▸ mem_cons_self)
  have hbody := rdropWhile_append_rtakeWhile isToolResult body
  rw [hcons] at hbody
  cases result with
  | system | user | assistant | backendToolCall | reasoning => cases htool
  | toolResult tr =>
    rcases eq_nil_or_concat (body.rdropWhile isToolResult) with hnil | ⟨pre, item, hpre⟩
    · rw [hnil, nil_append] at hbody
      rw [← hbody] at h
      exact absurd h.1 not_mem_nil
    · have hitem : isToolResult item = false := by
        have hlast := rdropWhile_last_not isToolResult body (by rw [hpre]; simp)
        simpa [hpre] using hlast
      rw [hpre, concat_eq_append, append_assoc, singleton_append] at hbody
      rw [← hbody] at h
      have hcall := (RequestedFrom.behind hitem h).1
      cases item with
      | toolResult tr' => cases hitem
      | system | user | backendToolCall | reasoning => exact absurd hcall not_mem_nil
      | assistant a =>
        refine ⟨pre, a, by rw [hpre, concat_eq_append], ?_⟩
        rintro hnone
        simp [ConversationItem.callIds, hnone] at hcall

theorem lastUnit_spec (h : Requested body) :
    ∃ owner, lastUnit body = owner ++ cutItems body ∧ ∀ budget,
      recoverTruncatedTailUnit body budget = some (owner ++ (cutItems body).map fun item =>
        truncateItemToTokens item (unitBudget body budget)) := by
  by_cases hresults : body.rtakeWhile isToolResult = []
  · refine ⟨[], ?_, fun budget => ?_⟩
    · rw [lastUnit, cutItems, if_pos hresults, if_pos hresults, nil_append]
    · have hall : body.rdropWhile isToolResult = body := by
        have hbody := rdropWhile_append_rtakeWhile isToolResult body
        rwa [hresults, append_nil] at hbody
      simp only [recoverTruncatedTailUnit, cutItems, unitBudget, hresults, hall, if_true,
        nil_append]
      cases body.getLast? with
      | none => rfl
      | some item => rfl
  · obtain ⟨pre, a, hpre, hcalls⟩ := owner_of_requested h hresults
    obtain ⟨n, hn⟩ : ∃ n, estimateItemTokens (.assistant a) = some n := ⟨_, rfl⟩
    have howner : estimateConversationTokens [.assistant a] = some n := by
      have htokens := estimate_eq (c := [.assistant a]) (forall_mem_singleton.mpr trivial)
      rw [htokens, tokens, map_singleton, sum_singleton, hn, getD_some]
    refine ⟨[.assistant a], ?_, fun budget => ?_⟩
    · rw [lastUnit, cutItems, if_neg hresults, if_neg hresults, hpre, getLast?_concat]
      rfl
    · simp only [recoverTruncatedTailUnit, cutItems, unitBudget, if_neg hresults, hpre,
        getLast?_concat, if_neg hcalls, hn, toList_some, howner, getD_some]
      rfl

theorem lastUnit_suffix (body : Conversation) : lastUnit body <:+ body := by
  have hbody := rdropWhile_append_rtakeWhile isToolResult body
  have hlast : ∀ c : Conversation, c.getLast?.toList <:+ c := by
    intro c
    rcases eq_nil_or_concat c with rfl | ⟨pre, item, rfl⟩
    · exact suffix_refl []
    · rw [concat_eq_append, getLast?_concat]
      exact suffix_append pre [item]
  rw [lastUnit]
  split
  · exact hlast body
  · obtain ⟨pre, hpre⟩ := hlast (body.rdropWhile isToolResult)
    refine ⟨pre, ?_⟩
    rw [← append_assoc, hpre, hbody]

theorem requested_lastUnit (h : Requested body) :
    Requested (lastUnit body) := by
  obtain ⟨pre, hpre⟩ := lastUnit_suffix body
  by_cases hresults : body.rtakeWhile isToolResult = []
  · rw [lastUnit, if_pos hresults] at hpre ⊢
    cases hlast : body.getLast? with
    | none => trivial
    | some item =>
      rw [hlast] at hpre
      have hitem : isToolResult item = false := by
        have hnot := rtakeWhile_eq_nil_iff.mp hresults (List.ne_nil_of_mem
          (mem_of_getLast? hlast))
        rw [← some.inj ((getLast?_eq_some_getLast _).symm.trans hlast)]
        simpa using hnot
      rw [← hpre] at h
      exact h.tail hitem
  · obtain ⟨before, a, hbefore, -⟩ := owner_of_requested h hresults
    rw [lastUnit, if_neg hresults, hbefore, getLast?_concat] at hpre ⊢
    rw [← hpre] at h
    exact Requested.tail h rfl

/-- The unit is shortened exactly when no marker is as long as its text. -/
theorem forall₂_shortened_iff {owner items : Conversation} :
    List.Forall₂ Shortened (owner ++ items)
        (owner ++ items.map fun item => truncateItemToTokens item maxTokens) ↔
      ∀ item ∈ items, KeepsShort maxTokens item := by
  induction owner with
  | nil =>
    rw [nil_append, nil_append, forall₂_map_right_iff, forall₂_same]
    simp only [shortened_truncate_iff]
  | cons item owner ih =>
    rw [cons_append, cons_append, forall₂_cons, ih]
    exact and_iff_right (.refl item)

/-! ## The result -/

theorem systemHead_append (c : Conversation) : (systemHead c).1 ++ (systemHead c).2 = c := by
  unfold systemHead
  split
  · rfl
  · rfl

theorem requested_head_append (c rest : Conversation) :
    Requested ((systemHead c).1 ++ rest) ↔ Requested rest := by
  unfold systemHead
  split
  · exact requestedFrom_of_head rfl [] rest
  · exact Iff.rfl

theorem requested_body (h : Requested c) : Requested (systemHead c).2 := by
  rwa [← requested_head_append c, systemHead_append]

theorem newest_of_tail {c tail : Conversation}
    (h : ∀ item, (systemHead c).2.getLast? = some item →
      ∃ item', tail.getLast? = some item' ∧ Shortened item item')
    (hnil : (systemHead c).2 = [] → tail = []) :
    ∀ item, c.getLast? = some item →
      ∃ item', ((systemHead c).1 ++ tail).getLast? = some item' ∧ Shortened item item' := by
  intro item hitem
  rw [← systemHead_append c] at hitem
  by_cases hbody : (systemHead c).2 = []
  · rw [hbody, append_nil] at hitem
    rw [hnil hbody, append_nil]
    exact ⟨item, hitem, .refl item⟩
  · rw [getLast?_append_of_ne_nil _ hbody] at hitem
    obtain ⟨item', hitem', hshort⟩ := h item hitem
    refine ⟨item', ?_, hshort⟩
    rw [getLast?_append_of_ne_nil _ (List.ne_nil_of_mem (mem_of_getLast? hitem'))]
    exact hitem'

theorem newest_of_suffix {body tail : Conversation} (h : tail <:+ body) (hne : body ≠ [] → tail ≠ []) :
    ∀ item, body.getLast? = some item → tail.getLast? = some item := by
  intro item hitem
  obtain ⟨pre, rfl⟩ := h
  have htail := hne (List.ne_nil_of_mem (mem_of_getLast? hitem))
  rwa [getLast?_append_of_ne_nil _ htail] at hitem

theorem getLast?_of_forall₂ {c c' : Conversation} (h : List.Forall₂ Shortened c c') :
    ∀ item, c.getLast? = some item → ∃ item', c'.getLast? = some item' ∧ Shortened item item' := by
  intro item hitem
  rw [← head?_reverse] at hitem
  have hreverse := forall₂_reverse_iff.mpr h
  cases hc : c.reverse with
  | nil =>
    rw [hc] at hitem
    cases hitem
  | cons x rest =>
    rw [hc] at hitem hreverse
    cases hitem
    obtain ⟨item', rest', hshort, -, hc'⟩ := forall₂_cons_left_iff.mp hreverse
    refine ⟨item', ?_, hshort⟩
    rw [← head?_reverse, hc', head?_cons]

theorem lastUnit_ne_nil (h : body ≠ []) : lastUnit body ≠ [] := by
  rw [lastUnit]
  split
  · simpa using h
  · rename_i hresults
    exact append_ne_nil_of_right_ne_nil _ hresults

/-- What is returned for items that can all be previewed. -/
theorem fitConversationToBudget_eq
    (hpreview : ∀ item ∈ c, Previewable item) (maxTokens : Nat) :
    (Fits c maxTokens ∧ fitConversationToBudget c maxTokens = some c) ∨
    ¬ Fits c maxTokens ∧
      ((∃ tail, FittingTail (systemHead c).2 (bodyBudget c maxTokens) tail ∧
          (∀ tail', FittingTail (systemHead c).2 (bodyBudget c maxTokens) tail' →
            tail'.length ≤ tail.length) ∧
          fitConversationToBudget c maxTokens = some ((systemHead c).1 ++ tail)) ∨
        (∀ tail, ¬ FittingTail (systemHead c).2 (bodyBudget c maxTokens) tail) ∧
          fitConversationToBudget c maxTokens =
            (recoverTruncatedTailUnit (systemHead c).2 (bodyBudget c maxTokens)).map
              ((systemHead c).1 ++ ·)) := by
  have hparts : ∀ x, x ∈ (systemHead c).1 ∨ x ∈ (systemHead c).2 → Previewable x := by
    intro x hx
    exact hpreview x (systemHead_append c ▸ mem_append.mpr hx)
  have hbody : ∀ x ∈ (systemHead c).2, Previewable x := fun x hx => hparts x (.inr hx)
  have hhead := estimate_eq fun x hx => hparts x (.inl hx)
  have hbudget : bodyBudget c maxTokens = maxTokens - tokens (systemHead c).1 := by
    rw [bodyBudget, hhead, getD_some]
  obtain ⟨start, hwalk, hfits, hbefore⟩ := walkBack_spec (systemHead c).2 hbody
    (bodyBudget c maxTokens)
  rw [fits_iff hpreview]
  by_cases hwhole : tokens c ≤ maxTokens
  · left
    refine ⟨hwhole, ?_⟩
    simp [fitConversationToBudget, estimate_eq hpreview, hwhole]
  · right
    refine ⟨hwhole, ?_⟩
    have heq : fitConversationToBudget c maxTokens =
        if tailStart (systemHead c).2 start < (systemHead c).2.length then
          some ((systemHead c).1 ++ (systemHead c).2.drop (tailStart (systemHead c).2 start))
        else (recoverTruncatedTailUnit (systemHead c).2 (bodyBudget c maxTokens)).map
          ((systemHead c).1 ++ ·) := by
      simp only [fitConversationToBudget, estimate_eq hpreview, bind_eq_bind,
        bind_some, if_neg hwhole, hhead, ← hbudget, hwalk]
      rfl
    by_cases hin : tailStart (systemHead c).2 start < (systemHead c).2.length
    · left
      refine ⟨_, fittingTail_tailStart hbody hfits hin, ?_, heq.trans (if_pos hin)⟩
      intro tail' htail'
      obtain ⟨k, hk, -, rfl⟩ := tailStart_le hbody hbefore htail'
      rw [length_drop, length_drop]
      omega
    · right
      refine ⟨fun tail htail => ?_, heq.trans (if_neg hin)⟩
      obtain ⟨k, hk, hlt, -⟩ := tailStart_le hbody hbefore htail
      omega

theorem cutsShort_of_fitted {conversation out : Conversation}
    (hrequested : Requested conversation)
    (hout : fitConversationToBudget conversation maxTokens = some out)
    (hfitted : Fitted conversation maxTokens out) : CutsShort conversation maxTokens := by
  have hpreview : ∀ item ∈ conversation, Previewable item := by
    have htotal := hout
    rw [fitConversationToBudget, bind_eq_bind, bind_eq_some_iff] at htotal
    obtain ⟨total, htotal, -⟩ := htotal
    exact estimateConversationTokens_isSome_iff.mp (by rw [htotal]; rfl)
  refine ⟨hpreview, fun hover hnone => ?_⟩
  obtain ⟨owner, hunit, hrecover⟩ := lastUnit_spec (requested_body hrequested)
  obtain ⟨tail, htail, ⟨hfitting, -⟩ | ⟨-, hshort⟩⟩ := hfitted.cut hover
  · exact absurd hfitting (hnone tail)
  · rcases fitConversationToBudget_eq hpreview maxTokens with
      ⟨hwhole, -⟩ | ⟨-, ⟨tail', hfitting, -⟩ | ⟨-, heq⟩⟩
    · exact absurd hwhole hover
    · exact absurd hfitting (hnone tail')
    · rw [hrecover, map_some, hout, some.injEq, htail] at heq
      rw [append_cancel_left heq, hunit] at hshort
      exact forall₂_shortened_iff.mp hshort

theorem fitted_of_cutsShort {conversation : Conversation}
    (hrequested : Requested conversation) (h : CutsShort conversation maxTokens) :
    ∃ out, fitConversationToBudget conversation maxTokens = some out ∧
      Fitted conversation maxTokens out := by
  obtain ⟨hpreview, hcuts⟩ := h
  have hbody := requested_body hrequested
  rcases fitConversationToBudget_eq hpreview maxTokens with
    ⟨hwhole, heq⟩ | ⟨hover, ⟨tail, hfitting, hlongest, heq⟩ | ⟨hnone, heq⟩⟩
  · refine ⟨_, heq, fun _ => rfl, fun hover => absurd hwhole hover, hrequested, ?_⟩
    intro item hitem
    exact ⟨item, hitem, .refl item⟩
  · refine ⟨_, heq, fun hwhole => absurd hwhole hover,
      fun _ => ⟨tail, rfl, .inl ⟨hfitting, hlongest⟩⟩, ?_, ?_⟩
    · rw [requested_head_append]
      obtain ⟨⟨pre, hpre⟩, ⟨item, rest, rfl, hitem⟩, -⟩ := hfitting
      rw [← hpre] at hbody
      exact hbody.tail hitem
    · obtain ⟨item, rest, hcons, -⟩ := hfitting.start
      have hne : tail ≠ [] := hcons ▸ cons_ne_nil item rest
      apply newest_of_tail
      · intro item hitem
        exact ⟨item, newest_of_suffix hfitting.suffix (fun _ => hne) item hitem, .refl item⟩
      · intro hnil
        exact suffix_nil.mp (hnil ▸ hfitting.suffix)
  · obtain ⟨owner, hunit, hrecover⟩ := lastUnit_spec hbody
    rw [hrecover, map_some] at heq
    have hshort : List.Forall₂ Shortened (lastUnit (systemHead conversation).2) _ :=
      hunit ▸ forall₂_shortened_iff.mpr (hcuts hover hnone)
    have hsuffix := lastUnit_suffix (systemHead conversation).2
    refine ⟨_, heq, fun hwhole => absurd hwhole hover,
      fun _ => ⟨_, rfl, .inr ⟨hnone, hshort⟩⟩, ?_, ?_⟩
    · rw [requested_head_append]
      exact RequestedFrom.shortened hshort (requested_lastUnit hbody)
    · apply newest_of_tail
      · intro item hitem
        have hlast := newest_of_suffix hsuffix lastUnit_ne_nil item hitem
        exact getLast?_of_forall₂ hshort item hlast
      · intro hnil
        have hempty : lastUnit (systemHead conversation).2 = [] :=
          suffix_nil.mp (hnil ▸ hsuffix)
        rw [hempty] at hshort
        exact forall₂_nil_left_iff.mp hshort

/-- `fit_conversation_to_budget` returns the conversation itself, its longest
tail that fits or its last unit shortened, exactly when every item can be
previewed and no marker is as long as the text it stands for. -/
theorem fit_keeps_pairs_iff (conversation : Conversation) (maxTokens : Nat)
    (hrequested : Requested conversation) :
    (∃ out, fitConversationToBudget conversation maxTokens = some out ∧
      Fitted conversation maxTokens out) ↔ CutsShort conversation maxTokens := by
  constructor
  · rintro ⟨out, hout, hfitted⟩
    exact cutsShort_of_fitted hrequested hout hfitted
  · exact fitted_of_cutsShort hrequested

/-- A message, a call and its result of 100 bytes, under a budget of one token. -/
def readFile : Conversation :=
  [.ofUser "read it".toList, .assistant ⟨[], [⟨"c".toList, "read".toList, []⟩]⟩,
    .ofToolResult "c".toList (List.replicate 100 'a')]

theorem fit_keeps_pairs_iff_readFile :
    ∃ out, fitConversationToBudget readFile 1 = some out ∧ Fitted readFile 1 out := by
  have hrequested : Requested readFile := ⟨mem_singleton.mpr rfl, trivial⟩
  refine (fit_keeps_pairs_iff readFile 1 hrequested).mpr ⟨?_, fun _ _ => ?_⟩
  · intro item hitem
    simp only [readFile, mem_cons, not_mem_nil, or_false] at hitem
    rcases hitem with rfl | rfl | rfl <;> trivial
  · -- of the last unit only the result is cut, and the marker is shorter
    show ∀ item ∈ [ConversationItem.ofToolResult "c".toList (List.replicate 100 'a')], _
    rw [forall_mem_singleton]
    intro s hs _
    left
    rw [mem_singleton.mp hs]
    decide

/-- A message of 11 bytes under a budget of one token: the marker has 58. -/
def shortMessage : ConversationItem := .ofUser "hello there".toList

theorem fit_lengthens_short_message :
    Requested [shortMessage] ∧
      ¬ ∃ out, fitConversationToBudget [shortMessage] 1 = some out ∧ Fitted [shortMessage] 1 out := by
  have hrequested : Requested [shortMessage] := trivial
  refine ⟨hrequested, ?_⟩
  rintro ⟨out, hout, hfitted⟩
  obtain ⟨hpreview, hcuts⟩ := cutsShort_of_fitted hrequested hout hfitted
  have hover : ¬ Fits [shortMessage] 1 := by
    rw [fits_iff hpreview]
    decide
  have hnone : ∀ tail, ¬ FittingTail [shortMessage] 1 tail := by
    rintro tail ⟨⟨pre, hpre⟩, ⟨item, rest, rfl, -⟩, hfits⟩
    cases pre with
    | nil =>
      rw [nil_append] at hpre
      exact hover (hpre ▸ hfits)
    | cons x pre =>
      have hlen := congrArg List.length hpre
      simp at hlen
  have hshort := hcuts hover hnone shortMessage mem_cons_self
    "hello there".toList mem_cons_self (by decide)
  revert hshort
  decide

end GrokBuild.CompactionUtils
