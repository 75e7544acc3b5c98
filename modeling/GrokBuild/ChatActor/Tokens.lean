import GrokBuild.ChatHistory.Items
import GrokBuild.Lib.Str

/-!
# The text of an item and its token estimate

`text_summary`, `text_content` and `estimate_item_tokens`. A slice of a string
by byte offset fails off a character boundary (`sliceTo`), so each of them may
fail; which items they are defined on is `Previewable`
(`textContent_isSome_iff`, `estimateItemTokens_isSome_iff`).
-/

namespace GrokBuild.ChatActor

open TextLines ChatHistory Str List Option

/-- `&s[..n]`: `none` when `n` is past the end or off a character boundary. -/
def sliceTo (n : Nat) (s : Text) : Option Text :=
  match n, s with
  | 0, _ => some []
  | _ + 1, [] => none
  | n, c :: s =>
    if c.utf8Size ≤ n then (sliceTo (n - c.utf8Size) s).map (c :: ·) else none

def textSummary : BackendToolKind → Option Text
  | .webSearch action =>
    let actionDesc := match action with
      | .search query => "search: ".toList ++ query
      | .openPage url => "open: ".toList ++ url.getD "?".toList
      | .find pattern url | .findInPage pattern url =>
        "find \"".toList ++ pattern ++ "\" in ".toList ++ url
    some ("[backend web_search] ".toList ++ actionDesc)
  | .xSearch name input =>
    some ("[backend x_search] ".toList ++ name ++ "(".toList ++ input ++ ")".toList)
  | .codeInterpreter code => do
    let codePreview ← match code with
      | none => some []
      | some c =>
        if 100 < byteLen c then (sliceTo 100 c).map (· ++ "...".toList) else some c
    some ("[backend code_interpreter] ".toList ++ codePreview)

def reasoningItemText (r : ReasoningItem) : Text :=
  ['\n'].intercalate (r.summary ++ r.content.getD [])

def textContent : ConversationItem → Option Text
  | .system content => some content
  | .user u =>
    let texts := u.content.filterMap fun
      | .text text => some text
      | .image _ => none
    some (['\n'].intercalate texts)
  | .assistant a => some a.content
  | .toolResult tr => some tr.content
  | .backendToolCall kind => textSummary kind
  | .reasoning r => some (reasoningItemText r)

def bytesPerToken : Nat := 4

def imageTokenEstimate : Nat := 765

def estimateTokens (s : Text) : Nat := byteLen s / bytesPerToken

/-- The bytes of the text parts and the number of images. -/
def userPartSizes (parts : List ContentPart) : Nat × Nat :=
  parts.foldl (fun (acc : Nat × Nat) part =>
    match part with
    | .text text => (acc.1 + byteLen text, acc.2)
    | .image _ => (acc.1, acc.2 + 1)) (0, 0)

def encryptedBytes (r : ReasoningItem) : Nat := (r.encryptedContent.map byteLen).getD 0

def estimateItemTokens : ConversationItem → Option Nat
  | .system content => some (estimateTokens content)
  | .user u =>
    let sizes := userPartSizes u.content
    some (sizes.1 / bytesPerToken + sizes.2 * imageTokenEstimate)
  | .assistant a =>
    let bytes := byteLen a.content + (a.toolCalls.map fun tc => byteLen tc.arguments).sum
    some (bytes / bytesPerToken)
  | .toolResult tr => some (estimateTokens tr.content)
  | .backendToolCall kind => (textSummary kind).map estimateTokens
  | .reasoning r => some ((byteLen (reasoningItemText r) + encryptedBytes r) / bytesPerToken)

def estimateConversationTokens (items : List ConversationItem) : Option Nat :=
  (items.mapM estimateItemTokens).map List.sum

/-- `conversation_content_bytes`, for one item. -/
def itemContentBytes : ConversationItem → Option Nat
  | .system content => some (byteLen content)
  | .user u =>
    some ((u.content.map fun
      | .text text => byteLen text
      | .image url => byteLen url).sum)
  | .assistant a => some (byteLen a.content)
  | .toolResult tr => some (byteLen tr.content)
  | .backendToolCall kind => (textSummary kind).map byteLen
  | .reasoning r => some (byteLen (reasoningItemText r) + encryptedBytes r)

def conversationContentBytes (items : List ConversationItem) : Option Nat :=
  (items.mapM itemContentBytes).map List.sum

/-! ## Where they are defined -/

/-- Some character of the text ends after exactly `n` bytes. -/
def CharBoundary (s : Text) (n : Nat) : Prop := ∃ p, p <+: s ∧ byteLen p = n

/-- An item whose preview does not cut a character: the only long text that
is cut by bytes is the code of a code interpreter call. -/
def Previewable : ConversationItem → Prop
  | .backendToolCall (.codeInterpreter (some code)) => 100 < byteLen code → CharBoundary code 100
  | _ => True

theorem sliceTo_isSome_iff {n : Nat} {s : Text} : (sliceTo n s).isSome ↔ CharBoundary s n := by
  induction s generalizing n with
  | nil =>
    cases n with
    | zero => simp [sliceTo, CharBoundary, byteLen]
    | succ n => simp [sliceTo, CharBoundary, byteLen]
  | cons c s ih =>
    have hc : 0 < c.utf8Size := Char.utf8Size_pos c
    have hcons : ∀ p : Text, byteLen (c :: p) = c.utf8Size + byteLen p := fun p => by
      simp [byteLen]
    cases n with
    | zero =>
      have hnil : CharBoundary (c :: s) 0 := ⟨[], nil_prefix, rfl⟩
      simp [sliceTo, hnil]
    | succ n =>
      rw [sliceTo]
      · split
        · rename_i hle
          rw [isSome_map, ih]
          constructor
          · rintro ⟨p, hp, hlen⟩
            refine ⟨c :: p, cons_prefix_cons.mpr ⟨rfl, hp⟩, ?_⟩
            rw [hcons, hlen]
            omega
          · rintro ⟨p, hp, hlen⟩
            cases p with
            | nil => simp [byteLen] at hlen
            | cons d p =>
              obtain ⟨rfl, hrest⟩ := cons_prefix_cons.mp hp
              rw [hcons] at hlen
              exact ⟨p, hrest, by omega⟩
        · rename_i hle
          refine iff_of_false (by simp) ?_
          rintro ⟨p, hp, hlen⟩
          cases p with
          | nil => simp [byteLen] at hlen
          | cons d p =>
            obtain ⟨rfl, -⟩ := cons_prefix_cons.mp hp
            rw [hcons] at hlen
            omega
      · simp

theorem textSummary_isSome_iff {kind : BackendToolKind} :
    (textSummary kind).isSome ↔ Previewable (.backendToolCall kind) := by
  cases kind with
  | webSearch action => simp [textSummary, Previewable]
  | xSearch name input => simp [textSummary, Previewable]
  | codeInterpreter code =>
    cases code with
    | none => simp [textSummary, Previewable]
    | some code =>
      by_cases hlong : 100 < byteLen code
      · rw [Previewable, ← sliceTo_isSome_iff]
        cases h : sliceTo 100 code with
        | none => simp [textSummary, hlong, h]
        | some p => simp [textSummary, hlong, h]
      · simp [textSummary, Previewable, hlong]

variable {item : ConversationItem}

theorem textContent_isSome_iff : (textContent item).isSome ↔ Previewable item := by
  cases item with
  | backendToolCall kind => exact textSummary_isSome_iff
  | system | user | assistant | toolResult | reasoning => simp [textContent, Previewable]

theorem estimateItemTokens_isSome_iff : (estimateItemTokens item).isSome ↔ Previewable item := by
  cases item with
  | backendToolCall kind =>
    rw [estimateItemTokens, isSome_map]
    exact textSummary_isSome_iff
  | system | user | assistant | toolResult | reasoning => simp [estimateItemTokens, Previewable]

theorem itemContentBytes_isSome_iff : (itemContentBytes item).isSome ↔ Previewable item := by
  cases item with
  | backendToolCall kind =>
    rw [itemContentBytes, isSome_map]
    exact textSummary_isSome_iff
  | system | user | assistant | toolResult | reasoning => simp [itemContentBytes, Previewable]

variable {items : List ConversationItem}

theorem mapM_sum_isSome_iff {f : ConversationItem → Option Nat}
    (hf : ∀ item, (f item).isSome ↔ Previewable item) :
    ((items.mapM f).map List.sum).isSome ↔ ∀ item ∈ items, Previewable item := by
  rw [isSome_map]
  induction items with
  | nil => simp
  | cons item items ih =>
    rw [forall_mem_cons, ← ih, ← hf, mapM_cons]
    cases f item with
    | none => simp
    | some n =>
      cases items.mapM f with
      | none => simp
      | some ns => simp

theorem estimateConversationTokens_isSome_iff :
    (estimateConversationTokens items).isSome ↔ ∀ item ∈ items, Previewable item :=
  mapM_sum_isSome_iff fun _ => estimateItemTokens_isSome_iff

theorem conversationContentBytes_isSome_iff :
    (conversationContentBytes items).isSome ↔ ∀ item ∈ items, Previewable item :=
  mapM_sum_isSome_iff fun _ => itemContentBytes_isSome_iff

end GrokBuild.ChatActor
