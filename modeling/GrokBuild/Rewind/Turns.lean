import GrokBuild.ChatHistory.Items

/-!
# Rewind: truncating a conversation

`conversation_truncate_for_prompt` and the three counts behind it. Each gives
how many items stay in front of the one that started the target turn.
-/

namespace GrokBuild.Rewind

open TextLines ChatHistory

/-- What the counts carry from item to item. -/
structure TurnScan where
  nextUnmarkedIndex : Nat
  seenUnmarkedPreamble : Bool
  seenMarker : Bool

namespace TurnScan

def start : TurnScan := ⟨0, false, false⟩

/-- The index of an item without a marker, if it opens a turn. -/
def unmarkedIndex (s : TurnScan) : Option SyntheticReason → Option Nat
  | none => if s.seenUnmarkedPreamble then some s.nextUnmarkedIndex else none
  | some reason => if reason.startsPromptTurn then some s.nextUnmarkedIndex else none

/-- The first real item is the preamble. -/
def pastPreamble (s : TurnScan) : Option SyntheticReason → TurnScan
  | none => { s with seenUnmarkedPreamble := true }
  | some _ => s

end TurnScan

def conversationTruncateMarkersOnly (target : Nat) : List ConversationItem → Nat
  | [] => 0
  | .user u :: items =>
    match u.promptIndex with
    | some idx => if target ≤ idx then 0 else conversationTruncateMarkersOnly target items + 1
    | none => conversationTruncateMarkersOnly target items + 1
  | _ :: items => conversationTruncateMarkersOnly target items + 1

def conversationTruncateLegacy (target : Nat) (s : TurnScan) : List ConversationItem → Nat
  | [] => 0
  | .user u :: items =>
    let seen := s.pastPreamble u.syntheticReason
    match s.unmarkedIndex u.syntheticReason with
    | some idx =>
      if target ≤ idx then 0
      else conversationTruncateLegacy target { seen with nextUnmarkedIndex := idx + 1 } items + 1
    | none => conversationTruncateLegacy target seen items + 1
  | _ :: items => conversationTruncateLegacy target s items + 1

/-- The turns of the prefix without markers. -/
def countLegacyTurnsUntilMarker (s : TurnScan) : List ConversationItem → Nat
  | [] => 0
  | .user u :: items =>
    if u.promptIndex.isSome then 0
    else
      let turns := countLegacyTurnsUntilMarker (s.pastPreamble u.syntheticReason) items
      if (s.unmarkedIndex u.syntheticReason).isSome then turns + 1 else turns
  | _ :: items => countLegacyTurnsUntilMarker s items

def conversationTruncateProgressive (target : Nat) (s : TurnScan) :
    List ConversationItem → Nat
  | [] => 0
  | .user u :: items =>
    match u.promptIndex with
    | some idx =>
      if target ≤ idx then 0
      else conversationTruncateProgressive target { s with seenMarker := true } items + 1
    | none =>
      if s.seenMarker then conversationTruncateProgressive target s items + 1
      else
        let seen := s.pastPreamble u.syntheticReason
        match s.unmarkedIndex u.syntheticReason with
        | some idx =>
          if target ≤ idx then 0
          else
            conversationTruncateProgressive target
              { seen with nextUnmarkedIndex := idx + 1 } items + 1
        | none => conversationTruncateProgressive target seen items + 1
  | _ :: items => conversationTruncateProgressive target s items + 1

def markerOf : ConversationItem → Option Nat
  | .user u => u.promptIndex
  | _ => none

def conversationTruncateForPrompt (conversation : List ConversationItem)
    (targetPromptIndex : Nat) : Nat :=
  match conversation.findSome? markerOf with
  | none => conversationTruncateLegacy targetPromptIndex .start conversation
  | some firstMarkerIdx =>
    if countLegacyTurnsUntilMarker .start conversation ≠ firstMarkerIdx then
      conversationTruncateMarkersOnly targetPromptIndex conversation
    else conversationTruncateProgressive targetPromptIndex .start conversation

/-! ## A conversation of marked turns -/

/-- Every user item is marked, with an index below the bound. -/
def MarkedBelow (bound : Nat) (items : List ConversationItem) : Prop :=
  ∀ u, .user u ∈ items → ∃ idx < bound, u.promptIndex = some idx

variable {items : List ConversationItem}

theorem MarkedBelow.mono {bound bound' : Nat} (h : MarkedBelow bound items) (hle : bound ≤ bound') :
    MarkedBelow bound' items := by
  intro u hu
  obtain ⟨idx, hlt, hidx⟩ := h u hu
  exact ⟨idx, by omega, hidx⟩

theorem MarkedBelow.append {bound : Nat} {items' : List ConversationItem}
    (h : MarkedBelow bound items) (h' : MarkedBelow bound items') :
    MarkedBelow bound (items ++ items') := by
  intro u hu
  rcases List.mem_append.mp hu with hu | hu
  · exact h u hu
  · exact h' u hu

variable {target : Nat} {u : UserItem}

/-- Where every turn is marked, the cut is at the first turn from the target on. -/
theorem truncateMarkersOnly_marked (tail : List ConversationItem) (hmarked : MarkedBelow target items)
    (hu : u.promptIndex = some target) :
    conversationTruncateMarkersOnly target (items ++ .user u :: tail) = items.length := by
  induction items with
  | nil => simp [conversationTruncateMarkersOnly, hu]
  | cons item items ih =>
    have hrest := ih fun u' hu' => hmarked u' (.tail _ hu')
    cases item with
    | user u' =>
      obtain ⟨idx, hlt, hidx⟩ := hmarked u' (.head _)
      simp [conversationTruncateMarkersOnly, hidx, hlt, hrest]
    | system | assistant | toolResult | backendToolCall | reasoning =>
      simp [conversationTruncateMarkersOnly, hrest]

theorem truncateProgressive_marked (tail : List ConversationItem) (hmarked : MarkedBelow target items)
    (hu : u.promptIndex = some target) (s : TurnScan) :
    conversationTruncateProgressive target s (items ++ .user u :: tail) = items.length := by
  induction items generalizing s with
  | nil => simp [conversationTruncateProgressive, hu]
  | cons item items ih =>
    have hrest := ih fun u' hu' => hmarked u' (.tail _ hu')
    cases item with
    | user u' =>
      obtain ⟨idx, hlt, hidx⟩ := hmarked u' (.head _)
      simp [conversationTruncateProgressive, hidx, hlt, hrest]
    | system | assistant | toolResult | backendToolCall | reasoning =>
      simp [conversationTruncateProgressive, hrest]

theorem truncateForPrompt_marked (tail : List ConversationItem) (hmarked : MarkedBelow target items)
    (hu : u.promptIndex = some target) :
    conversationTruncateForPrompt (items ++ .user u :: tail) target = items.length := by
  unfold conversationTruncateForPrompt
  cases hfirst : (items ++ .user u :: tail).findSome? markerOf with
  | none =>
    have hnone := List.findSome?_eq_none_iff.mp hfirst (.user u) (by simp)
    simp [markerOf, hu] at hnone
  | some idx =>
    simp only
    split
    · exact truncateMarkersOnly_marked tail hmarked hu
    · exact truncateProgressive_marked tail hmarked hu .start

end GrokBuild.Rewind
