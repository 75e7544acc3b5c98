import GrokBuild.ChatHistory.Fork
import Mathlib.Data.Char
import Mathlib.Data.List.Lex
import Mathlib.Data.List.Sort

/-!
# Conversations: the background of a fork

`normalize_forked_context` shows a child the parent's last turns as they are and the
turns before them as counts. Which item goes where is read off the ends of the first
cycles of the turns, and off the position of the system item.
-/

namespace GrokBuild.ChatHistory

open TextLines List

def maxVerbatimTurns : Nat := 3

/-- The items behind the first one that are rendered. -/
def parentItems (items : List ConversationItem) : List ConversationItem :=
  (items.drop 1).filter notSystem

/-- `early_end`, or 0 where all turns fit. -/
def earlyEnd (parent : List ConversationItem) : Nat :=
  let turns := countCompleteTurns parent
  if turns.length ≤ maxVerbatimTurns then 0
  else (turns[turns.length - maxVerbatimTurns]?).getD 0

/-- The items that are given to `render_item_to_background`, one by one. -/
def verbatim (items : List ConversationItem) : List ConversationItem :=
  (parentItems items).drop (earlyEnd (parentItems items))

/-- The counts of `render_summary`: user messages, assistant messages, tools. -/
structure Summary where
  userMessages : Nat
  assistantMessages : Nat
  toolsUsed : List Text

/-- One step of its loop. -/
def Summary.note (s : Summary) : ConversationItem → Summary
  | .user _ => { s with userMessages := s.userMessages + 1 }
  | .assistant a =>
    { s with
      assistantMessages := s.assistantMessages + 1
      toolsUsed := s.toolsUsed ++ a.toolCalls.map (·.name) }
  | _ => s

def isSystem : ConversationItem → Bool
  | .system _ => true
  | _ => false

variable {items : List ConversationItem}

end GrokBuild.ChatHistory
