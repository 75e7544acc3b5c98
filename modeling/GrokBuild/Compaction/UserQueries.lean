import GrokBuild.Lib.Search
import GrokBuild.Lib.Str

/-!
# Compaction: user queries

`history/filter.rs`: the messages of the user are written into the summary as
a `<grok_user_queries>` block, and the next compaction finds the blocks of
the earlier ones again by their tags.
-/

namespace GrokBuild.Compaction

open TextLines Str Search

inductive CompactionRole where
  | system
  | developer
  | user
  | assistant
  | tool
  deriving DecidableEq

structure CompactionFileRef where
  id : Text
  name : Text
  deriving DecidableEq

/-- `CompactionItem`: an item as the algorithms see it. -/
class CompactionItem (T : Type) where
  role : T → CompactionRole
  text : T → Option Text
  isCompactionSummary : T → Bool
  attachmentRefs : T → List CompactionFileRef

/-- `CompactionItemBuilder`, with what its documentation asks of the item
that carries a summary. -/
class CompactionItemBuilder (T : Type) extends CompactionItem T where
  compactionSummaryItem : Text → T
  isCompactionSummary_item : ∀ text, isCompactionSummary (compactionSummaryItem text) = true
  text_item : ∀ s, (text (compactionSummaryItem s)).getD [] = s

open CompactionItem CompactionItemBuilder

def startTag : Text := "<grok_user_queries>".toList

def endTag : Text := "</grok_user_queries>".toList

/-! ## `split_prior_compaction_text` -/

/-- `rest.push_str` of a trimmed piece, on a line of its own. -/
def pushRest (rest piece : Text) : Text :=
  let piece := trim piece
  if piece = [] then rest
  else if rest = [] then piece
  else rest ++ '\n' :: piece

theorem length_drop_lt {text : Text} {start n : Nat} (h : find startTag text = some start) :
    (text.drop (start + n + endTag.length)).length < text.length := by
  have hne : text ≠ [] := by
    rintro rfl
    cases h
  have hpos := List.length_pos_iff.mpr hne
  have htag : endTag.length = 20 := rfl
  rw [List.length_drop]
  omega

/-- The `loop`, on the text from the cursor on. -/
def splitLoop (text : Text) (userSections : List Text) (rest : Text) : List Text × Text :=
  match _h : find startTag text with
  | none => (userSections, pushRest rest text)
  | some start =>
    match find endTag (text.drop start) with
    | none => (userSections, pushRest rest text)
    | some stop =>
      let absEnd := start + stop + endTag.length
      splitLoop (text.drop absEnd)
        (userSections ++ [(text.take absEnd).drop start])
        (pushRest rest (text.take start))
termination_by text.length
decreasing_by exact length_drop_lt _h

/-- `join("\n")`. -/
def joinLines (pieces : List Text) : Text := List.intercalate ['\n'] pieces

def splitPriorCompactionText (text : Text) : Option Text × Text :=
  let r := splitLoop text [] []
  if r.1 = [] then (none, text) else (some (joinLines r.1), r.2)

/-! ## `extract_user_queries_from_turns` -/

def truncateMiddle (msg : Text) (maxChars : Nat) : Option Text :=
  if msg.length ≤ maxChars then none
  else
    let frontLen := maxChars / 2
    let backLen := maxChars - frontLen
    some (msg.take frontLen ++ "...[truncated]...".toList ++ msg.drop (msg.length - backLen))

def grokFile (ref : CompactionFileRef) : Text :=
  "<grok_file id=\"".toList ++ ref.id ++ "\" name=\"".toList ++ ref.name ++ "\" />\n".toList

/-- The `<grok_query>` element of an item, if it is a user item with content. -/
def grokQuery {T : Type} [CompactionItem T] (threshold : Nat) (turn : T) : Option Text :=
  if role turn ≠ .user then none
  else
    let text := (CompactionItem.text turn).getD []
    let attachments := attachmentRefs turn
    if text = [] ∧ attachments = [] then none
    else
      some ("<grok_query>".toList ++ (truncateMiddle text threshold).getD text ++
        (if attachments = [] then [] else '\n' :: attachments.flatMap grokFile) ++
        "</grok_query>\n".toList)

def extractUserQueriesFromTurns {T : Type} [CompactionItem T] (turns : List T)
    (userTruncateChars : Nat) : Option Text :=
  let queries := turns.filterMap (grokQuery userTruncateChars)
  if queries = [] then none
  else some ("<grok_user_queries>\n".toList ++ queries.flatten ++ "</grok_user_queries>".toList)

/-! ## `separate_prior_user_queries` and `assemble_user_queries_preamble` -/

structure SeparatedHistoryTurns (T : Type) where
  turnsForLlm : List T
  priorUserQueries : Option Text
  hasPriorCompaction : Bool

/-- The body of the `for` over the items. -/
def separateStep {T : Type} [CompactionItemBuilder T] (acc : SeparatedHistoryTurns T) (turn : T) :
    SeparatedHistoryTurns T :=
  if isCompactionSummary turn then
    let split := splitPriorCompactionText ((CompactionItem.text turn).getD [])
    { turnsForLlm :=
        if split.2 = [] then acc.turnsForLlm
        else acc.turnsForLlm ++ [compactionSummaryItem split.2]
      priorUserQueries :=
        match split.1, acc.priorUserQueries with
        | none, prior => prior
        | some userSec, some existing => some (existing ++ '\n' :: userSec)
        | some userSec, none => some userSec
      hasPriorCompaction := true }
  else { acc with turnsForLlm := acc.turnsForLlm ++ [turn] }

def separatePriorUserQueries {T : Type} [CompactionItemBuilder T] (turns : List T) :
    SeparatedHistoryTurns T :=
  turns.foldl separateStep ⟨[], none, false⟩

/-- `if let Some(p)`: push it and an empty line. -/
def pushSection : Option Text → Text
  | some p => p ++ "\n\n".toList
  | none => []

def assembleUserQueriesPreamble (prior current : Option Text) : Text :=
  pushSection prior ++ pushSection current

end GrokBuild.Compaction
