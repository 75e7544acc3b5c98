import Mathlib.Data.List.Sort
import GrokBuild.Hashline.Scheme

/-!
# Hashline edits

`grok_build_hashline/edit/apply.rs` with the types of `edit/types.rs`, the
warnings of `edit/range_policy.rs` and the renderer of `read_file.rs`: a
batch of operations is resolved against the lines of the file, checked for
overlaps, spliced from the bottom up and reported with a snippet and one
detail per operation.

Lines are counted from 0 inside the module and from 1 in everything the
caller sees, as in the source. The `isize` shift is an `Int`; casting it
back is `Int.toNat`, and `Apply` shows that it is never negative there.
-/

namespace GrokBuild.Hashline

open TextLines Str

/-! ## Types (`edit/types.rs`) -/

inductive HashlineOp where
  | replace (anchor : Text) (endAnchor : Option Text) (content : Text)
  | insertAfter (anchor content : Text)
  | write (content : Text)
  deriving DecidableEq, Repr

inductive HashlineEditErrorKind where
  | anchorStale
  | ambiguousAnchor
  | anchorNotFound
  | fileNotFound
  | overlappingEdits
  | invalidInput
  | ioError
  deriving DecidableEq, Repr

structure HashlineEditError where
  error : HashlineEditErrorKind
  message : Text
  requestedAnchor : Option Text := none
  current : Option Text := none
  context : Option Text := none
  contextStartLine : Option Nat := none
  shiftedTo : Option Nat := none
  shiftedAnchor : Option Text := none
  ambiguousCandidates : List Nat := []
  deriving DecidableEq, Repr

structure HashlineEditsApplied where
  applied : Nat
  scheme : Text
  snippetStartLine : Nat
  snippet : Text
  absolutePath : Text
  warnings : List Text
  deriving DecidableEq, Repr

inductive HashlineEditOutput where
  | editsApplied (result : HashlineEditsApplied)
  | error (e : HashlineEditError)
  deriving DecidableEq, Repr

/-- A validated operation: it replaces the lines from `start` up to but not
including `stop`, both counted from 0. An insertion has `start = stop`. -/
structure ResolvedOp where
  originalIdx : Nat
  start : Nat
  stop : Nat
  newLines : List Text
  deriving DecidableEq, Repr

structure EditRegionDetail where
  oldLine : Nat
  oldText : Text
  newLine : Nat
  newText : Text
  deriving DecidableEq, Repr

structure ApplyResult where
  output : HashlineEditOutput
  newContent : Option Text
  editDetails : List EditRegionDetail
  deriving DecidableEq, Repr

/-! ## Rendering -/

def anchorSuffix (a : Anchor) : Text :=
  match a.context with
  | some ctx => a.localHash ++ ':' :: ctx
  | none => a.localHash

/-- `LINE:SUFFIX→CONTENT`. -/
def renderAnchoredLine (a : Anchor) (content : Text) : Text :=
  decimal a.line ++ ':' :: (anchorSuffix a ++ '→' :: content)

/-- `format_hashline_content` (`read_file.rs`): the selected lines with
their anchors, and the same lines without. -/
def formatHashlineContent (fileContent : Text) (offset limit : Option Nat)
    (scheme : AnchorScheme) : Text × Text :=
  let allLines := splitLines fileContent
  let anchors := scheme.generateAnchors allLines
  let skip := offset.getD 1 - 1
  let take := limit.getD usizeMax
  let selected := (((allLines.zip anchors).zipIdx).drop skip).take take
  (joinLines (selected.map fun p =>
      decimal (p.2 + 1) ++ ':' :: (anchorSuffix p.1.2 ++ '→' :: p.1.1)),
    joinLines (selected.map fun p => p.1.1))

/-- The format label and the example anchor of the error messages. -/
def anchorFormatHint (scheme : AnchorScheme) : Text × Text :=
  let len := max 1 (min scheme.hashLen.val 4)
  let hash := "abcd".toList.take len
  let hasContext := (scheme.generateAnchors ["x".toList]).head?.any (·.context.isSome)
  if hasContext then
    ("LINE:HASH1:HASH2".toList, "22:".toList ++ hash ++ ':' :: "rstu".toList.take len)
  else ("LINE:HASH".toList, "22:".toList ++ hash)

/-! ## Copied anchor prefixes -/

/-- The text in front of an arrow reads like an anchor. -/
def looksLikeAnchor (before : Text) : Bool :=
  byteLen before ≤ 25 && before.contains ':' && !before.contains ' '

def hasAnchorPrefix (line : Text) : Bool :=
  let s := trimStart line
  (splitOnce ['→'] s).any (fun p => looksLikeAnchor p.1) ||
    (splitOnce ['-', '>'] s).any (fun p => looksLikeAnchor p.1)

def detectAnchorPrefixInContent (content : Text) : Option Nat :=
  ((lines content).findIdx? hasAnchorPrefix).map (· + 1)

def anchorContentError (opLabel content : Text) (lineNum : Nat) : HashlineEditError :=
  let ls := lines content
  let offendingLine := ls.getD (lineNum - 1) []
  let ctxStart := lineNum - 1 - 1
  let ctxEnd := min (lineNum + 1) ls.length
  let context := joinLines ((List.range' ctxStart (ctxEnd - ctxStart)).map fun i =>
    (if i + 1 = lineNum then ">>>".toList else "   ".toList) ++ " line ".toList ++
      decimal (i + 1) ++ ": ".toList ++ ls.getD i [])
  { error := .invalidInput
    message := opLabel ++ (" content contains anchor prefixes (e.g. \"22:abc:rst→\") " ++
      "copied from hashline_read output. The first offending line is line ").toList ++
      decimal lineNum ++ (". Strip the anchor prefixes and the → separator from every line, " ++
      "keeping only the actual file content, then retry.").toList
    current := some offendingLine
    context := some context
    contextStartLine := some (ctxStart + 1) }

/-! ## Anchor validation -/

/-- `recover_anchor_by_suffix`: an anchor without its line number is
accepted when exactly one line of the file has these hashes. -/
def recoverAnchorBySuffix (suffix : Text) (lines : List Text) (scheme : AnchorScheme) :
    Option ParsedAnchor :=
  let found := (scheme.generateAnchors lines).filter fun a =>
    match a.context, splitOnce [':'] suffix with
    | some ctx, some (localHash, sfxCtx) => a.localHash = localHash ∧ ctx = sfxCtx
    | none, none => a.localHash = suffix
    | _, _ => False
  match found with
  | [a] => some { line := a.line, localHash := a.localHash, context := a.context }
  | _ => none

/-- Cut off an arrow and what follows it, as copied from `hashline_read`. -/
def stripArrow (anchorStr : Text) : Text :=
  match splitOnce ['→'] anchorStr with
  | some p => p.1
  | none =>
    match splitOnce ['-', '>'] anchorStr with
    | some p => p.1
    | none => anchorStr

def recoveryCtx : Nat := 5

/-- The error of a stale anchor: where the line went, if that is clear, and
the lines around the old place with fresh anchors. -/
def staleError (anchorStr : Text) (parsed : ParsedAnchor) (lines : List Text)
    (scheme : AnchorScheme) : HashlineEditError :=
  let anchors := scheme.generateAnchors lines
  let ctxStart := parsed.line - 1 - recoveryCtx
  let ctxEnd := min (parsed.line + recoveryCtx) lines.length
  let context := joinLines ((((anchors.zip lines).drop ctxStart).take (ctxEnd - ctxStart)).map
    fun p => renderAnchoredLine p.1 p.2)
  let base : HashlineEditError :=
    { error := .anchorStale
      message := []
      requestedAnchor := some anchorStr
      current := ((anchors.zip lines)[parsed.line - 1]?).map fun p => renderAnchoredLine p.1 p.2
      context := some context
      contextStartLine := some (ctxStart + 1) }
  match scheme.findShifted parsed lines defaultSearchRadius with
  | .found newLine =>
    let fresh := decimal newLine ++ ':' :: (anchors[newLine - 1]?).elim [] anchorSuffix
    { base with
      message := "Anchor stale at line ".toList ++ decimal parsed.line ++
        ". Content appears to have shifted to line ".toList ++ decimal newLine ++
        ". Retry with anchor \"".toList ++ fresh ++ "\".".toList
      shiftedTo := some newLine
      shiftedAnchor := some fresh }
  | .ambiguous candidates =>
    { base with
      error := .ambiguousAnchor
      message := "Anchor stale at line ".toList ++ decimal parsed.line ++
        ". Multiple candidates at lines ".toList ++ debugList candidates ++
        ". Use the fresh anchors from the context below to retry your edit.".toList
      ambiguousCandidates := candidates }
  | .notFound =>
    { base with
      message := "Anchor stale at line ".toList ++ decimal parsed.line ++
        ". Use the fresh anchors from the context below to retry your edit.".toList }

/-- The anchor that a string stands for: as written, or recovered from its
hashes alone. -/
def readAnchor (anchorStr : Text) (lines : List Text) (scheme : AnchorScheme) :
    Option ParsedAnchor :=
  match ParsedAnchor.parse anchorStr with
  | some p => some p
  | none => recoverAnchorBySuffix anchorStr lines scheme

/-- `validate_anchor`: the 0-based line that an anchor string names. -/
def validateAnchor (anchorStr : Text) (lines : List Text) (scheme : AnchorScheme) :
    Except HashlineEditError Nat :=
  let anchorStr := stripArrow anchorStr
  match readAnchor anchorStr lines scheme with
  | none =>
    let (fmt, ex) := anchorFormatHint scheme
    .error
      { error := .invalidInput
        message := "Malformed anchor: \"".toList ++ anchorStr ++
          "\". Expected format: \"".toList ++ fmt ++ "\" (e.g. \"".toList ++ ex ++ "\").".toList
        requestedAnchor := some anchorStr }
  | some parsed =>
    match scheme.validate parsed lines with
    | .valid => .ok (parsed.line - 1)
    | .outOfRange =>
      .error
        { error := .anchorNotFound
          message := "Line ".toList ++ decimal parsed.line ++
            " is out of range (file has ".toList ++ decimal lines.length ++ " lines).".toList
          requestedAnchor := some anchorStr }
    | .stale => .error (staleError anchorStr parsed lines scheme)

/-! ## Resolving operations -/

/-- The replaced range of a `Replace`: `end_anchor` defaults to the line of
`anchor`, and the range is half open. -/
def resolveRange (anchor : Text) (endAnchor : Option Text) (lines : List Text)
    (scheme : AnchorScheme) : Except HashlineEditError (Nat × Nat) :=
  match validateAnchor anchor lines scheme with
  | .error e => .error e
  | .ok start =>
    match endAnchor with
    | none => .ok (start, start + 1)
    | some ea =>
      match validateAnchor ea lines scheme with
      | .error e => .error e
      | .ok e =>
        if e < start then
          .error
            { error := .invalidInput
              message := "end_anchor line ".toList ++ decimal (e + 1) ++
                " is before start anchor line ".toList ++ decimal (start + 1) ++ ".".toList
              requestedAnchor := some ea }
        else .ok (start, e + 1)

/-- The insertion point of an `InsertAfter`. At `EOF` a final empty line
stays behind the insertion. -/
def resolveInsert (anchor : Text) (lines : List Text) (scheme : AnchorScheme) :
    Except HashlineEditError Nat :=
  if anchor = "0:".toList then .ok 0
  else if anchor = "EOF".toList then
    if lines.length > 1 ∧ lines[lines.length - 1]? = some [] then .ok (lines.length - 1)
    else .ok lines.length
  else
    match validateAnchor anchor lines scheme with
    | .error e => .error e
    | .ok line => .ok (line + 1)

def resolveOp (op : HashlineOp) (originalIdx : Nat) (ls : List Text) (scheme : AnchorScheme) :
    Except HashlineEditError ResolvedOp :=
  match op with
  | .replace anchor endAnchor content =>
    match resolveRange anchor endAnchor ls scheme with
    | .error e => .error e
    | .ok (start, stop) =>
      match detectAnchorPrefixInContent content with
      | some lineNum => .error (anchorContentError "replace".toList content lineNum)
      | none => .ok
        { originalIdx, start, stop, newLines := if content = [] then [] else lines content }
  | .insertAfter anchor content =>
    match resolveInsert anchor ls scheme with
    | .error e => .error e
    | .ok insertAt =>
      match detectAnchorPrefixInContent content with
      | some lineNum => .error (anchorContentError "insert_after".toList content lineNum)
      | none => .ok
        { originalIdx, start := insertAt, stop := insertAt
          newLines := if content = [] then [[]] else lines content }
  | .write _ =>
    .error
      { error := .invalidInput
        message := ("Write op must be the only operation in a batch. " ++
          "Either use write alone (to replace the entire file) or use " ++
          "replace/insert_after ops without write.").toList }

def HashlineOp.content : HashlineOp → Text
  | .replace _ _ content | .insertAfter _ content | .write content => content

def HashlineOp.label : HashlineOp → Text
  | .replace .. => "replace".toList
  | .insertAfter .. => "insert_after".toList
  | .write .. => "write".toList

/-- The message of a failed operation, with the note that the whole batch
was dropped when it had more than one. -/
def batchFailure (op : HashlineOp) (idx total : Nat) (e : HashlineEditError) :
    HashlineEditError :=
  if total > 1 then
    { e with
      message := "Edit ".toList ++ decimal (idx + 1) ++ '/' :: decimal total ++ " (".toList ++
        op.label ++ "): ".toList ++ e.message ++ "\n\nThis batch contained ".toList ++
        decimal total ++ (" edits. Because this anchor failed validation, " ++
        "none of the edits were applied. Retry all ").toList ++ decimal total ++
        " edits with fresh anchors, not just the failed one.".toList }
  else e

/-- The resolving loop of `apply_edits`, from operation `idx` on. -/
def resolveOps (ls : List Text) (scheme : AnchorScheme) (total : Nat) :
    Nat → List HashlineOp → Except HashlineEditError (List ResolvedOp)
  | _, [] => .ok []
  | idx, op :: ops =>
    match resolveOp op idx ls scheme with
    | .error e => .error (batchFailure op idx total e)
    | .ok r =>
      match resolveOps ls scheme total (idx + 1) ops with
      | .error e => .error e
      | .ok rs => .ok (r :: rs)

/-! ## Overlaps -/

def ResolvedOp.describe (start stop idx : Nat) : Text :=
  if start = stop then
    "edit #".toList ++ decimal (idx + 1) ++ " (insertion at line ".toList ++
      decimal (start + 1) ++ ")".toList
  else
    "edit #".toList ++ decimal (idx + 1) ++ " (lines ".toList ++ decimal (start + 1) ++
      '-' :: decimal stop ++ ")".toList

def overlapError (a b : ResolvedOp) : HashlineEditError :=
  { error := .overlappingEdits
    message := "Overlapping edits: ".toList ++
      ResolvedOp.describe a.start a.stop a.originalIdx ++ " and ".toList ++
      ResolvedOp.describe b.start b.stop b.originalIdx ++ ".".toList }

def ResolvedOp.isInsertion (op : ResolvedOp) : Bool := op.start == op.stop

/-- The replacements of a batch, by their first line. -/
def ranges (ops : List ResolvedOp) : List ResolvedOp :=
  (ops.filter fun op => !op.isInsertion).insertionSort fun a b => a.start ≤ b.start

def checkOverlaps (ops : List ResolvedOp) : Option HashlineEditError :=
  let rs := ranges ops
  match (rs.zip rs.tail).find? fun w => w.1.stop > w.2.start with
  | some w => some (overlapError w.1 w.2)
  | none =>
    (ops.filter (·.isInsertion)).findSome? fun op =>
      (rs.find? fun r => r.start ≤ op.start && op.start < r.stop).map fun r => overlapError r op

def overlapFailure (total : Nat) (e : HashlineEditError) : HashlineEditError :=
  if total > 1 then
    { e with
      message := e.message ++ "\n\nThis batch contained ".toList ++ decimal total ++
        (" edits. Because of the overlap, none were applied. " ++
        "Fix the overlapping ranges and retry all edits.").toList }
  else e

/-! ## Warnings (`edit/range_policy.rs`) -/

inductive RangeSize where
  | small
  | medium
  | large
  deriving DecidableEq, Repr

def RangeSize.classify (lineCount : Nat) : RangeSize :=
  if lineCount ≤ 5 then .small else if lineCount ≤ 20 then .medium else .large

def rangeWarning (start stop : Nat) : Option Text :=
  let count := stop - start
  let place := decimal count ++ " lines, lines ".toList ++ decimal (start + 1) ++
    '-' :: decimal stop
  match RangeSize.classify count with
  | .large => some ("Caution: large range edit (".toList ++ place ++
      "). Verify the target range is correct.".toList)
  | .medium => some ("Note: medium range edit (".toList ++ place ++ ").".toList)
  | .small => none

/-! ## Snippets -/

def snippetContext : Nat := 3

def maxContiguousSnippet : Nat := 80

/-- One round of the loop that merges regions whose contexts touch. -/
def mergeRegion (total : Nat) (merged : List (Nat × Nat)) (r : Nat × Nat) : List (Nat × Nat) :=
  let ctxStart := r.1 - snippetContext
  let ctxEnd := min (r.2 + snippetContext) total
  match merged.getLast? with
  | some last =>
    if ctxStart ≤ last.2 then merged.dropLast ++ [(last.1, max last.2 ctxEnd)]
    else merged ++ [(ctxStart, ctxEnd)]
  | none => [(ctxStart, ctxEnd)]

def gapMarker (gap : Nat) : Text :=
  "... ".toList ++ decimal gap ++ " lines not shown ...".toList

/-- The snippets of the merged regions with gap markers between them.
`prevEnd` is the end of the region before, if there was one. -/
def snippetParts (newContent : Text) (total : Nat) (scheme : AnchorScheme) :
    Option Nat → List (Nat × Nat) → List Text
  | prevEnd, [] =>
    if prevEnd.getD 0 < total then [gapMarker (total - prevEnd.getD 0)] else []
  | prevEnd, (start, stop) :: rest =>
    let gap := match prevEnd with
      | some e => [gapMarker (start - e)]
      | none => if start > 0 then [gapMarker start] else []
    let snippet :=
      (formatHashlineContent newContent (some (start + 1)) (some (stop - start)) scheme).1
    gap ++ snippet :: snippetParts newContent total scheme (some stop) rest

def buildSnippet (newContent : Text) (editRegions : List (Nat × Nat)) (total : Nat)
    (scheme : AnchorScheme) : Text :=
  match editRegions.head?, editRegions.getLast? with
  | some first, some last =>
    let globalStart := first.1 - snippetContext
    let globalEnd := min (last.2 + snippetContext) total
    if globalEnd - globalStart ≤ maxContiguousSnippet then
      (formatHashlineContent newContent (some (globalStart + 1))
        (some (globalEnd - globalStart)) scheme).1
    else
      joinLines (snippetParts newContent total scheme none
        (editRegions.foldl (mergeRegion total) []))
  | _, _ => []

/-! ## Applying a batch -/

/-- The order in which operations are spliced: bottom up, and the later of
two operations at one place first. -/
def spliceOrder (a b : ResolvedOp) : Prop :=
  b.start < a.start ∨ (b.start = a.start ∧ b.originalIdx ≤ a.originalIdx)

instance : DecidableRel spliceOrder := fun a b => by unfold spliceOrder; infer_instance

def splice (lines : List Text) (op : ResolvedOp) : List Text :=
  lines.take op.start ++ op.newLines ++ lines.drop op.stop

/-- The loop that records what each operation did: the region of its lines
in the new file and its detail. It runs top down with the shift of the
operations so far. -/
def trackRegions (lines : List Text) :
    Int → List ResolvedOp → List ((Nat × Nat) × EditRegionDetail)
  | _, [] => []
  | shift, op :: rest =>
    let shiftedStart := ((op.start : Int) + shift).toNat
    let replaced := op.stop - op.start
    let inserted := op.newLines.length
    ((shiftedStart, shiftedStart + inserted),
      { oldLine := op.start + 1
        oldText := if op.start < op.stop then joinLines (slice lines op.start op.stop) else []
        newLine := shiftedStart + 1
        newText := joinLines op.newLines }) ::
      trackRegions lines (shift + inserted - replaced) rest

def buildWriteResult (newContent filePath : Text) (scheme : AnchorScheme) :
    HashlineEditOutput :=
  let total := (splitLines newContent).length
  let snippetEnd := min (snippetContext * 2) total
  .editsApplied
    { applied := 1
      scheme := scheme.name
      snippetStartLine := 1
      snippet := (formatHashlineContent newContent (some 1) (some snippetEnd) scheme).1
      absolutePath := filePath
      warnings := [] }

def failure (e : HashlineEditError) : ApplyResult :=
  { output := .error e, newContent := none, editDetails := [] }

/-- The part of `apply_edits` behind the checks: splice, track and report. -/
def applyResolved (lines : List Text) (resolved : List ResolvedOp) (applied : Nat)
    (filePath : Text) (scheme : AnchorScheme) : ApplyResult :=
  let warnings := resolved.filterMap fun op => rangeWarning op.start op.stop
  let sorted := resolved.insertionSort spliceOrder
  let tracked := trackRegions lines 0 sorted.reverse
  let newContent := joinLines (sorted.foldl splice lines)
  let total := (splitLines newContent).length
  let editRegions := (tracked.map (·.1)).insertionSort fun a b => a.1 ≤ b.1
  { output := .editsApplied
      { applied
        scheme := scheme.name
        snippetStartLine := (editRegions.head?.map fun r => r.1 - snippetContext + 1).getD 1
        snippet := buildSnippet newContent editRegions total scheme
        absolutePath := filePath
        warnings }
    newContent := some newContent
    editDetails := tracked.map (·.2) }

def applyEdits (content : Text) (ops : List HashlineOp) (filePath : Text)
    (scheme : AnchorScheme) : ApplyResult :=
  match ops with
  | [.write newContent] =>
    match detectAnchorPrefixInContent newContent with
    | some lineNum => failure (anchorContentError "write".toList newContent lineNum)
    | none =>
      { output := buildWriteResult newContent filePath scheme
        newContent := some newContent
        editDetails := [] }
  | ops =>
    let ls := splitLines content
    match resolveOps ls scheme ops.length 0 ops with
    | .error e => failure e
    | .ok resolved =>
      match checkOverlaps resolved with
      | some e => failure (overlapFailure ops.length e)
      | none => applyResolved ls resolved ops.length filePath scheme

end GrokBuild.Hashline
