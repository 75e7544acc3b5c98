import GrokBuild.Lib.WholeLines
import GrokBuild.Lib.LineLog

/-!
# Delimiters

The streaming normalization of math delimiters, on bytes: every delimiter is
ASCII, and none is a byte of a longer character. An index into the buffer becomes
the list of the bytes from there on; what a scan finds is counted from where it
begins. One pass through the body of the loop of `process` is a `Step`: it holds
the rest of the buffer back or goes on with less of it.
-/

namespace GrokBuild.Markdown

open LineLog (Bytes)
open WholeLines

def ascii (s : String) : Bytes := s.toList.map Char.toUInt8

def lf : UInt8 := 10

def cr : UInt8 := 13

def space : UInt8 := 32

def tab : UInt8 := 9

def backslash : UInt8 := 92

def backtick : UInt8 := 96

def tilde : UInt8 := 126

def dollar : UInt8 := 36

def maxMathSourceLen : Nat := 4096

def envBegin : Bytes := ascii "\\begin{equation}"

def envBeginStarred : Bytes := ascii "\\begin{equation*}"

def envEnd : Bytes := ascii "\\end{equation}"

def envEndStarred : Bytes := ascii "\\end{equation*}"

def envTokens : List Bytes := [envBegin, envBeginStarred, envEnd, envEndStarred]

inductive State where
  | normal
  /-- Inside an inline code span opened by a run of `run` backticks. -/
  | inlineCode (run : Nat)
  /-- Inside a fenced code block opened by `len` copies of `ch`. -/
  | fenced (ch : UInt8) (len : Nat)
deriving DecidableEq, Repr

/-- The state, and whether the next byte begins a new line. -/
structure Mode where
  state : State
  atLineStart : Bool
deriving DecidableEq, Repr

def countRun (ch : UInt8) (buf : Bytes) : Nat := (buf.takeWhile (· == ch)).length

/-! ## Fences -/

inductive FenceScan where
  | found (ch : UInt8) (len stop : Nat)
  | no
  | needMore
deriving DecidableEq, Repr

/-- Up to four leading spaces. -/
def leadingSpaces (buf : Bytes) : Nat := countRun space (buf.take 4)

def scanFenceOpen (finalFlush : Bool) (buf : Bytes) : FenceScan :=
  let spaces := leadingSpaces buf
  if 4 ≤ spaces then .no
  else match buf.drop spaces with
    | [] => if finalFlush then .no else .needMore
    | ch :: rest =>
      if ch ≠ backtick ∧ ch ≠ tilde then .no
      else
        let run := countRun ch (ch :: rest)
        if run = (ch :: rest).length ∧ finalFlush = false then .needMore
        else if run < 3 then .no
        else .found ch run (spaces + run)

def isBlank (b : UInt8) : Bool := b == space || b == tab

def scanFenceClose (ch : UInt8) (len : Nat) (finalFlush : Bool) (buf : Bytes) : FenceScan :=
  let spaces := leadingSpaces buf
  if 4 ≤ spaces then .no
  else match buf.drop spaces with
    | [] => if finalFlush then .no else .needMore
    | b :: rest =>
      if b ≠ ch then .no
      else
        let run := countRun ch (b :: rest)
        if run = (b :: rest).length ∧ finalFlush = false then .needMore
        else if run < len then .no
        -- only blanks may follow to the end of the line
        else match ((b :: rest).drop run).dropWhile isBlank with
          | [] => if finalFlush then .found ch run (spaces + run) else .needMore
          | e :: _ => if e = lf then .found ch run (spaces + run) else .no

/-! ## Backslashes -/

inductive EnvScan where
  | convert (len : Nat)
  | no
  | needMore
deriving DecidableEq, Repr

/-- The longest of the tokens that the rest begins with, and whether more input could
make it begin with another. -/
def matchTokens (tokens : List Bytes) (rest : Bytes) : Option Nat × Bool :=
  (((tokens.filter (·.isPrefixOf rest)).map List.length).max?,
    tokens.any fun tok => decide (rest.length < tok.length) && rest.isPrefixOf tok)

def matchEnv (finalFlush : Bool) (rest : Bytes) : EnvScan :=
  match matchTokens envTokens rest with
  | (some len, _) => .convert len
  | (none, couldExtend) => if couldExtend && !finalFlush then .needMore else .no

/-- `Bs`. -/
inductive Backslash where
  | convert (canonical : Bytes) (len : Nat)
  | inlineOpen
  | displayOpen (len : Nat)
  | literal (len : Nat)
  | needMore
deriving DecidableEq, Repr

def classifyBackslash (finalFlush : Bool) (buf : Bytes) : Backslash :=
  match buf.tail with
  | [] => if finalFlush then .literal 1 else .needMore
  | b :: _ =>
    if b = backslash then .literal 2
    else if b = '('.toUInt8 then .inlineOpen
    else if b = ')'.toUInt8 then .convert [dollar] 2
    else if b = '['.toUInt8 then .displayOpen 2
    else if b = ']'.toUInt8 then .convert [dollar, dollar] 2
    else if b = 'b'.toUInt8 ∨ b = 'e'.toUInt8 then
      match matchEnv finalFlush buf with
      | .convert len => if b = 'b'.toUInt8 then .displayOpen len else .convert [dollar, dollar] len
      | .needMore => .needMore
      | .no => .literal 1
    else .literal 1

/-! ## Closes -/

inductive InlineClose where
  | found (close : Nat)
  | unmatched
  | needMore
deriving DecidableEq, Repr

/-- The loop of `find_inline_close`, `k` bytes behind the opener. -/
def inlineCloseFrom (finalFlush : Bool) : Nat → Bytes → InlineClose
  | _, [] => if finalFlush then .unmatched else .needMore
  | k, c :: rest =>
    if maxMathSourceLen < k then .unmatched
    else if c = backslash then
      match rest with
      | [] => if finalFlush then .unmatched else .needMore
      | d :: rest => if d = ')'.toUInt8 then .found k else inlineCloseFrom finalFlush (k + 2) rest
    else inlineCloseFrom finalFlush (k + 1) rest

def findInlineClose (finalFlush : Bool) (content : Bytes) : InlineClose :=
  inlineCloseFrom finalFlush 0 content

inductive DisplayClose where
  | found (close closeLen : Nat)
  | unmatched
  | needMore
deriving DecidableEq, Repr

/-- The loop of `find_display_close`, `k` bytes into the content. -/
def displayCloseFrom (finalFlush : Bool) : Nat → Bytes → DisplayClose
  | _, [] => if finalFlush then .unmatched else .needMore
  | k, c :: rest =>
    if maxMathSourceLen < k then .unmatched
    else if c = backslash then
      match rest with
      | [] => if finalFlush then .unmatched else .needMore
      | d :: rest =>
        if d = ']'.toUInt8 then .found k 2
        else if d = 'e'.toUInt8 then
          match matchTokens [envEnd, envEndStarred] (c :: d :: rest) with
          | (some closeLen, _) => .found k closeLen
          | (none, couldExtend) =>
            if couldExtend && !finalFlush then .needMore
            else displayCloseFrom finalFlush (k + 2) rest
        else displayCloseFrom finalFlush (k + 2) rest
    else if c = dollar then
      match rest with
      | [] => if finalFlush then .unmatched else .needMore
      | d :: _ => if d = dollar then .found k 2 else displayCloseFrom finalFlush (k + 1) rest
    else if c = lf then
      -- a blank line or a `>` in front of the next one gives the span up
      match rest.dropWhile isBlank with
      | [] => if finalFlush then .unmatched else .needMore
      | d :: _ =>
        if d = lf ∨ d = '>'.toUInt8 then .unmatched else displayCloseFrom finalFlush (k + 1) rest
    else displayCloseFrom finalFlush (k + 1) rest

def findDisplayClose (finalFlush : Bool) (content : Bytes) : DisplayClose :=
  displayCloseFrom finalFlush 0 content

/-! ## Spans -/

def trimMatches (p : UInt8 → Bool) (s : Bytes) : Bytes :=
  ((s.dropWhile p).reverse.dropWhile p).reverse

def stripLineEnd (line : Bytes) : Bytes :=
  if line.getLast? = some lf then
    if line.dropLast.getLast? = some cr then line.dropLast.dropLast else line.dropLast
  else line

def lines (text : Bytes) : List Bytes := (splitInclusive lf text).map stripLineEnd

/-- What `push_joined_lines` pushes. -/
def joinedLines (text : Bytes) : Bytes :=
  if lf ∉ text then text
  else [space].intercalate
    (((lines text).map (trimMatches fun b => b == space || b == tab || b == cr)).filter (· ≠ []))

/-- What `emit_display_span` pushes. -/
def displaySpan (interior : Bytes) : Bytes :=
  [dollar, dollar] ++ joinedLines interior ++ [dollar, dollar]

/-- `' ' | '\t'..='\r'`. -/
def isFlanking (b : UInt8) : Bool := b == space || (tab ≤ b && b ≤ cr)

/-! ## Steps -/

inductive Step where
  /-- The loop ends; the rest is held back. -/
  | hold (out rest : Bytes)
  | go (out rest : Bytes) (mode : Mode)
deriving DecidableEq, Repr

/-- A display span whose opener has `len` bytes. -/
def displayStep (finalFlush : Bool) (len : Nat) (buf : Bytes) : Step :=
  match findDisplayClose finalFlush (buf.drop len) with
  | .found close closeLen =>
    .go (displaySpan ((buf.drop len).take close)) (buf.drop (len + close + closeLen)) ⟨.normal, false⟩
  | .unmatched => .go [dollar, dollar] (buf.drop len) ⟨.normal, false⟩
  | .needMore => .hold [] buf

def inlineStep (finalFlush : Bool) (buf : Bytes) : Step :=
  match findInlineClose finalFlush (buf.drop 2) with
  | .found close =>
    let inner := trimMatches isFlanking ((buf.drop 2).take close)
    if inner = [] then .go [dollar] (buf.drop 2) ⟨.normal, false⟩
    else .go ([dollar] ++ joinedLines inner ++ [dollar]) (buf.drop (2 + close + 2)) ⟨.normal, false⟩
  | .unmatched => .go [dollar] (buf.drop 2) ⟨.normal, false⟩
  | .needMore => .hold [] buf

def backslashStep (finalFlush : Bool) (buf : Bytes) : Step :=
  match classifyBackslash finalFlush buf with
  | .needMore => .hold [] buf
  | .inlineOpen => inlineStep finalFlush buf
  | .displayOpen len => displayStep finalFlush len buf
  | .convert canonical len => .go canonical (buf.drop len) ⟨.normal, false⟩
  | .literal len => .go (buf.take len) (buf.drop len) ⟨.normal, false⟩

def dollarStep (finalFlush : Bool) (buf : Bytes) : Step :=
  let run := countRun dollar buf
  if run = 1 ∧ buf.length = 1 ∧ finalFlush = false then .hold [] buf
  else if 2 ≤ run then displayStep finalFlush 2 buf
  else .go [dollar] (buf.drop 1) ⟨.normal, false⟩

/-- Bytes that are copied in a run. -/
def ordinary (b : UInt8) : Bool := !(b == lf || b == backtick || b == backslash || b == dollar)

def byteStep (finalFlush : Bool) (buf : Bytes) : Step :=
  match buf with
  | [] => .hold [] []
  | b :: rest =>
    if b = lf then .go [lf] rest ⟨.normal, true⟩
    else if b = backtick then
      let run := countRun backtick buf
      if run = buf.length ∧ finalFlush = false then .hold [] buf
      else .go (buf.take run) (buf.drop run) ⟨.inlineCode run, false⟩
    else if b = backslash then backslashStep finalFlush buf
    else if b = dollar then dollarStep finalFlush buf
    else .go (buf.takeWhile ordinary) (buf.dropWhile ordinary) ⟨.normal, false⟩

/-- In `State::Normal`. -/
def normalStep (finalFlush atLineStart : Bool) (buf : Bytes) : Step :=
  if atLineStart then
    match scanFenceOpen finalFlush buf with
    | .needMore => .hold [] buf
    | .found ch len stop => .go (buf.take stop) (buf.drop stop) ⟨.fenced ch len, false⟩
    | .no => byteStep finalFlush buf
  else byteStep finalFlush buf

inductive CodeScan where
  | newline (stop : Nat)
  | closed (stop : Nat)
  | held (stop : Nat)
  | eof
deriving DecidableEq, Repr

/-- The inner loop of `State::InlineCode`, with the bytes of a backtick run that are
still to be skipped. -/
def codeFrom (finalFlush : Bool) (run : Nat) : Nat → Nat → Bytes → CodeScan
  | _, _, [] => .eof
  | skip + 1, k, _ :: rest => codeFrom finalFlush run skip (k + 1) rest
  | 0, k, b :: rest =>
    if b = lf then .newline (k + 1)
    else if b = backtick then
      let r := countRun backtick (b :: rest)
      if r = (b :: rest).length ∧ finalFlush = false then .held k
      else if r = run then .closed (k + r)
      else codeFrom finalFlush run (r - 1) (k + 1) rest
    else codeFrom finalFlush run 0 (k + 1) rest

/-- In `State::InlineCode`. -/
def codeStep (finalFlush : Bool) (run : Nat) (atLineStart : Bool) (buf : Bytes) : Step :=
  match codeFrom finalFlush run 0 0 buf with
  | .newline stop => .go (buf.take stop) (buf.drop stop) ⟨.normal, true⟩
  | .closed stop => .go (buf.take stop) (buf.drop stop) ⟨.normal, false⟩
  | .held stop => .hold (buf.take stop) (buf.drop stop)
  | .eof => .go buf [] ⟨.inlineCode run, atLineStart⟩

/-- The rest of a line, with its newline. -/
def lineLength (buf : Bytes) : Nat :=
  let k := (buf.takeWhile (· != lf)).length
  if k < buf.length then k + 1 else k

def contentStep (ch : UInt8) (len : Nat) (buf : Bytes) : Step :=
  .go (buf.take (lineLength buf)) (buf.drop (lineLength buf)) ⟨.fenced ch len, decide (lf ∈ buf)⟩

/-- In `State::Fenced`. -/
def fencedStep (finalFlush : Bool) (ch : UInt8) (len : Nat) (atLineStart : Bool) (buf : Bytes) : Step :=
  if atLineStart then
    match scanFenceClose ch len finalFlush buf with
    | .needMore => .hold [] buf
    | .found _ _ stop => .go (buf.take stop) (buf.drop stop) ⟨.normal, false⟩
    | .no => contentStep ch len buf
  else contentStep ch len buf

def step (finalFlush : Bool) (mode : Mode) (buf : Bytes) : Step :=
  match mode.state with
  | .normal => normalStep finalFlush mode.atLineStart buf
  | .inlineCode run => codeStep finalFlush run mode.atLineStart buf
  | .fenced ch len => fencedStep finalFlush ch len mode.atLineStart buf

/-! ## The loop -/

/-- What was emitted, what is held back, and the mode. -/
structure Processed where
  out : Bytes
  rest : Bytes
  mode : Mode
deriving DecidableEq, Repr

/-- The loop of `process`; every step takes a byte. -/
def processFrom (finalFlush : Bool) : Nat → Mode → Bytes → Processed
  | 0, mode, buf => ⟨[], buf, mode⟩
  | _ + 1, mode, [] => ⟨[], [], mode⟩
  | n + 1, mode, b :: buf =>
    match step finalFlush mode (b :: buf) with
    | .hold out rest => ⟨out, rest, mode⟩
    | .go out rest mode =>
      let later := processFrom finalFlush n mode rest
      { later with out := out ++ later.out }

def process (finalFlush : Bool) (mode : Mode) (buf : Bytes) : Processed :=
  processFrom finalFlush buf.length mode buf

structure LatexDelimiterNormalizer where
  mode : Mode
  /-- Raw bytes held back from a previous push. -/
  pending : Bytes
deriving DecidableEq, Repr

namespace LatexDelimiterNormalizer

def new : LatexDelimiterNormalizer := ⟨⟨.normal, true⟩, []⟩

def push (nz : LatexDelimiterNormalizer) (chunk : Bytes) : Bytes × LatexDelimiterNormalizer :=
  if chunk = [] then ([], nz)
  else
    let processed := process false nz.mode (nz.pending ++ chunk)
    (processed.out, ⟨processed.mode, processed.rest⟩)

def finish (nz : LatexDelimiterNormalizer) : Bytes × LatexDelimiterNormalizer :=
  if nz.pending = [] then ([], nz)
  else
    let processed := process true nz.mode nz.pending
    (processed.out, ⟨processed.mode, []⟩)

end LatexDelimiterNormalizer

/-- One-shot normalization. -/
def normalizeLatexDelimiters (s : Bytes) : Bytes :=
  let (out, nz) := LatexDelimiterNormalizer.new.push s
  out ++ nz.finish.1

example : normalizeLatexDelimiters (ascii "a \\( x \\) `\\(y\\)`") = ascii "a $x$ `\\(y\\)`" := by
  decide +kernel

example : normalizeLatexDelimiters (ascii "\\[\na\n=\nb\n\\]\n```\n$$\n```\n") =
    ascii "$$a = b$$\n```\n$$\n```\n" := by
  decide +kernel

end GrokBuild.Markdown
