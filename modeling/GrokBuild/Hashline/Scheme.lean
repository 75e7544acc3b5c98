import GrokBuild.Lib.Str

/-!
# Hashline anchors

The line hashes of `util/hash.rs` and the anchor schemes of
`grok_build_hashline/scheme.rs` and `anchor.rs`. A file is a list of lines
without their terminators (`splitLines`); a scheme gives each line an
anchor `LINE:LOCAL` or `LINE:LOCAL:CONTEXT` and later decides whether an
anchor still holds.

Conventions of the embedding:

* the trait object `&dyn AnchorScheme` is the sum of its three
  implementations;
* the constructors panic outside their parameter ranges, so the parameters
  are subtypes;
* a slice access `xs[i]` is `xs[i]?`, with the bounds check of the source
  in front of it or, for the precomputed chunk fingerprints, a proof in
  `Anchors` that the entry exists.
-/

namespace GrokBuild.Hashline

open TextLines Str

/-! ## Hashes (`util/hash.rs`) -/

def fnvOffset : UInt32 := 2166136261

def fnvPrime : UInt32 := 16777619

/-- One round of FNV-1a: `h ^= x`, then a wrapping multiplication. -/
def mix (h x : UInt32) : UInt32 := (h ^^^ x) * fnvPrime

def fnv1a32 (data : List UInt8) : UInt32 :=
  data.foldl (fun h b => mix h b.toUInt32) fnvOffset

/-- The loop body of `line_hash`: a run of white space counts as one space.
The flag is `prev_ws`. -/
def lineHashStep (st : UInt32 × Bool) (b : UInt8) : UInt32 × Bool :=
  if isAsciiWhitespace b then
    if st.2 then st else (mix st.1 0x20, true)
  else (mix st.1 b.toUInt32, false)

def lineHash (line : Text) : UInt32 :=
  ((utf8Bytes (trim line)).foldl lineHashStep (fnvOffset, false)).1

/-- `len` lowercase letters, each from its own byte of the hash. -/
def encodeHash (hash : UInt32) (len : Nat) : Text :=
  (List.range len).map fun i =>
    Char.ofNat (((hash >>> UInt32.ofNat (i * 8)) % 26).toNat + 'a'.toNat)

/-! ## Anchors -/

/-- The number of letters of a hash component. -/
abbrev HashLen := { n : Nat // 0 < n ∧ n ≤ 4 }

/-- An anchor of one line, with a 1-based line number. -/
structure Anchor where
  line : Nat
  localHash : Text
  context : Option Text
  deriving DecidableEq, Repr

def renderAnchor (line : Nat) (localHash : Text) (context : Option Text) : Text :=
  match context with
  | some ctx => decimal line ++ ':' :: (localHash ++ ':' :: ctx)
  | none => decimal line ++ ':' :: localHash

def Anchor.render (a : Anchor) : Text := renderAnchor a.line a.localHash a.context

structure ParsedAnchor where
  line : Nat
  localHash : Text
  context : Option Text
  deriving DecidableEq, Repr

def ParsedAnchor.render (a : ParsedAnchor) : Text := renderAnchor a.line a.localHash a.context

def ParsedAnchor.parse (s : Text) : Option ParsedAnchor :=
  match splitN 3 ':' s with
  | lineStr :: localHash :: rest =>
    if lineStr = [] ∨ localHash = [] then none
    else
      match parseUsize lineStr with
      | none => none
      | some line =>
        if line = 0 then none
        else if localHash.all Char.isLower = false then none
        else
          match rest.head? with
          | none => some { line, localHash, context := none }
          | some ctx =>
            if ctx = [] ∨ ctx.all Char.isLower = false then none
            else some { line, localHash, context := some ctx }
  | _ => none

inductive ValidationResult where
  | valid
  | stale
  | outOfRange
  deriving DecidableEq, Repr

inductive ShiftResult where
  | found (newLine : Nat)
  | ambiguous (candidates : List Nat)
  | notFound
  deriving DecidableEq, Repr

def defaultSearchRadius : Nat := 15

/-- `anchor.line.checked_sub(1).unwrap_or(usize::MAX)`. -/
def ParsedAnchor.idx (a : ParsedAnchor) : Nat :=
  if a.line = 0 then usizeMax else a.line - 1

/-! ## Candidate A: content only -/

structure ContentOnly where
  hashLen : HashLen

namespace ContentOnly

def generateAnchors (s : ContentOnly) (lines : List Text) : List Anchor :=
  lines.mapIdx fun i line =>
    { line := i + 1, localHash := encodeHash (lineHash line) s.hashLen, context := none }

def validate (s : ContentOnly) (anchor : ParsedAnchor) (lines : List Text) : ValidationResult :=
  match lines[anchor.idx]? with
  | none => .outOfRange
  | some line =>
    if anchor.localHash = encodeHash (lineHash line) s.hashLen then .valid else .stale

end ContentOnly

/-! ## Candidate B: chunk fingerprints -/

structure ChunkFingerprint where
  hashLen : HashLen
  chunkSize : { n : Nat // 0 < n }

/-- `&lines[start..end]`. -/
def slice (lines : List Text) (start stop : Nat) : List Text := (lines.take stop).drop start

/-- The loops that mix the hashes of consecutive lines into one. -/
def combine (seed : UInt32) (lines : List Text) : UInt32 :=
  lines.foldl (fun h line => mix h (lineHash line)) seed

def chunkSeed : UInt32 := fnv1a32 (utf8Bytes "chunk".toList)

namespace ChunkFingerprint

/-- `chunk_fingerprint`: the fingerprint of the chunk that holds `lineIdx`. -/
def chunkFingerprint (s : ChunkFingerprint) (lines : List Text) (lineIdx : Nat) : Text :=
  let chunkStart : Nat := lineIdx / s.chunkSize * s.chunkSize
  let chunkEnd : Nat := min (chunkStart + s.chunkSize) lines.length
  encodeHash (combine chunkSeed (slice lines chunkStart chunkEnd)) s.hashLen

/-- The fingerprints that `generate_anchors` computes up front. -/
def chunkFps (s : ChunkFingerprint) (lines : List Text) : List Text :=
  let numChunks : Nat := (lines.length + s.chunkSize - 1) / s.chunkSize
  (List.range numChunks).map fun chunkIdx =>
    let start : Nat := chunkIdx * s.chunkSize
    let stop : Nat := min (start + s.chunkSize) lines.length
    encodeHash (combine chunkSeed (slice lines start stop)) s.hashLen

def generateAnchors (s : ChunkFingerprint) (lines : List Text) : List Anchor :=
  let fps := s.chunkFps lines
  lines.mapIdx fun i line =>
    { line := i + 1
      localHash := encodeHash (lineHash line) s.hashLen
      context := fps[i / s.chunkSize]? }

def validate (s : ChunkFingerprint) (anchor : ParsedAnchor) (lines : List Text) :
    ValidationResult :=
  match lines[anchor.idx]? with
  | none => .outOfRange
  | some line =>
    if anchor.localHash ≠ encodeHash (lineHash line) s.hashLen then .stale
    else
      match anchor.context with
      | none => .stale
      | some ctx => if ctx ≠ s.chunkFingerprint lines anchor.idx then .stale else .valid

end ChunkFingerprint

/-! ## Candidate C: checkpoint chains -/

structure CheckpointChain where
  hashLen : HashLen
  checkpointInterval : { n : Nat // 0 < n }

def ckptSeed : UInt32 := fnv1a32 (utf8Bytes "ckpt".toList)

namespace CheckpointChain

/-- `checkpoint_fingerprint`: the chain from the checkpoint before `lineIdx`
up to and including that line. -/
def checkpointFingerprint (s : CheckpointChain) (lines : List Text) (lineIdx : Nat) : Text :=
  let checkpointStart : Nat := lineIdx / s.checkpointInterval * s.checkpointInterval
  encodeHash (combine ckptSeed (slice lines checkpointStart (lineIdx + 1))) s.hashLen

/-- The loop of `generate_anchors`, from line `i` on with the running chain. -/
def generateLoop (s : CheckpointChain) : Nat → UInt32 → List Text → List Anchor
  | _, _, [] => []
  | i, chain, line :: rest =>
    let chain := if i % s.checkpointInterval = 0 then ckptSeed else chain
    let chain := mix chain (lineHash line)
    { line := i + 1
      localHash := encodeHash (lineHash line) s.hashLen
      context := some (encodeHash chain s.hashLen) } :: generateLoop s (i + 1) chain rest

def generateAnchors (s : CheckpointChain) (lines : List Text) : List Anchor :=
  s.generateLoop 0 ckptSeed lines

def validate (s : CheckpointChain) (anchor : ParsedAnchor) (lines : List Text) :
    ValidationResult :=
  match lines[anchor.idx]? with
  | none => .outOfRange
  | some line =>
    if anchor.localHash ≠ encodeHash (lineHash line) s.hashLen then .stale
    else
      match anchor.context with
      | none => .stale
      | some ctx => if ctx ≠ s.checkpointFingerprint lines anchor.idx then .stale else .valid

end CheckpointChain

/-! ## The trait -/

inductive AnchorScheme where
  | contentOnly (s : ContentOnly)
  | chunk (s : ChunkFingerprint)
  | checkpoint (s : CheckpointChain)

namespace AnchorScheme

def name : AnchorScheme → Text
  | contentOnly _ => "content_only_v1".toList
  | chunk _ => "chunk_v1".toList
  | checkpoint _ => "checkpoint_v1".toList

def hashLen : AnchorScheme → HashLen
  | contentOnly s => s.hashLen
  | chunk s => s.hashLen
  | checkpoint s => s.hashLen

def generateAnchors : AnchorScheme → List Text → List Anchor
  | contentOnly s => s.generateAnchors
  | chunk s => s.generateAnchors
  | checkpoint s => s.generateAnchors

def validate : AnchorScheme → ParsedAnchor → List Text → ValidationResult
  | contentOnly s => s.validate
  | chunk s => s.validate
  | checkpoint s => s.validate

/-- Whether line `idx` of the file passes for a shifted `anchor`: the loop
body of `find_shifted_generic`. -/
def isCandidate (scheme : AnchorScheme) (anchor : ParsedAnchor) (lines : List Text)
    (origIdx idx : Nat) : Bool :=
  if idx = origIdx then false
  else
    match lines[idx]? with
    | none => false
    | some line =>
      let localHash := encodeHash (lineHash line) scheme.hashLen
      if localHash ≠ anchor.localHash then false
      else if anchor.context.isSome then
        scheme.validate { line := idx + 1, localHash, context := anchor.context } lines = .valid
      else true

/-- `find_shifted_generic`, which every scheme uses for `find_shifted`. -/
def findShifted (scheme : AnchorScheme) (anchor : ParsedAnchor) (lines : List Text)
    (searchRadius : Nat) : ShiftResult :=
  let origIdx := anchor.line - 1
  let start := origIdx - searchRadius
  let stop := min (origIdx + searchRadius + 1) lines.length
  let candidates := ((List.range' start (stop - start)).filter
    (scheme.isCandidate anchor lines origIdx)).map (· + 1)
  match candidates with
  | [] => .notFound
  | [newLine] => .found newLine
  | _ => .ambiguous candidates

end AnchorScheme

/-! ## Lines of a file (`anchor.rs`) -/

/-- `split_lines`: the lines of the text, with one more empty line when it
ends with a newline, and one empty line for the empty text. -/
def splitLines (content : Text) : List Text :=
  if content = [] then [[]]
  else if endsNl content then lines content ++ [[]]
  else lines content

end GrokBuild.Hashline
