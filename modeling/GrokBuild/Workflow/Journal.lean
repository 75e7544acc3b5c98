import GrokBuild.Lib.LineLog
import GrokBuild.Lib.Str

/-!
# Workflows: the journal

`journal.rs`: the results of a run in order, mirrored line by line in a file.
The JSON encoding of an entry is a codec; a write may stop after any number
of its bytes. The file is the regular file at the path of the journal, or
nothing.
-/

namespace GrokBuild.Workflow

open TextLines Str LineLog

/-- `serde_json::Value`. A number is kept as it is written. -/
inductive Json where
  | null
  | bool (b : Bool)
  | number (repr : Text)
  | string (s : Text)
  | array (items : List Json)
  | object (fields : List (Text × Json))

namespace Json

/-- `Value::get` with a key. -/
def get : Json → Text → Option Json
  | .object fields, key => (fields.find? fun f => f.1 == key).map (·.2)
  | _, _ => none

def asStr : Json → Option Text
  | .string s => some s
  | _ => none

end Json

def maxJournalBytes : Nat := 64 * 1024 * 1024

def maxHostCalls : Nat := 10000

def maxJournalEntries : Nat := maxHostCalls

def hostErrorKey : Text := "__xai_workflow_host_error".toList

structure JournalEntry where
  seq : Nat
  kind : Text
  reqHash : Text
  result : Json
  atMs : Nat

inductive JournalError where
  | io
  | parse (line : Nat)
  | unsafeRestore (limit : Nat) (reason : Text)
  | full (seq limit : Nat)
  | sequence (index expected actual : Nat)
  | divergence (seq : Nat) (kind : Text)
  deriving DecidableEq

/-- `Journal`; `path` says whether there is a file. -/
structure Journal where
  entries : List JournalEntry
  path : Bool
  bytes : Nat
  lastLineStart : Option Nat

/-- The file of a journal, if it exists. -/
abbrev Disk := Option Bytes

/-- How a write of a line goes: all of it, or an error behind this many
bytes. -/
inductive Write where
  | done
  | fails (written : Nat)
  deriving DecidableEq

/-- `append_line`: does it succeed, and what is on the disk then? -/
def appendLine (disk : Disk) (line : Bytes) : Write → Bool × Disk
  | .done => (true, some (disk.getD [] ++ line))
  | .fails written => (false, some (disk.getD [] ++ line.take written))

/-- `set_len`: a shorter file is filled up with zeros. -/
def setLen (n : Nat) (content : Bytes) : Bytes :=
  content.take n ++ List.replicate (n - content.length) 0

def validateSequence (entries : List JournalEntry) (entry : JournalEntry) :
    Except JournalError Unit :=
  if entry.seq ≠ entries.length then
    .error (.sequence entries.length entries.length entry.seq)
  else .ok ()

/-- `u8::is_ascii_whitespace` on all bytes. -/
def isBlank (line : Bytes) : Bool := line.all isAsciiWhitespace

/-- What `load` has read so far. -/
structure Loading where
  entries : List JournalEntry
  offset : Nat
  lineNumber : Nat
  lastLineStart : Option Nat

def Loading.start : Loading := ⟨[], 0, 0, none⟩

def tooManyEntries : JournalError :=
  .unsafeRestore maxJournalEntries "too many journal entries".toList

/-- An entry that was read at the offset. -/
def Loading.push (st : Loading) (entry : JournalEntry) : Except JournalError Loading :=
  if st.entries.length ≥ maxJournalEntries then .error tooManyEntries
  else match validateSequence st.entries entry with
    | .error e => .error e
    | .ok () =>
      .ok { st with entries := st.entries ++ [entry], lastLineStart := some st.offset }

/-- One terminated line in the loop of `load`. -/
def Loading.line (codec : Codec JournalEntry) (st : Loading) (line : Bytes) :
    Except JournalError Loading :=
  let next := fun (st' : Loading) =>
    { st' with offset := st.offset + line.length + 1, lineNumber := st.lineNumber + 1 }
  if isBlank line then .ok (next st)
  else match codec.decode line with
    | none => .error (.parse (st.lineNumber + 1))
    | some entry =>
      match st.push entry with
      | .error e => .error e
      | .ok st' => .ok (next st')

/-- The terminated lines one after another. -/
def Loading.lines (codec : Codec JournalEntry) : Loading → List Bytes → Except JournalError Loading
  | st, [] => .ok st
  | st, l :: ls =>
    match st.line codec l with
    | .error e => .error e
    | .ok st' => Loading.lines codec st' ls

namespace Journal

def new (path : Bool) : Journal := ⟨[], path, 0, none⟩

/-- The end of `load`: what follows the last newline is dropped when it is
blank or torn, and terminated when it is a whole entry. -/
def loadTail (codec : Codec JournalEntry) (disk : Disk) (st : Loading) (tail : Bytes) :
    Except JournalError Journal × Disk :=
  let total := (disk.getD []).length
  let truncated := some (setLen st.offset (disk.getD []))
  if tail = [] then (.ok ⟨st.entries, true, total, st.lastLineStart⟩, disk)
  else if isBlank tail then (.ok ⟨st.entries, true, st.offset, st.lastLineStart⟩, truncated)
  else match codec.decode tail with
    | some entry =>
      match st.push entry with
      | .error e => (.error e, disk)
      | .ok st' =>
        (.ok ⟨st'.entries, true, saturatingAdd total 1, st'.lastLineStart⟩,
          some (disk.getD [] ++ [newline]))
    | none => (.ok ⟨st.entries, true, st.offset, st.lastLineStart⟩, truncated)

/-- `Journal::load`, with the file as it leaves it. -/
def load (codec : Codec JournalEntry) (disk : Disk) : Except JournalError Journal × Disk :=
  let content := disk.getD []
  if content.length > maxJournalBytes then
    (.error (.unsafeRestore maxJournalBytes
      ("journal exceeds ".toList ++ decimal maxJournalBytes ++ " bytes".toList)), disk)
  else
    let (lines, tail) := splitLines content
    match Loading.start.lines codec lines with
    | .error e => (.error e, disk)
    | .ok st => loadTail codec disk st tail

def agentReservationCount (j : Journal) : Nat :=
  (j.entries.filter fun e => e.kind == "spawn_agent".toList).length

def covers (j : Journal) (seq : Nat) : Bool := seq < j.entries.length

def replay (j : Journal) (seq : Nat) (kind reqHash : Text) : Except JournalError (Option Json) :=
  match j.entries[seq]? with
  | none => .ok none
  | some entry =>
    if entry.seq ≠ seq ∨ entry.kind ≠ kind ∨ entry.reqHash ≠ reqHash then
      .error (.divergence seq kind)
    else .ok (some entry.result)

/-- `record`, at a time and with a write that goes one way or another. -/
def record (codec : Codec JournalEntry) (j : Journal) (seq : Nat) (kind reqHash : Text)
    (result : Json) (now : Nat) (disk : Disk) (write : Write) :
    Except JournalError Journal × Disk :=
  let entry := ⟨seq, kind, reqHash, result, now⟩
  match validateSequence j.entries entry with
  | .error e => (.error e, disk)
  | .ok () =>
    let line := codec.line entry
    if saturatingAdd j.bytes line.length > maxJournalBytes then
      (.error (.full seq maxJournalBytes), disk)
    else
      let recorded : Journal :=
        ⟨j.entries ++ [entry], j.path, saturatingAdd j.bytes line.length, some j.bytes⟩
      if j.path then
        match appendLine disk line write with
        | (true, disk) => (.ok recorded, disk)
        | (false, disk) => (.error .io, disk)
      else (.ok recorded, disk)

def pruneTrailingHostError (j : Journal) (failureDetail : Text) (disk : Disk) :
    Except JournalError (Bool × Journal) × Disk :=
  match j.entries.getLast? with
  | none => (.ok (false, j), disk)
  | some last =>
    match (last.result.get hostErrorKey).bind Json.asStr with
    | none => (.ok (false, j), disk)
    | some message =>
      if message = [] ∨ ¬ message <:+: failureDetail then (.ok (false, j), disk)
      else match j.lastLineStart with
        | none => (.error .io, disk)
        | some newLen =>
          let pruned : Journal := ⟨j.entries.dropLast, j.path, newLen, none⟩
          if j.path then
            match disk with
            | none => (.error .io, disk)
            | some content => (.ok (true, pruned), some (setLen newLen content))
          else (.ok (true, pruned), disk)

end Journal

end GrokBuild.Workflow
