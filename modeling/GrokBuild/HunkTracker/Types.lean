import Mathlib.Data.List.AList
import Mathlib.Data.Finset.Basic
import GrokBuild.Lib.Str

/-!
# Hunk tracker: data model

The types of `xai-hunk-tracker` (`types.rs`, `events.rs`, `commands.rs`,
`actor/state.rs`) and the content classification of `actor/file_utils.rs`.

Conventions of the embedding:

* texts are character lists, their size is the size of their UTF-8
  encoding;
* a path is the list of its components, so `join` is append and
  `strip_prefix` removes a leading list;
* `HunkId::new` draws from a counter kept in the actor: the ids it returns
  are exactly "fresh each time", and nothing else about a UUID is used;
* the `source` error inside `HunkActionError` and the reply channels of
  `HunkTrackerCommand` carry no logic and are left out.
-/

namespace GrokBuild.HunkTracker

open TextLines Str

/-! ## Paths -/

abbrev PathBuf := List String

/-- Paths are equal component by component. -/
instance : LawfulBEq PathBuf := List.instLawfulBEq

/-- `Path::strip_prefix`. -/
def stripPathPrefix (p base : PathBuf) : Option PathBuf :=
  if base.isPrefixOf p then some (p.drop base.length) else none

/-! ## Hunks -/

structure HunkId where
  val : Nat
  deriving DecidableEq, Repr

structure HunkLineInfo where
  oldStart : Nat
  oldCount : Nat
  newStart : Nat
  newCount : Nat
  deriving DecidableEq, Repr

inductive HunkSource where
  | agentEdit (promptIndex : Nat)
  | externalEditOnAgentFile
  | external
  deriving DecidableEq, Repr

namespace HunkSource

def isAgentEdit : HunkSource → Bool
  | agentEdit _ => true
  | _ => false

def isExternal : HunkSource → Bool
  | external => true
  | externalEditOnAgentFile => true
  | agentEdit _ => false

def promptIndex : HunkSource → Option Nat
  | agentEdit k => some k
  | _ => none

end HunkSource

structure Hunk where
  id : HunkId
  path : PathBuf
  lineInfo : HunkLineInfo
  source : HunkSource
  oldText : Option Text
  newText : Text
  patch : Option Text
  createdAt : Nat
  selected : Bool
  deriving DecidableEq, Repr

/-- `Hunk::file_created`: the whole text is new. -/
def Hunk.fileCreated (id : HunkId) (now : Nat) (path : PathBuf) (content : Text)
    (source : HunkSource) : Hunk where
  id := id
  path := path
  lineInfo :=
    { oldStart := 0, oldCount := 0, newStart := 1
      newCount := max (lines content).length 1 }
  source := source
  oldText := none
  newText := content
  patch := none
  createdAt := now
  selected := false

/-- `Hunk::file_deleted`: the whole text is gone. -/
def Hunk.fileDeleted (id : HunkId) (now : Nat) (path : PathBuf) (content : Text)
    (source : HunkSource) : Hunk where
  id := id
  path := path
  lineInfo :=
    { oldStart := 1, oldCount := max (lines content).length 1, newStart := 0
      newCount := 0 }
  source := source
  oldText := some content
  newText := []
  patch := none
  createdAt := now
  selected := false

inductive HunkAction where
  | accept
  | reject
  deriving DecidableEq, Repr

inductive HunkActionError where
  | hunkNotFound (id : HunkId)
  | writeError (path : PathBuf)
  | deleteError (path : PathBuf)
  | readError (path : PathBuf)
  deriving DecidableEq, Repr

inductive TrackingMode where
  | agentOnly
  | allDirty
  deriving DecidableEq, Repr

structure SessionStats where
  acceptedHunks : Nat := 0
  rejectedHunks : Nat := 0
  acceptedLinesAdded : Nat := 0
  acceptedLinesRemoved : Nat := 0
  rejectedLinesAdded : Nat := 0
  rejectedLinesRemoved : Nat := 0
  deriving DecidableEq, Repr

/-! ## Events -/

inductive HunkRemovalReason where
  | accepted
  | rejected
  | superseded
  deriving DecidableEq, Repr

inductive HunkEvent where
  | hunkAdded (path : PathBuf) (hunk : Hunk)
  | hunkRemoved (path : PathBuf) (hunkId : HunkId) (reason : HunkRemovalReason)
  | hunkMoved (path : PathBuf) (hunkId : HunkId) (newLineInfo : HunkLineInfo)
  | hunkContentChanged (path : PathBuf) (hunk : Hunk) (triggerSource : HunkSource)
      (prevLinesAdded prevLinesRemoved : Nat)
  | fileAdded (path : PathBuf) (isAgentFile : Bool)
  | fileRemoved (path : PathBuf)
  | baselineUpdated (path : PathBuf)
  deriving DecidableEq, Repr

/-! ## File contents -/

def maxTrackedTextBytes : Nat := 1024 * 1024

inductive FileContentState where
  | missing
  | binary (byteLen : Option Nat)
  | tooLarge (byteLen : Nat)
  | lfsPointer (byteLen : Nat)
  | symlink
  | full (text : Text)
  deriving DecidableEq, Repr

def FileContentState.isDiffable : FileContentState → Bool
  | full _ => true
  | _ => false

def lfsPointerPrefix : List UInt8 :=
  utf8Bytes "version https://git-lfs.github.com/spec/v1\n".toList

def isLfsPointer (bytes : List UInt8) : Bool :=
  decide (bytes.length < 1024) && lfsPointerPrefix.isPrefixOf bytes

/-- A NUL among the first 8000 bytes. -/
def isBinary (bytes : List UInt8) : Bool := (bytes.take 8000).contains 0

def decodeUtf8 (bytes : List UInt8) : Option Text :=
  (String.fromUTF8? ⟨bytes.toArray⟩).map String.toList

def classifyBytes (bytes : List UInt8) : FileContentState :=
  if bytes.length > maxTrackedTextBytes then .tooLarge bytes.length
  else if isLfsPointer bytes then .lfsPointer bytes.length
  else if isBinary bytes then .binary (some bytes.length)
  else match decodeUtf8 bytes with
    | some s => .full s
    | none => .binary (some bytes.length)

def classifyString (s : Text) : FileContentState :=
  if byteLen s > maxTrackedTextBytes then .tooLarge (byteLen s)
  else if isLfsPointer (utf8Bytes s) then .lfsPointer (byteLen s)
  else if isBinary (utf8Bytes s) then .binary (some (byteLen s))
  else .full s

/-- What a path is on disk, as `lstat` and a read see it. `unreadable`
stands for an entry that cannot be opened or read, such as a directory. -/
inductive DiskEntry where
  | absent
  | symlink
  | unreadable (byteLen : Nat)
  | file (bytes : List UInt8)
  deriving DecidableEq

/-- `read_file_bounded`. The two content checks look at the first 8000
bytes only. -/
def readFileBounded : DiskEntry → FileContentState
  | .absent => .missing
  | .symlink => .symlink
  | .unreadable len => if len > maxTrackedTextBytes then .tooLarge len else .missing
  | .file bytes =>
    if bytes.length > maxTrackedTextBytes then .tooLarge bytes.length
    else if isLfsPointer (bytes.take 8000) then .lfsPointer bytes.length
    else if isBinary (bytes.take 8000) then .binary (some bytes.length)
    else match decodeUtf8 bytes with
      | some s => .full s
      | none => .binary (some bytes.length)

/-- What the tree of the HEAD commit holds at a path. -/
inductive HeadEntry where
  | absent
  | link
  | blob (bytes : List UInt8)
  deriving DecidableEq

def HeadEntry.content : HeadEntry → FileContentState
  | .absent => .missing
  | .link => .symlink
  | .blob bytes => classifyBytes bytes

def stripSingleTrailingNewline (s : Text) : Text :=
  if endsNl s then stripCr s.dropLast else s

/-! ## Actor state -/

inductive GitRepoState where
  | unknown
  | notARepo
  | discovered
  deriving DecidableEq, Repr

structure RepoSyncState where
  headOid : Option String := none
  indexMtime : Option Nat := none
  deriving DecidableEq, Repr

structure FileHunkState where
  baseline : FileContentState
  currentContent : FileContentState
  hunks : List Hunk
  isAgentFile : Bool
  baselineAccepted : Bool
  deriving DecidableEq, Repr

/-- `HashMap<PathBuf, FileHunkState>`. -/
abbrev FileStates := AList (fun _ : PathBuf => FileHunkState)

/-- `HashMap<usize, HashSet<HunkId>>`: no reader tells an absent set from an
empty one. -/
abbrev TurnIndex := Nat → Finset HunkId

/-- A `FileHunkStateSnapshot` has the fields of the file state it copies. -/
abbrev FileHunkStateSnapshot := FileHunkState

structure HunkTrackerSnapshot where
  fileStates : FileStates
  turnIndex : TurnIndex
  sessionStats : SessionStats

/-- A completed write to, or removal from, the file system. -/
inductive FileEffect where
  | write (path : PathBuf) (content : Text)
  | remove (path : PathBuf)
  deriving DecidableEq, Repr

/-- One call of `recompute_hunks`: the hunks it found, those of the new
diff, those it stored, the events sent before it and the events it sent. -/
structure Recomputation where
  oldHunks : List Hunk
  table : List Hunk
  newHunks : List Hunk
  before : List HunkEvent
  emitted : List HunkEvent
  deriving DecidableEq, Repr

/-- `HunkTrackerActor`. The last five fields are what the outside world
sees of it: the events sent, the files written, the snapshots handed out,
the calls of `recompute_hunks`, and the number of ids `HunkId::new` has
issued. -/
structure Actor where
  workingDir : PathBuf
  fileStates : FileStates
  turnIndex : TurnIndex
  gitDirtyCache : List PathBuf
  gitStagedCache : List PathBuf
  gitRepoState : GitRepoState
  repoSyncState : RepoSyncState
  mode : TrackingMode
  sessionStats : SessionStats
  events : List HunkEvent
  effects : List FileEffect
  snapshots : List HunkTrackerSnapshot
  recomputed : List Recomputation
  nextId : Nat

/-! ## Commands -/

inductive HunkSourceFilter where
  | agent
  | external
  deriving DecidableEq, Repr

/-- The commands that only read the actor. -/
inductive Query where
  | getAllHunks
  | getHunksForPath (path : PathBuf)
  | getFileHunkData (path : PathBuf)
  | getHunksBySource (source : HunkSourceFilter)
  | getHunk (hunkId : HunkId)
  | isAgentFile (path : PathBuf)
  | getAllTrackedPaths
  | getStagedFiles
  | getAllFileContents
  | getSessionSummary
  | getTurnHunks (promptIndex : Nat)
  | snapshotState
  | snapshotTurnDelta (promptIndex : Nat)
  deriving DecidableEq, Repr

inductive HunkTrackerCommand where
  | recordAgentWrite (path : PathBuf) (content : Text) (promptIndex : Nat)
      (previousContent : Option Text)
  | handleFileChange (path : PathBuf)
  | handleFileDeleted (path : PathBuf)
  | refreshGitDirtyCache
  | resetBaseline (path : PathBuf)
  | setMode (mode : TrackingMode)
  | hunkAction (hunkId : HunkId) (action : HunkAction)
  | fileAction (path : PathBuf) (action : HunkAction)
  | allAction (action : HunkAction)
  | turnAction (promptIndex : Nat) (action : HunkAction)
  | query (q : Query)
  | resetStats
  | refreshAllBaselines
  | restoreState (snapshot : HunkTrackerSnapshot)

/-! ## The outside world -/

/-- What one command reads from outside the actor: the disk, the git
repository, the outcome of its writes, the iteration order of its hash
maps, the clock. It may be different for every command. -/
structure Env where
  disk : PathBuf → DiskEntry
  pathExists : PathBuf → Bool
  isDir : PathBuf → Bool
  /-- `gix::discover` finds a repository that contains the working
  directory. -/
  isRepo : Bool
  head : PathBuf → HeadEntry
  /-- Dirty and staged paths, relative to the working directory, of a
  status scan with the given scope. -/
  gitStatus : Option (List PathBuf) → List PathBuf × List PathBuf
  syncState : RepoSyncState
  writeOk : PathBuf → Bool
  removeOk : PathBuf → Bool
  order : List PathBuf → List PathBuf
  order_perm : ∀ ps, (order ps).Perm ps
  /-- The diff of these two texts ran into `DIFF_TIMEOUT`. -/
  timedOut : Text → Text → Bool
  now : Nat

/-- A quiet world: no file, no repository, every write succeeds. -/
def Env.quiet : Env where
  disk := fun _ => .absent
  pathExists := fun _ => false
  isDir := fun _ => false
  isRepo := false
  head := fun _ => .absent
  gitStatus := fun _ => ([], [])
  syncState := {}
  writeOk := fun _ => true
  removeOk := fun _ => true
  order := id
  order_perm := fun _ => .refl _
  timedOut := fun _ _ => false
  now := 0

end GrokBuild.HunkTracker
