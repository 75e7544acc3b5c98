import GrokBuild.HunkTracker.Actor

/-!
# Hunk tracker: file changes

`actor/mutations.rs` and `refresh_git_dirty_cache`: agent writes, file
change and deletion notifications, baseline resets, the reconciliation
after a git change, and the mode switch.
-/

namespace GrokBuild.HunkTracker

open TextLines Str EditScript

namespace Actor

/-! ## Agent writes -/

/-- The file state a first agent write starts from. -/
def agentFile (baseline current : FileContentState) : FileHunkState where
  baseline := baseline
  currentContent := current
  hunks := []
  isAgentFile := true
  baselineAccepted := false

/-- `record_agent_write` of a content that cannot be diffed: the file is
tracked, its hunks are dropped, nothing is recomputed. -/
def recordOpaqueWrite (env : Env) (a : Actor) (path : PathBuf) (current : FileContentState)
    (previousContent : Option Text) : Actor :=
  match a.file path with
  | none =>
    let read := a.takeBaseline env path (previousContent.map classifyString)
    read.2.trackFile path (agentFile read.1 current)
  | some st =>
    a.setFile path { st with isAgentFile := true, currentContent := current, hunks := [] }

/-- The baseline of a first agent write: HEAD, and where HEAD has nothing,
the content the agent saw before it wrote. -/
def agentBaseline (head : FileContentState) (previousContent : Option Text) :
    FileContentState :=
  match head with
  | .missing => (previousContent.map classifyString).getD .missing
  | other => other

def recordAgentWrite (D : LineDiff) (env : Env) (a : Actor) (path : PathBuf)
    (content : Text) (promptIndex : Nat) (previousContent : Option Text) : Actor :=
  let current := classifyString content
  if current.isDiffable = false then a.recordOpaqueWrite env path current previousContent
  else
    let a := match a.file path with
      | none =>
        let read := a.readBaseline env path
        read.2.trackFile path (agentFile (agentBaseline read.1 previousContent) current)
      | some st => a.setFile path { st with isAgentFile := true }
    a.recomputeHunks D env path (some current) (.agentEdit promptIndex)

/-! ## File change notifications -/

/-- The file state of a file first seen through a notification. -/
def externalFile (baseline current : FileContentState) : FileHunkState where
  baseline := baseline
  currentContent := current
  hunks := []
  isAgentFile := false
  baselineAccepted := false

/-- Neither in HEAD nor dirty: git ignores the file. Directories are let
through. -/
def isIgnored (env : Env) (a : Actor) (path : PathBuf) (baseline : FileContentState) : Bool :=
  a.mode == .allDirty && baseline == .missing && !env.isDir path && !a.isDirty path

/-- `process_file_change` for an untracked file in `AllDirty` mode. -/
def discoverFile (D : LineDiff) (env : Env) (a : Actor) (path : PathBuf)
    (preloaded : Option FileContentState) : Actor :=
  let current := readFileBounded (env.disk path)
  let read := a.takeBaseline env path preloaded
  if read.2.isIgnored env path read.1 then read.2
  else if current.isDiffable = false then
    let a := read.2.trackFile path (externalFile read.1 current)
    if read.1.isDiffable then a.recomputeHunks D env path none .external else a
  else
    let a := read.2.trackFile path (externalFile read.1 .missing)
    a.recomputeHunks D env path (some current) .external

/-- Is the content on disk that of HEAD? -/
def contentMatchesHead (a : Actor) (path : PathBuf) :
    FileContentState → FileContentState → Bool
  | .full current, .full head =>
    stripSingleTrailingNewline current == stripSingleTrailingNewline head
  | .missing, .missing => true
  | .binary _, .binary _ => true
  | .tooLarge _, .tooLarge _ => true
  | .lfsPointer _, .lfsPointer _ => true
  | .symlink, .symlink => true
  | .symlink, .full _ => !a.isDirty path
  | .full _, .symlink => !a.isDirty path
  | _, _ => false

/-- A file with accepted hunks went back to HEAD (`git restore`): it is
clean from now on. -/
def restoreToHead (a : Actor) (path : PathBuf) (st : FileHunkState)
    (head : FileContentState) : Actor :=
  a.setFile path
    { st with baseline := head, currentContent := head, baselineAccepted := false, hunks := [] }

def processFileChange (D : LineDiff) (env : Env) (a : Actor) (path : PathBuf)
    (preloaded : Option FileContentState) : Actor :=
  match a.file path with
  | none => if a.mode = .agentOnly then a else a.discoverFile D env path preloaded
  | some st =>
    let current := readFileBounded (env.disk path)
    if st.baselineAccepted then
      let read := a.takeBaseline env path preloaded
      if read.2.contentMatchesHead path current read.1 then read.2.restoreToHead path st read.1
      else read.2.recomputeHunks D env path (some current) (externalSource st)
    else a.recomputeHunks D env path (some current) (externalSource st)

def handleFileChange (D : LineDiff) (env : Env) (a : Actor) (path : PathBuf) : Actor :=
  a.processFileChange D env path none

/-- Does `handle_file_changes_batch` read a baseline for this path? -/
def needsBaseline (a : Actor) (path : PathBuf) : Bool :=
  match a.file path with
  | none => a.mode != .agentOnly
  | some st => st.baselineAccepted

/-- `handle_file_changes_batch`: `read_baselines_batch` for the paths that
need a baseline, then one change after the other. In a directory that is
known not to be a repository no baseline is preloaded. -/
def handleFileChangesBatch (D : LineDiff) (env : Env) (a : Actor)
    (paths : List PathBuf) : Actor :=
  let baselinePaths := paths.filter a.needsBaseline
  if baselinePaths = [] ∨ a.gitRepoState = .notARepo then
    paths.foldl (fun a p => a.processFileChange D env p none) a
  else
    let baseline p := if p ∈ baselinePaths then some (a.headContent env p) else none
    paths.foldl (fun a p => a.processFileChange D env p (baseline p)) (a.discover env)

def handleFileDeleted (D : LineDiff) (env : Env) (a : Actor) (path : PathBuf) : Actor :=
  match a.file path with
  | none =>
    if a.mode = .agentOnly ∨ env.pathExists path = true then a
    else
      let read := a.readBaseline env path
      if read.1 = .missing then read.2
      else (read.2.trackFile path (externalFile read.1 .missing)).recomputeHunks D env path none
        .external
  | some st =>
    -- the file was replaced, not deleted
    if env.pathExists path then a.handleFileChange D env path
    else a.recomputeHunks D env path none (externalSource st)

/-! ## Baselines -/

/-- The events of hunks that go away with their baseline. -/
def supersededEvents (path : PathBuf) (hs : List Hunk) : List HunkEvent :=
  hs.map fun h => .hunkRemoved path h.id .superseded

def resetBaseline (a : Actor) (path : PathBuf) : Actor :=
  match a.file path with
  | none => a
  | some st =>
    ((a.setFile path
        { st with baseline := st.currentContent, baselineAccepted := false, hunks := [] }).unindex
      st.hunks).sendEvents (supersededEvents path st.hunks ++ [.baselineUpdated path])

/-- The dirty files that are not tracked yet, as absolute paths. -/
def untrackedDirty (env : Env) (a : Actor) (dirty : List PathBuf) : List PathBuf :=
  ((env.order dirty).map (a.workingDir ++ ·)).filter fun p => (a.file p).isNone

/-- `refresh_git_dirty_cache`: in `AllDirty` mode dirty files that are not
tracked yet are tracked now. -/
def refreshGitDirtyCache (D : LineDiff) (env : Env) (a : Actor)
    (scope : Option (List PathBuf)) : Actor :=
  if a.gitRepoState = .notARepo then a
  else
    let a := a.discover env
    let status := if a.gitRepoState = .discovered then env.gitStatus scope else ([], [])
    let toTrack := a.untrackedDirty env status.1.dedup
    let a := { a with gitDirtyCache := status.1.dedup, gitStagedCache := status.2.dedup }
    if a.mode = .allDirty then toTrack.foldl (fun b p => b.handleFileChange D env p) a
    else a

/-- Are baseline and current content the same, as far as git is concerned? -/
def isClean (env : Env) (a : Actor) (path : PathBuf) :
    FileContentState → FileContentState → Bool
  | .full b, .full c => stripSingleTrailingNewline b == stripSingleTrailingNewline c
  | .binary _, .binary _ => !a.isDirty path
  | .tooLarge _, .tooLarge _ => !a.isDirty path
  | .lfsPointer _, _ => !a.isDirty path
  | _, .lfsPointer _ => !a.isDirty path
  | .symlink, .symlink => !a.isDirty path
  | .symlink, .full _ => !a.isDirty path
  | .full _, .symlink => !a.isDirty path
  | .missing, .missing => !env.pathExists path
  | .missing, _ => !a.isDirty path
  | _, _ => false

/-- The body of the loop of `refresh_all_baselines_except`. -/
def refreshFile (D : LineDiff) (env : Env) (a : Actor) (path : PathBuf)
    (baseline : FileContentState) : Actor :=
  match a.file path with
  | none => a
  | some st =>
    let current := readFileBounded (env.disk path)
    if a.isClean env path baseline current then
      if st.isAgentFile then
        ((a.setFile path
            { st with
              baseline := baseline, currentContent := current, baselineAccepted := false
              hunks := [] }).unindex
          st.hunks).sendEvents (supersededEvents path st.hunks ++ [.baselineUpdated path])
      else
        ((a.eraseFile path).unindex st.hunks).sendEvents
          (supersededEvents path st.hunks ++ [.fileRemoved path])
    else
      ((a.setFile path
          { st with
            baseline := baseline, currentContent := current
            baselineAccepted := false }).recomputeHunks
        D env path (some current) (externalSource st)).sendEvents [.baselineUpdated path]

/-- The dirty scan of `refresh_all_baselines_except`: the whole worktree in
`AllDirty` mode, the tracked paths otherwise. An empty scope is no scan. -/
def refreshScopedCache (D : LineDiff) (env : Env) (a : Actor) : Actor :=
  match a.mode with
  | .allDirty => a.refreshGitDirtyCache D env none
  | .agentOnly =>
    let rels := (env.order a.fileStates.keys).filterMap (stripPathPrefix · a.workingDir)
    if rels = [] then { a with gitDirtyCache := [], gitStagedCache := [] }
    else a.refreshGitDirtyCache D env (some rels)

/-- `refresh_all_baselines_except` after its early returns. -/
def refreshTracked (D : LineDiff) (env : Env) (a : Actor) (skip : List PathBuf) : Actor :=
  let a := a.refreshScopedCache D env
  let paths := (env.order a.fileStates.keys).filter (· ∉ skip)
  if paths = [] then a
  else paths.foldl (fun b p => b.refreshFile D env p (a.headContent env p)) (a.discover env)

/-- `refresh_all_baselines_except`. An unchanged HEAD and index mean
nothing to do. -/
def refreshAllBaselinesExcept (D : LineDiff) (env : Env) (a : Actor)
    (skip : List PathBuf) : Actor :=
  if a.mode = .agentOnly ∧ a.fileStates.keys = [] then a
  else
    let read := a.readRepoSyncState env
    match read.1 with
    | some sync =>
      if sync = read.2.repoSyncState then read.2
      else { read.2 with repoSyncState := sync }.refreshTracked D env skip
    | none => read.2.refreshTracked D env skip

def refreshAllBaselines (D : LineDiff) (env : Env) (a : Actor) : Actor :=
  a.refreshAllBaselinesExcept D env []

/-! ## Tracking mode -/

/-- Stop tracking a file. -/
def untrack (a : Actor) (path : PathBuf) : Actor :=
  match a.file path with
  | none => a
  | some st =>
    ((a.eraseFile path).unindex st.hunks).sendEvents
      (supersededEvents path st.hunks ++ [.fileRemoved path])

def setMode (D : LineDiff) (env : Env) (a : Actor) (mode : TrackingMode) : Actor :=
  let b := { a with mode := mode }
  match a.mode, mode with
  | .agentOnly, .allDirty => b.refreshGitDirtyCache D env none
  | .allDirty, .agentOnly =>
    let nonAgent := (env.order a.fileStates.keys).filter fun p =>
      (a.file p).any (!·.isAgentFile)
    nonAgent.foldl untrack b
  | _, _ => b

end Actor

end GrokBuild.HunkTracker
