import GrokBuild.HunkTracker.Diff

/-!
# Hunk tracker: actor and recomputation

The actor's elementary operations (`actor/mod.rs`, `actor/git.rs`) and
`recompute_hunks` with its events (`actor/hunks.rs`). Every change of a
hunk list in the tracker is either a `recomputeHunks` or the removal of
hunks from the list.

A blocking git task is taken to run to its end: the branches for a
cancelled task are left out.
-/

namespace GrokBuild.HunkTracker

open TextLines Str EditScript List

/-! ## The turn index -/

namespace TurnIndex

/-- Take a hunk out of the set of its turn. -/
def remove (t : TurnIndex) (h : Hunk) : TurnIndex :=
  match h.source.promptIndex with
  | none => t
  | some k => Function.update t k ((t k).erase h.id)

/-- Put a hunk into the set of its turn. -/
def insert (t : TurnIndex) (h : Hunk) : TurnIndex :=
  match h.source.promptIndex with
  | none => t
  | some k => Function.update t k (Insert.insert h.id (t k))

def removeAll (t : TurnIndex) (hs : List Hunk) : TurnIndex := hs.foldl remove t

def insertAll (t : TurnIndex) (hs : List Hunk) : TurnIndex := hs.foldl insert t

end TurnIndex

/-! ## Elementary operations -/

namespace Actor

def new (workingDir : PathBuf) (mode : TrackingMode) : Actor where
  workingDir := workingDir
  fileStates := ∅
  turnIndex := fun _ => ∅
  gitDirtyCache := []
  gitStagedCache := []
  gitRepoState := .unknown
  repoSyncState := {}
  mode := mode
  sessionStats := {}
  events := []
  effects := []
  snapshots := []
  recomputed := []
  nextId := 0

/-- The state of a tracked file. -/
def file (a : Actor) (p : PathBuf) : Option FileHunkState := a.fileStates.lookup p

/-- The live hunks of a file. -/
def hunksAt (a : Actor) (p : PathBuf) : List Hunk := (a.file p).elim [] (·.hunks)

def setFile (a : Actor) (p : PathBuf) (st : FileHunkState) : Actor :=
  { a with fileStates := a.fileStates.insert p st }

def eraseFile (a : Actor) (p : PathBuf) : Actor :=
  { a with fileStates := a.fileStates.erase p }

def sendEvents (a : Actor) (es : List HunkEvent) : Actor :=
  { a with events := a.events ++ es }

/-- A completed file operation. -/
def did (a : Actor) (e : FileEffect) : Actor := { a with effects := a.effects ++ [e] }

/-- Take hunks out of the turn index. -/
def unindex (a : Actor) (hs : List Hunk) : Actor :=
  { a with turnIndex := a.turnIndex.removeAll hs }

/-- Start tracking a file. -/
def trackFile (a : Actor) (p : PathBuf) (st : FileHunkState) : Actor :=
  (a.setFile p st).sendEvents [.fileAdded p st.isAgentFile]

/-- The path as the dirty cache knows it. -/
def relative (a : Actor) (p : PathBuf) : PathBuf := (stripPathPrefix p a.workingDir).getD p

def isDirty (a : Actor) (p : PathBuf) : Bool := decide (a.relative p ∈ a.gitDirtyCache)

/-! ## Git -/

/-- `open_or_discover`, as far as the actor's cached state goes. -/
def discover (env : Env) (a : Actor) : Actor :=
  match a.gitRepoState with
  | .unknown => { a with gitRepoState := if env.isRepo then .discovered else .notARepo }
  | _ => a

/-- The content of a path in HEAD. -/
def headContent (env : Env) (a : Actor) (p : PathBuf) : FileContentState :=
  match (a.discover env).gitRepoState with
  | .discovered => (env.head p).content
  | _ => .missing

def readBaseline (env : Env) (a : Actor) (p : PathBuf) : FileContentState × Actor :=
  (a.headContent env p, a.discover env)

/-- A preloaded baseline, or one read on demand. -/
def takeBaseline (env : Env) (a : Actor) (p : PathBuf) :
    Option FileContentState → FileContentState × Actor
  | some b => (b, a)
  | none => a.readBaseline env p

def readRepoSyncState (env : Env) (a : Actor) : Option RepoSyncState × Actor :=
  match (a.discover env).gitRepoState with
  | .discovered => (some env.syncState, a.discover env)
  | _ => (none, a.discover env)

/-! ### What the elementary operations touch -/

section Elementary

variable (a : Actor) (p q : PathBuf) (st : FileHunkState) (es : List HunkEvent)
  (hs : List Hunk) (env : Env) (e : FileEffect)

@[simp] theorem file_setFile_self : (a.setFile p st).file p = some st := by
  simp [file, setFile]

theorem file_setFile_ne {p q : PathBuf} (h : q ≠ p) : (a.setFile p st).file q = a.file q := by
  simp [file, setFile, AList.lookup_insert_ne h]

@[simp] theorem file_eraseFile_self : (a.eraseFile p).file p = none := by
  simp [file, eraseFile]

theorem file_eraseFile_ne {p q : PathBuf} (h : q ≠ p) : (a.eraseFile p).file q = a.file q := by
  simp [file, eraseFile, AList.lookup_erase_ne h]

@[simp] theorem file_sendEvents : (a.sendEvents es).file q = a.file q := rfl

@[simp] theorem file_unindex : (a.unindex hs).file q = a.file q := rfl

@[simp] theorem file_did : (a.did e).file q = a.file q := rfl

theorem discover_eq : ∃ g, a.discover env = { a with gitRepoState := g } := by
  unfold discover
  split
  · exact ⟨_, rfl⟩
  · exact ⟨a.gitRepoState, rfl⟩

@[simp] theorem file_discover : (a.discover env).file q = a.file q := by
  obtain ⟨g, hg⟩ := a.discover_eq env
  rw [hg]
  rfl

@[simp] theorem file_takeBaseline (preloaded : Option FileContentState) :
    (a.takeBaseline env p preloaded).2.file q = a.file q := by
  cases preloaded with
  | none => exact file_discover a q env
  | some b => rfl

end Elementary

end Actor

/-! ## Recomputing the hunks of a file -/

/-- The case table of `recompute_hunks`: what the hunks of a baseline and a
current content are, before ids are inherited. -/
def hunkTable (D : LineDiff) (env : Env) (fresh : Nat) (path : PathBuf)
    (source : HunkSource) : FileContentState → FileContentState → List Hunk
  | .full baseline, .full current =>
    computeHunks D env fresh path baseline current source
  | .full baseline, .missing =>
    if baseline = [] then [] else [.fileDeleted ⟨fresh⟩ env.now path baseline source]
  | .missing, .full current =>
    if current = [] then [] else [.fileCreated ⟨fresh⟩ env.now path current source]
  | _, _ => []

/-- The loop of `recompute_hunks` that hands old ids on. `claimed` holds
the old ids already given away: a later new hunk with the same best match
keeps its fresh id. -/
def preserveIds (oldHunks : List Hunk) : List HunkId → List Hunk → List Hunk
  | _, [] => []
  | claimed, h :: hs =>
    match findMatchingOldHunk h oldHunks with
    | none => h :: preserveIds oldHunks claimed hs
    | some o =>
      if o.id ∈ claimed then h :: preserveIds oldHunks claimed hs
      else
        -- an external edit does not take a hunk away from the agent
        { h with
          id := o.id
          source := if h.source.isExternal && o.source.isAgentEdit then o.source
            else h.source } :: preserveIds oldHunks (o.id :: claimed) hs

/-- A hunk up to its id, source, timestamp and patch. -/
def Hunk.bare (h : Hunk) : Hunk :=
  { h with id := ⟨0⟩, source := .external, patch := none, createdAt := 0 }

theorem preserveIds_map_bare (oldHunks : List Hunk) (hs : List Hunk) : ∀ claimed,
    (preserveIds oldHunks claimed hs).map Hunk.bare = hs.map Hunk.bare := by
  induction hs with
  | nil => exact fun _ => rfl
  | cons h hs ih =>
    intro claimed
    rw [preserveIds]
    split
    · rw [map_cons, map_cons, ih]
    · split
      · rw [map_cons, map_cons, ih]
      · rw [map_cons, map_cons, ih]
        rfl

theorem computeHunks_map_bare (D : LineDiff) {env : Env} (fresh : Nat) (path : PathBuf)
    {baseline current : Text} (source : HunkSource) (hne : baseline ≠ current)
    (hsize : byteLen baseline ≤ maxDiffFileSize ∧ byteLen current ≤ maxDiffFileSize)
    (ht : env.timedOut baseline current = false) :
    (computeHunks D env fresh path baseline current source).map Hunk.bare
      = (diffRegions D baseline current).map (buildHunk path .external 0 ⟨0⟩) := by
  have hsize' : ¬ (byteLen baseline > maxDiffFileSize ∨ byteLen current > maxDiffFileSize) := by
    omega
  rw [computeHunks, if_neg hne, if_neg hsize', ht, if_neg Bool.false_ne_true, List.map_map]
  conv_rhs => rw [← zipIdx_map_fst fresh (diffRegions D baseline current)]
  rw [List.map_map]
  rfl

/-- The event `emit_hunk_diff_events` sends for one new hunk. -/
def newHunkEvent (path : PathBuf) (oldHunks : List Hunk) (triggerSource : HunkSource)
    (h : Hunk) : List HunkEvent :=
  match oldHunks.find? (hunksMatchContent · h) with
  | some o => if hunkMoved o h then [.hunkMoved path o.id h.lineInfo] else []
  | none =>
    if oldHunks.any (hunksOverlap · h) = false then [.hunkAdded path h]
    else
      let prev := (oldHunks.find? (·.id == h.id)).or (oldHunks.find? (hunksOverlap · h))
      [.hunkContentChanged path h triggerSource
        (prev.elim 0 (·.lineInfo.newCount)) (prev.elim 0 (·.lineInfo.oldCount))]

/-- Does an old hunk live on in some new one? -/
def hasSuccessor (newHunks : List Hunk) (o : Hunk) : Bool :=
  newHunks.any fun n => hunksOverlap o n || hunksMatchContent o n

/-- `emit_hunk_diff_events`: first the removals, then one event at most for
each new hunk. -/
def hunkDiffEvents (path : PathBuf) (oldHunks newHunks : List Hunk)
    (triggerSource : HunkSource) : List HunkEvent :=
  (oldHunks.filter fun o => !hasSuccessor newHunks o).map
      (fun o => .hunkRemoved path o.id .superseded)
    ++ newHunks.flatMap (newHunkEvent path oldHunks triggerSource)

namespace Actor

def recomputeHunks (D : LineDiff) (env : Env) (a : Actor) (path : PathBuf)
    (newCurrent : Option FileContentState) (source : HunkSource) : Actor :=
  match a.file path with
  | none => a
  | some st =>
    let current := newCurrent.getD .missing
    let table := hunkTable D env a.nextId path source st.baseline current
    let hunks := preserveIds st.hunks [] table
    let emitted := hunkDiffEvents path st.hunks hunks source
    { a.setFile path { st with currentContent := current, hunks := hunks } with
      turnIndex := (a.turnIndex.removeAll st.hunks).insertAll hunks
      events := a.events ++ emitted
      recomputed := a.recomputed ++ [⟨st.hunks, table, hunks, a.events, emitted⟩]
      nextId := a.nextId + table.length }

theorem file_recomputeHunks_self (D : LineDiff) (env : Env) {a : Actor} {p : PathBuf}
    {st : FileHunkState} (h : a.file p = some st) (current : Option FileContentState)
    (source : HunkSource) :
    (a.recomputeHunks D env p current source).file p = some
      { st with
        currentContent := current.getD .missing
        hunks := preserveIds st.hunks []
          (hunkTable D env a.nextId p source st.baseline (current.getD .missing)) } := by
  simp only [recomputeHunks, h]
  simp [file, setFile]

theorem file_recomputeHunks_ne (D : LineDiff) (env : Env) {a : Actor} {p q : PathBuf}
    (h : q ≠ p) (current : Option FileContentState) (source : HunkSource) :
    (a.recomputeHunks D env p current source).file q = a.file q := by
  unfold recomputeHunks
  split
  · rfl
  · next st hst => exact file_setFile_ne a _ h

@[simp] theorem effects_recomputeHunks (D : LineDiff) (env : Env) (a : Actor) (p : PathBuf)
    (current : Option FileContentState) (source : HunkSource) :
    (a.recomputeHunks D env p current source).effects = a.effects := by
  unfold recomputeHunks
  split <;> rfl

/-- The source of the first remaining hunk of a file. -/
def remainingSource (a : Actor) (p : PathBuf) : HunkSource :=
  ((a.file p).bind (·.hunks.head?)).elim .external (·.source)

/-- Who is charged with a change on disk. -/
def externalSource (st : FileHunkState) : HunkSource :=
  if st.isAgentFile then .externalEditOnAgentFile else .external

end Actor

end GrokBuild.HunkTracker
