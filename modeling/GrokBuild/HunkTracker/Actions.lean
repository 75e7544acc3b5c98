import Mathlib.Data.List.Sort
import GrokBuild.HunkTracker.Actor

/-!
# Hunk tracker: accepting and rejecting

`actor/actions.rs`. An action returns the new actor together with its
result: the statistics and the turn index are updated before the file
operation that may fail, so an action that returns an error has changed
the actor as well.
-/

namespace GrokBuild.HunkTracker

open TextLines Str EditScript

/-- `update_session_stats`. -/
def SessionStats.update (s : SessionStats) (info : HunkLineInfo) (action : HunkAction) :
    SessionStats :=
  match action with
  | .accept =>
    { s with
      acceptedHunks := saturatingAdd s.acceptedHunks 1
      acceptedLinesAdded := saturatingAdd s.acceptedLinesAdded info.newCount
      acceptedLinesRemoved := saturatingAdd s.acceptedLinesRemoved info.oldCount }
  | .reject =>
    { s with
      rejectedHunks := saturatingAdd s.rejectedHunks 1
      rejectedLinesAdded := saturatingAdd s.rejectedLinesAdded info.newCount
      rejectedLinesRemoved := saturatingAdd s.rejectedLinesRemoved info.oldCount }

namespace Actor

/-- Count hunks as accepted or rejected and take them out of the turn
index: what every action does before it touches the file. -/
def book (a : Actor) (hs : List Hunk) (action : HunkAction) : Actor :=
  { a.unindex hs with
    sessionStats := hs.foldl (fun s h => s.update h.lineInfo action) a.sessionStats }

def removedEvents (path : PathBuf) (hs : List Hunk) (reason : HunkRemovalReason) :
    List HunkEvent :=
  hs.map fun h => .hunkRemoved path h.id reason

/-- The hunks of a file without the given ones (`retain` by id). -/
def without (st : FileHunkState) (hs : List Hunk) : List Hunk :=
  st.hunks.filter fun h => decide (h.id ∉ hs.map (·.id))

/-! ## Accepting -/

/-- Patch a baseline so that it includes a hunk. -/
def acceptInto (baseline : FileContentState) (h : Hunk) : FileContentState :=
  match baseline with
  | .full b => .full (patchLines b h.lineInfo.oldStart h.lineInfo.oldCount h.newText)
  | other => other

/-- `accept_hunks_batch`, last hunk first. `accept_hunk` is the case of one
hunk. -/
def acceptHunksBatch (D : LineDiff) (env : Env) (a : Actor) (path : PathBuf)
    (hs : List Hunk) : Actor :=
  match a.file path with
  | none => a
  | some st =>
    if hs = [] then a
    else
      let events := removedEvents path hs .accepted ++ [.baselineUpdated path]
      if st.baseline = .missing then
        (a.setFile path
          { st with
            baseline := st.currentContent, baselineAccepted := true
            hunks := without st hs }).sendEvents events
      else
        let sorted := hs.insertionSort fun h k => k.lineInfo.oldStart ≤ h.lineInfo.oldStart
        let a := (a.setFile path
          { st with
            baseline := sorted.foldl acceptInto st.baseline, baselineAccepted := true
            hunks := without st hs }).sendEvents events
        a.recomputeHunks D env path (some st.currentContent) (a.remainingSource path)

def acceptHunk (D : LineDiff) (env : Env) (a : Actor) (path : PathBuf) (h : Hunk) : Actor :=
  a.acceptHunksBatch D env path [h]

/-! ## Rejecting -/

/-- What rejecting hunks of a file does to the file on disk. -/
inductive RejectAction where
  | restoreDeleted (baseline : Text)
  | deleteCreated
  | revertChange (patched : Text)
  | noOp
  deriving DecidableEq, Repr

/-- Patch a current text so that it no longer has a hunk. -/
def revertFrom (current : Text) (h : Hunk) : Text :=
  patchLines current h.lineInfo.newStart h.lineInfo.newCount (h.oldText.getD [])

/-- Last hunk first. -/
def rejectAction (st : FileHunkState) (hs : List Hunk) : RejectAction :=
  match st.baseline, st.currentContent with
  | .full b, .missing => .restoreDeleted b
  | .missing, .full _ => .deleteCreated
  | _, .full c =>
    .revertChange
      ((hs.insertionSort fun h k => k.lineInfo.newStart ≤ h.lineInfo.newStart).foldl revertFrom c)
  | _, _ => .noOp

/-- `reject_hunks_batch`. `reject_hunk` is the case of one hunk. -/
def rejectHunksBatch (D : LineDiff) (env : Env) (a : Actor) (path : PathBuf)
    (hs : List Hunk) : Actor × Except HunkActionError Unit :=
  match a.file path with
  | none => (a, .ok ())
  | some st =>
    if hs = [] then (a, .ok ())
    else
      let events := removedEvents path hs .rejected
      match rejectAction st hs with
      | .restoreDeleted b =>
        if env.writeOk path then
          (((a.did (.write path b)).setFile path
            { st with currentContent := .full b, hunks := without st hs }).sendEvents events,
            .ok ())
        else (a, .error (.writeError path))
      | .deleteCreated =>
        if env.removeOk path then
          (((a.did (.remove path)).setFile path
            { st with currentContent := .missing, hunks := without st hs }).sendEvents events,
            .ok ())
        else (a, .error (.deleteError path))
      | .revertChange patched =>
        if env.writeOk path then
          let a := ((a.did (.write path patched)).setFile path
            { st with currentContent := .full patched, hunks := without st hs }).sendEvents
              events
          (a.recomputeHunks D env path (some (.full patched)) (a.remainingSource path), .ok ())
        else (a, .error (.writeError path))
      | .noOp => (a, .ok ())

def rejectHunk (D : LineDiff) (env : Env) (a : Actor) (path : PathBuf) (h : Hunk) :
    Actor × Except HunkActionError Unit :=
  a.rejectHunksBatch D env path [h]

/-! ## Actions -/

/-- The file and the hunk of an id. -/
def findHunk (env : Env) (a : Actor) (hunkId : HunkId) : Option (PathBuf × Hunk) :=
  (env.order a.fileStates.keys).findSome? fun p =>
    (a.file p).bind fun st => (st.hunks.find? (·.id == hunkId)).map fun h => (p, h)

/-- One file of an action: book the hunks, then accept or reject them. -/
def applyToFile (D : LineDiff) (env : Env) (a : Actor) (path : PathBuf) (hs : List Hunk)
    (action : HunkAction) : Actor × Except HunkActionError Unit :=
  let a := a.book hs action
  match action with
  | .accept => (a.acceptHunksBatch D env path hs, .ok ())
  | .reject => a.rejectHunksBatch D env path hs

def applyHunkAction (D : LineDiff) (env : Env) (a : Actor) (hunkId : HunkId)
    (action : HunkAction) : Actor × Except HunkActionError Unit :=
  match a.findHunk env hunkId with
  | none => (a, .error (.hunkNotFound hunkId))
  | some (path, h) => a.applyToFile D env path [h] action

/-- `apply_action_batch`: file after file, up to the first error. -/
def applyActionBatch (D : LineDiff) (env : Env) (action : HunkAction) (a : Actor) :
    List (PathBuf × List Hunk) → Actor × Except HunkActionError (List HunkId)
  | [] => (a, .ok [])
  | (path, hs) :: files =>
    match a.applyToFile D env path hs action with
    | (a, .error e) => (a, .error e)
    | (a, .ok ()) =>
      match a.applyActionBatch D env action files with
      | (a, .error e) => (a, .error e)
      | (a, .ok ids) => (a, .ok (hs.map (·.id) ++ ids))

theorem fst_applyActionBatch_cons (D : LineDiff) (env : Env) (action : HunkAction)
    (a : Actor) (p : PathBuf) (hs : List Hunk) (files : List (PathBuf × List Hunk)) :
    (a.applyActionBatch D env action ((p, hs) :: files)).1
      = match (a.applyToFile D env p hs action).2 with
        | .error _ => (a.applyToFile D env p hs action).1
        | .ok _ => ((a.applyToFile D env p hs action).1.applyActionBatch D env action files).1 := by
  rw [applyActionBatch]
  rcases a.applyToFile D env p hs action with ⟨b, e | u⟩
  · rfl
  · dsimp only
    rcases b.applyActionBatch D env action files with ⟨c, e | ids⟩ <;> rfl

def applyFileAction (D : LineDiff) (env : Env) (a : Actor) (path : PathBuf)
    (action : HunkAction) : Actor × Except HunkActionError (List HunkId) :=
  match a.file path with
  | none => (a, .ok [])
  | some st =>
    if st.hunks = [] then (a, .ok [])
    else applyActionBatch D env action a [(path, st.hunks)]

/-- The hunks of every file that pass a test, for the files that have
any. -/
def filesWithHunks (env : Env) (a : Actor) (sel : Hunk → Bool) :
    List (PathBuf × List Hunk) :=
  (env.order a.fileStates.keys).filterMap fun p =>
    (a.file p).bind fun st =>
      if st.hunks.filter sel = [] then none else some (p, st.hunks.filter sel)

def applyAllAction (D : LineDiff) (env : Env) (a : Actor) (action : HunkAction) :
    Actor × Except HunkActionError (List HunkId) :=
  applyActionBatch D env action a (a.filesWithHunks env fun _ => true)

def applyTurnAction (D : LineDiff) (env : Env) (a : Actor) (promptIndex : Nat)
    (action : HunkAction) : Actor × Except HunkActionError (List HunkId) :=
  applyActionBatch D env action a
    (a.filesWithHunks env fun h => h.source.promptIndex == some promptIndex)

end Actor

end GrokBuild.HunkTracker
