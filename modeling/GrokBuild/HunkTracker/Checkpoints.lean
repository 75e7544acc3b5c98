import GrokBuild.HunkTracker.Commands
import GrokBuild.Lib.Numbered

/-!
# Hunk tracker: checkpoints

`session/checkpoint.rs`: what a session keeps of the hunks of each prompt,
and the tracker state that it puts together from that when a prompt is
rewound.
-/

namespace GrokBuild.HunkTracker

open TextLines Str EditScript Numbered

structure HunkTurnDelta where
  promptIndex : Nat
  fileStates : AList fun _ : PathBuf => FileHunkStateSnapshot
  hunkIds : Finset HunkId

/-- `take_turn_delta`: the files that own a hunk of the turn. -/
def Actor.takeTurnDelta (a : Actor) (promptIndex : Nat) : HunkTurnDelta where
  promptIndex
  fileStates :=
    keep (fun _ st => st.hunks.any fun h => h.id ∈ a.turnIndex promptIndex) a.fileStates
  hunkIds := a.turnIndex promptIndex

/-- `HashMap<usize, HunkTurnDelta>`. -/
abbrev HunkCheckpoints := AList fun _ : Nat => HunkTurnDelta

/-- One round of the loop over the deltas. -/
def compose (composed : FileStates × TurnIndex) (promptIndex : Nat) (delta : HunkTurnDelta) :
    FileStates × TurnIndex :=
  (delta.fileStates ∪ composed.1, Function.update composed.2 promptIndex delta.hunkIds)

/-- The ids of the hunks in the snapshots. -/
def presentIds (fileStates : FileStates) : Finset HunkId :=
  (fileStates.entries.flatMap fun e => e.2.hunks.map (·.id)).toFinset

/-- `WorkspaceSession`, as far as it keeps hunks. -/
structure WorkspaceSession where
  hunkTracker : Actor
  hunkCheckpoints : HunkCheckpoints

namespace WorkspaceSession

variable (s : WorkspaceSession)

/-- `capture_hunk_delta`, with whether a delta was stored. -/
def captureHunkDelta (promptIndex : Nat) : WorkspaceSession × Bool :=
  let delta := s.hunkTracker.takeTurnDelta promptIndex
  if delta.fileStates.entries = [] then (s, false)
  else ({ s with hunkCheckpoints := s.hunkCheckpoints.insert promptIndex delta }, true)

def restoreHunkCheckpoints (targetPromptIndex : Nat) : WorkspaceSession :=
  if s.hunkCheckpoints.keys = [] then s
  else
    let prompts := numbersBelow targetPromptIndex s.hunkCheckpoints
    if prompts = [] ∧ 0 < targetPromptIndex then s
    else
      let composed := foldAt compose (∅, fun _ => ∅) s.hunkCheckpoints prompts
      -- the ids of hunks that are in no snapshot are pruned
      let turnIndex k := composed.2 k ∩ presentIds composed.1
      { hunkTracker := s.hunkTracker.restoreSnapshot
          ⟨composed.1, turnIndex, s.hunkTracker.sessionStats⟩
        hunkCheckpoints := keep (fun k _ => k < targetPromptIndex) s.hunkCheckpoints }

end WorkspaceSession

/-! ## Prompts -/

/-- A write of the agent, and the world it meets. -/
structure AgentWrite where
  env : Env
  path : PathBuf
  content : Text
  previousContent : Option Text

/-- A prompt with the writes of its turn. -/
structure Turn where
  promptIndex : Nat
  writes : List AgentWrite

variable (D : LineDiff)

def Actor.runWrite (promptIndex : Nat) (a : Actor) (w : AgentWrite) : Actor :=
  a.handleCommand D w.env (.recordAgentWrite w.path w.content promptIndex w.previousContent)

def Actor.runTurn (a : Actor) (turn : Turn) : Actor :=
  turn.writes.foldl (Actor.runWrite D turn.promptIndex) a

/-- The tracker at the end of these turns. -/
def Actor.runTurns (a : Actor) (turns : List Turn) : Actor := turns.foldl (Actor.runTurn D) a

namespace WorkspaceSession

def new (workingDir : PathBuf) (mode : TrackingMode) : WorkspaceSession where
  hunkTracker := .new workingDir mode
  hunkCheckpoints := ∅

/-- The writes of the turn, and the capture at its end. -/
def runTurn (s : WorkspaceSession) (turn : Turn) : WorkspaceSession :=
  ({ s with hunkTracker := s.hunkTracker.runTurn D turn }.captureHunkDelta turn.promptIndex).1

def runTurns (s : WorkspaceSession) (turns : List Turn) : WorkspaceSession :=
  turns.foldl (WorkspaceSession.runTurn D) s

end WorkspaceSession

/-! ## What these functions give -/

section

variable (a : Actor) {p : PathBuf} {st : FileHunkState} {k : Nat}

theorem file_takeTurnDelta : (a.takeTurnDelta k).fileStates.lookup p = some st ↔
    a.file p = some st ∧ ∃ h ∈ st.hunks, h.id ∈ a.turnIndex k := by
  show (keep _ a.fileStates).lookup p = some st ↔ _
  rw [lookup_keep, Option.filter_eq_some_iff]
  simp [Actor.file]

theorem mem_presentIds {fileStates : FileStates} {id : HunkId} :
    id ∈ presentIds fileStates ↔
      ∃ p st, fileStates.lookup p = some st ∧ ∃ h ∈ st.hunks, h.id = id := by
  simp only [presentIds, List.mem_toFinset, List.mem_flatMap, List.mem_map]
  constructor
  · rintro ⟨⟨p, st⟩, hmem, h, hh, hid⟩
    exact ⟨p, st, AList.mem_lookup_iff.mpr hmem, h, hh, hid⟩
  · rintro ⟨p, st, hst, h, hh, hid⟩
    exact ⟨⟨p, st⟩, AList.mem_lookup_iff.mp hst, h, hh, hid⟩

theorem lookup_compose (composed : FileStates × TurnIndex) (delta : HunkTurnDelta) (p : PathBuf) :
    (compose composed k delta).1.lookup p =
      (delta.fileStates.lookup p).or (composed.1.lookup p) := by
  show (delta.fileStates ∪ composed.1).lookup p = _
  cases h : delta.fileStates.lookup p with
  | none => exact AList.lookup_union_right (AList.lookup_eq_none.mp h)
  | some st =>
    have hmem : p ∈ delta.fileStates := AList.lookup_isSome.mp (h ▸ rfl)
    rw [AList.lookup_union_left hmem, h]
    rfl

end

end GrokBuild.HunkTracker
