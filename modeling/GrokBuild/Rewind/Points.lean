import GrokBuild.Lib.Assoc
import GrokBuild.Lib.Lines

/-!
# Rewind: the rewind points

`file_state.rs`: what a session keeps of the files before and after each of
its prompts, and how rewinds fold the points together or drop them.

A snapshot map is an `Assoc` list. The points are listed by prompt index, as
every reader of the tracker's map sorts them.
-/

namespace GrokBuild.Rewind

open TextLines Assoc List

inductive FlexiblePath
  | relative (path : Text)
  | absolute (path : Text)
  deriving DecidableEq

def FlexiblePath.toAbsolute (root : Text) : FlexiblePath → Text
  | .relative path => root ++ '/' :: path
  | .absolute path => path

/-- The files of the disk, by their absolute paths. -/
abbrev Disk := Text → Option Text

/-- Which writes and deletes fail. -/
structure Faults where
  write : Text → Bool
  delete : Text → Bool

abbrev Snapshots := List (FlexiblePath × Option Text)

structure RewindPoint where
  promptIndex : Nat
  fileSnapshots : Snapshots
  afterSnapshots : Snapshots
  deriving DecidableEq

/-- The points of a tracker, in the order of their prompt indices. -/
abbrev Points := List RewindPoint

def RewindPoint.new (promptIndex : Nat) : RewindPoint := ⟨promptIndex, [], []⟩

/-- `entry(prompt_index).or_insert_with(RewindPoint::new)`. -/
def orInsertPoint (promptIndex : Nat) : Points → Points
  | [] => [.new promptIndex]
  | p :: ps =>
    if promptIndex < p.promptIndex then .new promptIndex :: p :: ps
    else if promptIndex = p.promptIndex then p :: ps
    else p :: orInsertPoint promptIndex ps

/-- `add_snapshot` on the point of the index, if it is there. -/
def addSnapshot (promptIndex : Nat) (path : FlexiblePath) (content : Option Text)
    (points : Points) : Points :=
  points.map fun p =>
    if p.promptIndex = promptIndex then
      { p with fileSnapshots := orInsert p.fileSnapshots path content }
    else p

/-- The after-snapshots that `end_prompt` takes. -/
def captureAfter (root : Text) (disk : Disk) (promptIndex : Nat) (points : Points) : Points :=
  points.map fun p =>
    let left := p.fileSnapshots.map fun e => (e.1, disk (e.1.toAbsolute root))
    if p.promptIndex = promptIndex then
      { p with afterSnapshots := insertAll p.afterSnapshots left }
    else p

def truncateFrom (promptIndex : Nat) (points : Points) : Points :=
  points.filter (·.promptIndex < promptIndex)

/-- What a point takes over from a later one. -/
def RewindPoint.fold (previous merged : RewindPoint) : RewindPoint :=
  { previous with
    fileSnapshots := orInsertAll previous.fileSnapshots merged.fileSnapshots
    afterSnapshots := insertAll previous.afterSnapshots merged.afterSnapshots }

def mergeRewindPointsFrom (points : Points) (targetIndex : Nat) : Points :=
  if targetIndex = 0 then []
  else
    let kept := points.filter (·.promptIndex < targetIndex)
    let toMerge := points.filter (targetIndex ≤ ·.promptIndex)
    kept.map fun p =>
      if p.promptIndex = targetIndex - 1 then toMerge.foldl RewindPoint.fold p else p

/-- The earliest before-snapshot of each file, over the points from the target on. -/
def filesToRevert (points : Points) (target : Nat) : Snapshots :=
  (points.filter (target ≤ ·.promptIndex)).foldl
    (fun files p => orInsertAll files p.fileSnapshots) []

/-- What the agent most recently left a file as. -/
def afterContent (points : Points) (path : FlexiblePath) : Option Text :=
  (points.reverse.findSome? fun p => get? p.afterSnapshots path).join

inductive ConflictType
  | deletedExternally
  | createdExternally
  | modifiedExternally
  deriving DecidableEq

/-- The conflict of a file that is not as the agent left it. -/
def conflictOf (current after : Option Text) : Option ConflictType :=
  if current = after then none
  else if current = none ∧ after ≠ none then some .deletedExternally
  else if current ≠ none ∧ after = none then some .createdExternally
  else some .modifiedExternally

/-! ## The files to revert -/

theorem nodup_filesToRevert (points : Points) (target : Nat) :
    (keys (filesToRevert points target)).Nodup := by
  have hfold : ∀ (ps : Points) (files : Snapshots), (keys files).Nodup →
      (keys (ps.foldl (fun files p => orInsertAll files p.fileSnapshots) files)).Nodup := by
    intro ps
    induction ps with
    | nil => exact fun _ h => h
    | cons p ps ih => exact fun files h => ih _ (nodup_orInsertAll h p.fileSnapshots)
  exact hfold _ [] nodup_nil

theorem get?_foldl_fileSnapshots (ps : Points) (files : Snapshots) (path : FlexiblePath) :
    get? (ps.foldl (fun files p => orInsertAll files p.fileSnapshots) files) path =
      (get? files path).or (ps.findSome? fun p => get? p.fileSnapshots path) := by
  induction ps generalizing files with
  | nil => simp
  | cons p ps ih =>
    rw [foldl_cons, ih, get?_orInsertAll, findSome?_cons, Option.or_assoc]
    cases get? p.fileSnapshots path <;> simp

theorem get?_filesToRevert (points : Points) (target : Nat) (path : FlexiblePath) :
    get? (filesToRevert points target) path =
      (points.filter (target ≤ ·.promptIndex)).findSome? fun p => get? p.fileSnapshots path := by
  rw [filesToRevert, get?_foldl_fileSnapshots]
  simp

theorem exists_point_of_revert {points : Points} {target : Nat} {path : FlexiblePath}
    (h : path ∈ keys (filesToRevert points target)) :
    ∃ p ∈ points, target ≤ p.promptIndex ∧ path ∈ keys p.fileSnapshots := by
  obtain ⟨content, hget⟩ := Option.isSome_iff_exists.mp (get?_isSome.mpr h)
  rw [get?_filesToRevert] at hget
  obtain ⟨p, hp, hsnap⟩ := exists_of_findSome?_eq_some hget
  obtain ⟨hmem, hle⟩ := mem_filter.mp hp
  exact ⟨p, hmem, by simpa using hle, get?_isSome.mp (by simp [hsnap])⟩

/-! ## Relative paths -/

/-- Every snapshot is stored under a relative path, as each capture does. -/
def RelativePoints (points : Points) : Prop :=
  ∀ p ∈ points, ∀ path ∈ keys p.fileSnapshots, ∃ rel, path = .relative rel

theorem toAbsolute_relative_inj {root rel rel' : Text}
    (h : FlexiblePath.toAbsolute root (.relative rel) =
      FlexiblePath.toAbsolute root (.relative rel')) :
    rel = rel' :=
  (List.cons.inj (append_cancel_left h)).2

/-- No file of the disk has two keys. -/
def OneKey (root : Text) (files : Snapshots) : Prop :=
  (files.map fun e => e.1.toAbsolute root).Nodup

theorem RelativePoints.oneKey {points : Points} (h : RelativePoints points) (root : Text)
    (target : Nat) : OneKey root (filesToRevert points target) := by
  have hrel : ∀ path ∈ keys (filesToRevert points target), ∃ rel, path = .relative rel := by
    intro path hpath
    obtain ⟨p, hp, -, hkey⟩ := exists_point_of_revert hpath
    exact h p hp path hkey
  have hmap : (filesToRevert points target).map (fun e => e.1.toAbsolute root) =
      (keys (filesToRevert points target)).map (FlexiblePath.toAbsolute root) := by
    simp [Assoc.keys]
  show ((filesToRevert points target).map _).Nodup
  rw [hmap]
  apply (nodup_filesToRevert points target).map_on
  intro path hpath path' hpath' heq
  obtain ⟨rel, rfl⟩ := hrel path hpath
  obtain ⟨rel', rfl⟩ := hrel path' hpath'
  rw [toAbsolute_relative_inj heq]

end GrokBuild.Rewind
