import GrokBuild.Rewind.Points

/-!
# Rewind: reverting files

The two loops that revert files: the one of `handle_rewind` and `rewind_files`
of the workspace. Either goes through the files in the order of its hash map.
-/

namespace GrokBuild.Rewind

open TextLines Assoc List

variable (root : Text) (faults : Faults)

/-- A file is restored: written back, or deleted if it is there. -/
def restoreFile (disk : Disk) (path : FlexiblePath) (content : Option Text) : Option Disk :=
  let file := path.toAbsolute root
  match content with
  | some data => if faults.write file then none else some (Function.update disk file (some data))
  | none =>
    if (disk file).isSome then
      if faults.delete file then none else some (Function.update disk file none)
    else some disk

/-- A file that was not as the agent left it. -/
structure Conflict where
  path : FlexiblePath
  conflictType : ConflictType
  deriving DecidableEq

/-! ## `handle_rewind` -/

/-- The preview: the files as the agent left them, and the others. -/
def preview (points : Points) (disk : Disk) : Snapshots → List FlexiblePath × List Conflict
  | [] => ([], [])
  | (path, _) :: files =>
    let rest := preview points disk files
    match conflictOf (disk (path.toAbsolute root)) (afterContent points path) with
    | none => (path :: rest.1, rest.2)
    | some conflictType => (rest.1, ⟨path, conflictType⟩ :: rest.2)

/-- The reverts: a failed write is passed over, a failed delete is not. -/
def revertFiles (disk : Disk) : Snapshots → List FlexiblePath × Disk
  | [] => ([], disk)
  | (path, content) :: files =>
    match restoreFile root faults disk path content, content with
    | some disk, _ =>
      let (reverted, disk) := revertFiles disk files
      (path :: reverted, disk)
    | none, some _ => revertFiles disk files
    | none, none =>
      let (reverted, disk) := revertFiles disk files
      (path :: reverted, disk)

/-! ## `rewind_files` -/

structure FileRewind where
  disk : Disk
  revertedFiles : List FlexiblePath
  cleanFiles : List FlexiblePath
  conflicts : List Conflict
  hadErrors : Bool

def rewindLoop (points : Points) (s : FileRewind) : Snapshots → FileRewind
  | [] => s
  | (path, content) :: files =>
    let s : FileRewind := match conflictOf (s.disk (path.toAbsolute root)) (afterContent points path) with
      | none => { s with cleanFiles := s.cleanFiles ++ [path] }
      | some conflictType => { s with conflicts := s.conflicts ++ [⟨path, conflictType⟩] }
    match restoreFile root faults s.disk path content with
    | some disk =>
      rewindLoop points { s with disk, revertedFiles := s.revertedFiles ++ [path] } files
    | none => rewindLoop points { s with hadErrors := true } files

/-- `rewind_files`, with the files in the given order. -/
def rewindFiles (points : Points) (disk : Disk) (targetPromptIndex : Nat) (files : Snapshots) :
    FileRewind × Points :=
  let s := rewindLoop root faults points ⟨disk, [], [], [], false⟩ files
  (s, if s.hadErrors then points else truncateFrom targetPromptIndex points)

/-! ## One attempt -/

/-- The write or delete that would restore an entry is tried and fails. -/
def Fails (disk : Disk) (e : FlexiblePath × Option Text) : Prop :=
  match e.2 with
  | some _ => faults.write (e.1.toAbsolute root) = true
  | none => disk (e.1.toAbsolute root) ≠ none ∧ faults.delete (e.1.toAbsolute root) = true

instance (disk : Disk) (e : FlexiblePath × Option Text) : Decidable (Fails root faults disk e) := by
  unfold Fails
  cases e.2 with
  | some data => exact instDecidableEqBool _ _
  | none => exact instDecidableAnd

variable {disk : Disk} {e : FlexiblePath × Option Text}

theorem restoreFile_fails (h : Fails root faults disk e) :
    restoreFile root faults disk e.1 e.2 = none := by
  obtain ⟨path, content⟩ := e
  cases content with
  | some data => exact if_pos h
  | none =>
    show (if _ then _ else _) = none
    rw [if_pos (Option.isSome_iff_ne_none.mpr h.1), if_pos h.2]

theorem restoreFile_restores (h : ¬ Fails root faults disk e) :
    restoreFile root faults disk e.1 e.2 =
      some (Function.update disk (e.1.toAbsolute root) e.2) := by
  obtain ⟨path, content⟩ := e
  cases content with
  | some data => exact if_neg h
  | none =>
    show (if _ then _ else _) = _
    split
    · rename_i hsome
      exact if_neg fun hdelete => h ⟨Option.isSome_iff_ne_none.mp hsome, hdelete⟩
    · rename_i hnone
      have habsent : disk (path.toAbsolute root) = none := Option.not_isSome_iff_eq_none.mp hnone
      rw [← habsent, Function.update_eq_self]

/-- What an entry's file holds after the attempt. -/
def attempt (disk : Disk) (e : FlexiblePath × Option Text) : Disk :=
  if Fails root faults disk e then disk
  else Function.update disk (e.1.toAbsolute root) e.2

theorem attempt_self (disk : Disk) (e : FlexiblePath × Option Text) :
    attempt root faults disk e (e.1.toAbsolute root) =
      if Fails root faults disk e then disk (e.1.toAbsolute root) else e.2 := by
  unfold attempt
  split
  · rfl
  · exact Function.update_self ..

theorem attempt_of_ne (disk : Disk) (e : FlexiblePath × Option Text) {file : Text}
    (h : file ≠ e.1.toAbsolute root) : attempt root faults disk e file = disk file := by
  unfold attempt
  split
  · rfl
  · exact Function.update_of_ne h ..

theorem fails_congr {disk' : Disk} (h : disk' (e.1.toAbsolute root) = disk (e.1.toAbsolute root)) :
    Fails root faults disk' e ↔ Fails root faults disk e := by
  unfold Fails
  rw [h]

/-! ## A loop over files with one key each -/

variable {root} {files : Snapshots}

theorem OneKey.perm {files' : Snapshots} (h : OneKey root files) (hperm : files'.Perm files) :
    OneKey root files' :=
  ((hperm.map _).nodup_iff).mpr h

theorem OneKey.apart (h : OneKey root (e :: files)) (disk : Disk) {e' : FlexiblePath × Option Text}
    (he' : e' ∈ files) :
    attempt root faults disk e (e'.1.toAbsolute root) = disk (e'.1.toAbsolute root) := by
  apply attempt_of_ne
  intro heq
  exact (nodup_cons.mp h).1 (List.mem_map.mpr ⟨e', he', heq⟩)

theorem OneKey.tail (h : OneKey root (e :: files)) : OneKey root files :=
  (nodup_cons.mp h).2

theorem preview_congr {points : Points} {disk' : Disk}
    (h : ∀ e ∈ files, disk' (e.1.toAbsolute root) = disk (e.1.toAbsolute root)) :
    preview root points disk' files = preview root points disk files := by
  induction files with
  | nil => rfl
  | cons e files ih =>
    unfold preview
    rw [h e (.head _), ih fun e' he' => h e' (.tail _ he')]

/-- The files of the disk after the attempts, one for each entry. -/
def attemptAll (root : Text) (disk : Disk) (files : Snapshots) : Disk :=
  files.foldl (attempt root faults) disk

theorem attemptAll_of_ne {file : Text} (h : ∀ e ∈ files, file ≠ e.1.toAbsolute root) (disk : Disk) :
    attemptAll faults root disk files file = disk file := by
  induction files generalizing disk with
  | nil => rfl
  | cons e files ih =>
    show attemptAll faults root (attempt root faults disk e) files file = _
    rw [ih (fun e' he' => h e' (.tail _ he')), attempt_of_ne root faults disk e (h e (.head _))]

theorem attemptAll_of_mem (hone : OneKey root files) (disk : Disk) (he : e ∈ files) :
    attemptAll faults root disk files (e.1.toAbsolute root) =
      if Fails root faults disk e then disk (e.1.toAbsolute root) else e.2 := by
  induction files generalizing disk with
  | nil => cases he
  | cons first files ih =>
    show attemptAll faults root (attempt root faults disk first) files _ = _
    rcases mem_cons.mp he with rfl | he
    · rw [attemptAll_of_ne faults, attempt_self]
      intro e' he' heq
      exact (nodup_cons.mp hone).1 (List.mem_map.mpr ⟨e', he', heq.symm⟩)
    · rw [ih hone.tail _ he, hone.apart faults disk he]
      simp only [fails_congr root faults (hone.apart faults disk he)]

theorem attemptAll_restores_iff (hone : OneKey root files) (disk : Disk) :
    (∀ e ∈ files, attemptAll faults root disk files (e.1.toAbsolute root) = e.2) ↔
      ∀ e ∈ files, disk (e.1.toAbsolute root) ≠ e.2 → ¬ Fails root faults disk e := by
  apply forall_congr'
  intro e
  apply forall_congr'
  intro he
  rw [attemptAll_of_mem faults hone disk he]
  by_cases hfails : Fails root faults disk e <;> simp [hfails]

theorem attemptAll_unchanged_iff (hone : OneKey root files) (disk : Disk) :
    attemptAll faults root disk files = disk ↔
      ∀ e ∈ files, disk (e.1.toAbsolute root) ≠ e.2 → Fails root faults disk e := by
  constructor
  · intro hsame e he hne
    by_contra hok
    have hnow := attemptAll_of_mem faults hone disk he
    rw [hsame, if_neg hok] at hnow
    exact hne hnow
  · intro hfails
    funext file
    by_cases hfile : ∃ e ∈ files, e.1.toAbsolute root = file
    · obtain ⟨e, he, rfl⟩ := hfile
      rw [attemptAll_of_mem faults hone disk he]
      split
      · rfl
      · rename_i hok
        by_contra hne
        exact hok (hfails e he fun heq => hne heq.symm)
    · apply attemptAll_of_ne
      rintro e he rfl
      exact hfile ⟨e, he, rfl⟩

theorem filter_fails_attempt (hone : OneKey root (e :: files)) (disk : Disk) :
    (files.filter fun e' => ¬ Fails root faults (attempt root faults disk e) e') =
      files.filter fun e' => ¬ Fails root faults disk e' := by
  apply filter_congr
  intro e' he'
  simp only [fails_congr root faults (hone.apart faults disk he')]

/-- The loop of `handle_rewind`: a file whose delete failed counts as reverted. -/
theorem revertFiles_eq (hone : OneKey root files) (disk : Disk) :
    revertFiles root faults disk files =
      ((files.filter fun e => e.2 = none ∨ ¬ Fails root faults disk e).map (·.1),
        attemptAll faults root disk files) := by
  induction files generalizing disk with
  | nil => rfl
  | cons e files ih =>
    have hrest := ih hone.tail
    have hcongr : (files.filter fun e' =>
        e'.2 = none ∨ ¬ Fails root faults (attempt root faults disk e) e') =
        files.filter fun e' => e'.2 = none ∨ ¬ Fails root faults disk e' := by
      apply filter_congr
      intro e' he'
      simp only [fails_congr root faults (hone.apart faults disk he')]
    have hall : attemptAll faults root disk (e :: files) =
        attemptAll faults root (attempt root faults disk e) files := rfl
    by_cases hfails : Fails root faults disk e
    · have hsame : attempt root faults disk e = disk := if_pos hfails
      obtain ⟨path, content⟩ := e
      unfold revertFiles
      rw [show restoreFile root faults disk path content = none from
        restoreFile_fails root faults hfails, hall, hsame]
      cases content with
      | some data => simp [hrest, hfails]
      | none => simp [hrest, hfails]
    · have hupdate : attempt root faults disk e =
          Function.update disk (e.1.toAbsolute root) e.2 := if_neg hfails
      obtain ⟨path, content⟩ := e
      unfold revertFiles
      rw [show restoreFile root faults disk path content = _ from
        restoreFile_restores root faults hfails, hall,
        filter_cons_of_pos (by simp [hfails]), ← hcongr, hupdate]
      simp only [hrest, map_cons]

theorem rewindLoop_eq (hone : OneKey root files) (points : Points) (s : FileRewind) :
    rewindLoop root faults points s files =
      { disk := attemptAll faults root s.disk files
        revertedFiles := s.revertedFiles ++
          (files.filter fun e => ¬ Fails root faults s.disk e).map (·.1)
        cleanFiles := s.cleanFiles ++ (preview root points s.disk files).1
        conflicts := s.conflicts ++ (preview root points s.disk files).2
        hadErrors := s.hadErrors || files.any fun e => Fails root faults s.disk e } := by
  induction files generalizing s with
  | nil => simp [rewindLoop, attemptAll, preview]
  | cons e files ih =>
    have hsaw : preview root points (attempt root faults s.disk e) files =
        preview root points s.disk files :=
      preview_congr fun e' he' => hone.apart faults s.disk he'
    have hany : (files.any fun e' => Fails root faults (attempt root faults s.disk e) e') =
        files.any fun e' => Fails root faults s.disk e' := by
      rw [Bool.eq_iff_iff]
      simp only [List.any_eq_true, decide_eq_true_eq]
      exact exists_congr fun e' => and_congr_right fun he' =>
        fails_congr root faults (hone.apart faults s.disk he')
    have hall : attemptAll faults root s.disk (e :: files) =
        attemptAll faults root (attempt root faults s.disk e) files := rfl
    have hfilter := filter_fails_attempt faults hone s.disk
    obtain ⟨path, content⟩ := e
    unfold rewindLoop preview
    by_cases hfails : Fails root faults s.disk (path, content)
    · have hsame : attempt root faults s.disk (path, content) = s.disk := if_pos hfails
      have hrestore : restoreFile root faults s.disk path content = none :=
        restoreFile_fails root faults hfails
      cases hconflict : conflictOf (s.disk (path.toAbsolute root)) (afterContent points path) <;>
        simp [hrestore, ih hone.tail, hall, hsame, hfails]
    · have hupdate : attempt root faults s.disk (path, content) =
          Function.update s.disk (path.toAbsolute root) content := if_neg hfails
      have hrestore : restoreFile root faults s.disk path content =
          some (Function.update s.disk (path.toAbsolute root) content) :=
        restoreFile_restores root faults hfails
      rw [hupdate] at hany hfilter hsaw hall
      simp only [decide_not] at hfilter
      cases hconflict : conflictOf (s.disk (path.toAbsolute root)) (afterContent points path) <;>
        simp [hrestore, ih hone.tail, hall, hfails, hany, hsaw, hfilter]

end GrokBuild.Rewind
