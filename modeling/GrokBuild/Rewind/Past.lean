import GrokBuild.Lib.Epochs
import GrokBuild.Rewind.Outcomes

/-!
# Rewind: the past of the files

Runs of a session over its files: prompts begin, their files are captured and
written, they end, and rewinds go back. Next to the session runs the history
of the disk, as epochs; it is what a rewind should restore, and the code does
not know it.
-/

namespace GrokBuild.Rewind

open TextLines Assoc Epochs List Option

abbrev History := List (Epoch Text (Option Text))

/-- A session at work. -/
structure Work where
  session : Session
  currentPromptIndex : Option Nat
  history : History

inductive Event where
  | beginPrompt (promptIndex : Nat)
  | captureFileState (file : Text)
  | write (file : Text) (content : Option Text)
  | endPrompt
  | rewind (mode : RewindMode) (targetPromptIndex : Nat)

def fromAbsolute (root file : Text) : Option FlexiblePath :=
  if (root ++ ['/']).isPrefixOf file then some (.relative (file.drop (root.length + 1)))
  else none

/-- The file has a snapshot in the prompt that is running. -/
def Captured (root : Text) (points : Points) (promptIndex : Nat) (file : Text) : Prop :=
  ∃ p ∈ points, p.promptIndex = promptIndex ∧
    ∃ path ∈ keys p.fileSnapshots, path.toAbsolute root = file

instance (root : Text) (points : Points) (promptIndex : Nat) (file : Text) :
    Decidable (Captured root points promptIndex file) := by
  unfold Captured
  infer_instance

def Succeeded : Except Text RewindResponse → Bool
  | .ok response => response.success
  | .error _ => false

namespace Work

variable (env : RewindEnv) (w : Work)

def beginPrompt (promptIndex : Nat) : Work :=
  { session :=
      { w.session with
        points := orInsertPoint promptIndex w.session.points
        chat := { w.session.chat with promptIndex := promptIndex + 1 } }
    currentPromptIndex := some promptIndex
    history := w.history ++ [⟨promptIndex, w.session.disk, []⟩] }

/-- `capture_file_state`: a file outside the session's directory is skipped. -/
def captureFileState (file : Text) : Work :=
  match fromAbsolute env.root file, w.currentPromptIndex with
  | some path, some promptIndex =>
    let points := addSnapshot promptIndex path (w.session.disk file) w.session.points
    { w with session := { w.session with points } }
  | _, _ => w

/-- The agent writes a file, or deletes it. -/
def write (promptIndex : Nat) (file : Text) (content : Option Text) : Work :=
  { w with
    session := { w.session with disk := Function.update w.session.disk file content }
    history := Epochs.write promptIndex file w.history }

def endPrompt (promptIndex : Nat) : Work :=
  let points := captureAfter env.root w.session.disk promptIndex w.session.points
  { w with session := { w.session with points }, currentPromptIndex := none }

/-- A forced rewind; what succeeded is then part of the history. -/
def rewind (mode : RewindMode) (target : Nat) : Work :=
  let (session, response) := w.session.handleRewind env ⟨target, true, mode⟩
  let history :=
    if Succeeded response then
      match mode with
      | .conversationOnly => handOver target w.history
      | .all | .filesOnly => earlier target w.history
    else w.history
  { w with session, history }

/-- Prompts come with increasing indices, a file is captured in the prompt
before it is written, and rewinds come between prompts. -/
def step : Event → Option Work
  | .beginPrompt promptIndex =>
    if w.currentPromptIndex = none ∧ w.session.chat.promptIndex ≤ promptIndex then
      some (w.beginPrompt promptIndex)
    else none
  | .captureFileState file => some (w.captureFileState env file)
  | .write file content =>
    match w.currentPromptIndex with
    | some promptIndex =>
      if Captured env.root w.session.points promptIndex file then
        some (w.write promptIndex file content)
      else none
    | none => none
  | .endPrompt => w.currentPromptIndex.map (w.endPrompt env)
  | .rewind mode target =>
    if w.currentPromptIndex = none ∧ (mode = .conversationOnly → 1 ≤ target) then
      some (w.rewind env mode target)
    else none

def run (w : Work) : List Event → Option Work
  | [] => some w
  | event :: events => (w.step env event).bind (·.run events)

/-- What a file rewind to the target should leave of each file. -/
def past (target : Nat) (file : Text) : Option Text :=
  if file ∈ writtenIn (since target w.history) then
    stateFrom (since target w.history) w.session.disk file
  else w.session.disk file

/-- Every rewind of the files, by either implementation, restores the past. -/
def RestoresPast : Prop :=
  ∀ target : Nat,
    (∀ mode : RewindMode, mode.wantsFileRevert = true →
      Succeeded (w.session.handleRewind env ⟨target, true, mode⟩).2 = true →
      (w.session.handleRewind env ⟨target, true, mode⟩).1.disk = w.past target) ∧
    ∀ files : Snapshots, files.Perm (filesToRevert w.session.points target) →
      (rewindFiles env.root env.faults w.session.points w.session.disk target files).1.disk =
        w.past target

/-- A conversation rewind finds the point into which the later ones fold, or
has nothing to fold. -/
def Folds : Event → Prop
  | .rewind .conversationOnly target =>
    (∃ p ∈ w.session.points, p.promptIndex + 1 = target) ∨
      ∀ p ∈ w.session.points, target ≤ p.promptIndex → p.fileSnapshots = []
  | _ => True

/-- Every step of the run folds. -/
def FoldsAll (w : Work) : List Event → Prop
  | [] => True
  | event :: events => w.Folds event ∧ ∀ w', w.step env event = some w' → w'.FoldsAll events

instance decidableFolds : DecidablePred w.Folds
  | .rewind .conversationOnly _ => inferInstanceAs (Decidable (_ ∨ _))
  | .rewind .all _ | .rewind .filesOnly _ | .beginPrompt _ | .captureFileState _ | .write _ _
  | .endPrompt => .isTrue trivial

instance decidableFoldsAll : (w : Work) → (events : List Event) → Decidable (w.FoldsAll env events)
  | _, [] => .isTrue trivial
  | w, event :: events =>
    have (w' : Work) := decidableFoldsAll w' events
    inferInstanceAs (Decidable (w.Folds event ∧ ∀ w' ∈ w.step env event, w'.FoldsAll env events))

/-- A session that has no prompts yet. -/
def start (disk : Disk) (chat : ChatState) : Work where
  session := { disk, points := [], chat, updates := [], rewindPendingPrompt := none }
  currentPromptIndex := none
  history := []

end Work

/-- No write, delete or replay fails. -/
structure RewindEnv.NoErrors (env : RewindEnv) : Prop where
  write : ∀ file, env.faults.write file = false
  delete : ∀ file, env.faults.delete file = false
  replay : ∀ updates target, ∃ result, env.replay updates target = .ok result

/-! ## What a point knows of its epoch -/

structure Matches (root : Text) (p : RewindPoint) (e : Epoch Text (Option Text)) : Prop where
  index : p.promptIndex = e.index
  before : ∀ path content, get? p.fileSnapshots path = some content →
    e.before (path.toAbsolute root) = content
  captured : ∀ file ∈ e.written, ∃ path ∈ keys p.fileSnapshots, path.toAbsolute root = file
  relative : ∀ path ∈ keys p.fileSnapshots, ∃ rel, path = .relative rel

variable {root : Text} {points : Points} {es : History} {disk : Disk}

abbrev AllMatch (root : Text) (points : Points) (es : History) : Prop :=
  List.Forall₂ (Matches root) points es

theorem AllMatch.relativePoints (h : AllMatch root points es) : RelativePoints points := by
  induction h with
  | nil => exact fun p hp => by cases hp
  | cons hmatch _ ih =>
    intro p hp
    rcases mem_cons.mp hp with rfl | hp
    · exact hmatch.relative
    · exact ih p hp

theorem AllMatch.append_right {es' : History} (h : AllMatch root points (es ++ es')) :
    ∃ ps ps', points = ps ++ ps' ∧ AllMatch root ps es ∧ AllMatch root ps' es' :=
  ⟨_, _, (take_append_drop es.length points).symm, forall₂_take_append _ _ _ h,
    forall₂_drop_append _ _ _ h⟩

theorem AllMatch.last {e : Epoch Text (Option Text)} (h : AllMatch root points (es ++ [e])) :
    ∃ ps p, points = ps ++ [p] ∧ AllMatch root ps es ∧ Matches root p e := by
  obtain ⟨ps, ps', rfl, hps, hlast⟩ := h.append_right
  cases hlast with
  | cons hmatch hnil =>
    cases hnil
    exact ⟨ps, _, rfl, hps, hmatch⟩
variable {p : RewindPoint}

theorem AllMatch.snoc {e : Epoch Text (Option Text)} (h : AllMatch root points es)
    (hmatch : Matches root p e) : AllMatch root (points ++ [p]) (es ++ [e]) := by
  induction h with
  | nil => exact .cons hmatch .nil
  | cons hfirst _ ih => exact .cons hfirst ih

theorem AllMatch.earlier (h : AllMatch root points es) (target : Nat) :
    AllMatch root (truncateFrom target points) (earlier target es) :=
  rel_filter (fun p e (hmatch : Matches root p e) => by simp [hmatch.index]) h

theorem AllMatch.since (h : AllMatch root points es) (target : Nat) :
    AllMatch root (points.filter (target ≤ ·.promptIndex)) (since target es) :=
  rel_filter (fun p e (hmatch : Matches root p e) => by simp [hmatch.index]) h

theorem AllMatch.index_lt {bound : Nat} (h : AllMatch root points es)
    (hes : ∀ e ∈ es, e.index < bound) : ∀ p ∈ points, p.promptIndex < bound := by
  induction h with
  | nil => exact fun p hp => by cases hp
  | cons hmatch _ ih =>
    intro p hp
    rcases mem_cons.mp hp with rfl | hp
    · rw [hmatch.index]
      exact hes _ (.head _)
    · exact ih (fun e he => hes e (.tail _ he)) p hp

theorem AllMatch.exists_epoch (h : AllMatch root points es) (hp : p ∈ points) :
    ∃ e ∈ es, p.promptIndex = e.index := by
  induction h with
  | nil => cases hp
  | cons hmatch _ ih =>
    rcases mem_cons.mp hp with rfl | hp
    · exact ⟨_, .head _, hmatch.index⟩
    · obtain ⟨e, he, hindex⟩ := ih hp
      exact ⟨e, .tail _ he, hindex⟩

theorem AllMatch.captured (h : AllMatch root points es) {file : Text}
    (hfile : file ∈ writtenIn es) :
    ∃ p ∈ points, ∃ path ∈ keys p.fileSnapshots, path.toAbsolute root = file := by
  obtain ⟨e, he, hmem⟩ := mem_flatMap.mp hfile
  clear hfile
  induction h with
  | nil => cases he
  | cons hmatch _ ih =>
    rcases mem_cons.mp he with rfl | he
    · exact ⟨_, .head _, hmatch.captured file hmem⟩
    · obtain ⟨p, hp, hkey⟩ := ih he
      exact ⟨p, .tail _ hp, hkey⟩

/-! ## Going back -/

theorem first_snapshot (h : AllMatch root points es) (hlinked : Linked es disk)
    {path : FlexiblePath} (hrel : ∃ rel, path = .relative rel) {content : Option Text}
    (hget : points.findSome? (fun p => get? p.fileSnapshots path) = some content) :
    stateFrom es disk (path.toAbsolute root) = content := by
  induction h with
  | nil => cases hget
  | @cons p e ps es hmatch _ ih =>
    obtain ⟨hstep, hrest⟩ := hlinked
    rw [findSome?_cons] at hget
    show e.before (path.toAbsolute root) = content
    cases hsnap : get? p.fileSnapshots path with
    | some snapshot =>
      rw [hsnap] at hget
      rw [hmatch.before path snapshot hsnap]
      exact some.inj hget
    | none =>
      rw [hsnap] at hget
      rw [← hstep, ih hrest hget]
      intro hwritten
      obtain ⟨path', hkey, heq⟩ := hmatch.captured _ hwritten
      obtain ⟨rel', rfl⟩ := hmatch.relative path' hkey
      obtain ⟨rel, rfl⟩ := hrel
      rw [← toAbsolute_relative_inj heq] at hsnap
      exact get?_eq_none.mp hsnap hkey

theorem never_captured (h : AllMatch root points es) (hlinked : Linked es disk) {file : Text}
    (hfile : ∀ p ∈ points, ∀ path ∈ keys p.fileSnapshots, path.toAbsolute root ≠ file) :
    stateFrom es disk file = disk file := by
  apply hlinked.unchanged
  intro hwritten
  obtain ⟨p, hp, path, hkey, heq⟩ := h.captured hwritten
  exact hfile p hp path hkey heq

theorem not_fails {env : RewindEnv} (hok : env.NoErrors) (disk : Disk)
    (e : FlexiblePath × Option Text) : ¬ Fails env.root env.faults disk e := by
  unfold Fails
  cases e.2 with
  | some data => simp [hok.write]
  | none => simp [hok.delete]
variable {target : Nat}

theorem attemptAll_goBack {env : RewindEnv} (hok : env.NoErrors)
    (h : AllMatch env.root points es) (hlinked : Linked es disk) (hord : Ordered es)
    {files : Snapshots} (hperm : files.Perm (filesToRevert points target)) :
    attemptAll env.faults env.root disk files = stateFrom (since target es) disk := by
  have hsince := h.since target
  have hlinked' := hlinked.since hord target
  have hone := (h.relativePoints.oneKey env.root target).perm hperm
  funext file
  by_cases hfile : ∃ e ∈ files, e.1.toAbsolute env.root = file
  · obtain ⟨e, he, rfl⟩ := hfile
    rw [attemptAll_of_mem env.faults hone disk he, if_neg (not_fails hok disk e)]
    have hmem : e ∈ filesToRevert points target := hperm.mem_iff.mp he
    have hget := get?_of_mem (nodup_filesToRevert points target) hmem
    rw [get?_filesToRevert] at hget
    obtain ⟨p, hp, -, hkey⟩ := exists_point_of_revert (List.mem_map.mpr ⟨e, hmem, rfl⟩)
    exact (first_snapshot hsince hlinked' (h.relativePoints p hp _ hkey) hget).symm
  · rw [attemptAll_of_ne env.faults (fun e he heq => hfile ⟨e, he, heq.symm⟩)]
    refine (never_captured hsince hlinked' fun p hp path hkey heq => hfile ?_).symm
    have hfound : (get? (filesToRevert points target) path).isSome := by
      rw [get?_filesToRevert, findSome?_isSome_iff]
      exact ⟨p, hp, get?_isSome.mpr hkey⟩
    obtain ⟨e, he, rfl⟩ := List.mem_map.mp (get?_isSome.mp hfound)
    exact ⟨e, hperm.mem_iff.mpr he, heq⟩

/-! ## Folding points -/

theorem get?_foldl_fold (p : RewindPoint) (ps : Points) (path : FlexiblePath) :
    get? (ps.foldl RewindPoint.fold p).fileSnapshots path =
      (p :: ps).findSome? fun q => get? q.fileSnapshots path := by
  induction ps generalizing p with
  | nil => cases h : get? p.fileSnapshots path <;> simp [h]
  | cons q ps ih =>
    have hfold : get? (p.fold q).fileSnapshots path =
        (get? p.fileSnapshots path).or (get? q.fileSnapshots path) :=
      get?_orInsertAll _ _ _
    rw [foldl_cons, ih, findSome?_cons, hfold, findSome?_cons, findSome?_cons]
    cases get? p.fileSnapshots path <;> rfl

theorem foldl_fold_promptIndex (p : RewindPoint) (ps : Points) :
    (ps.foldl RewindPoint.fold p).promptIndex = p.promptIndex := by
  induction ps generalizing p with
  | nil => rfl
  | cons q ps ih => exact ih (p.fold q)

theorem Matches.takeOver {e : Epoch Text (Option Text)}
    (hmatch : Matches root p e) (h : AllMatch root points es) (hlinked : Linked (e :: es) disk) :
    Matches root (points.foldl RewindPoint.fold p)
      { e with written := e.written ++ writtenIn es } := by
  have hkeys : ∀ path, path ∈ keys (points.foldl RewindPoint.fold p).fileSnapshots ↔
      ∃ q ∈ p :: points, path ∈ keys q.fileSnapshots := by
    intro path
    rw [← get?_isSome, get?_foldl_fold, findSome?_isSome_iff]
    simp only [get?_isSome]
  have hall : AllMatch root (p :: points) (e :: es) := .cons hmatch h
  refine ⟨(foldl_fold_promptIndex p points).trans hmatch.index, ?_, ?_, ?_⟩
  · intro path content hget
    have hkey := (hkeys path).mp (get?_isSome.mp (by simp [hget]))
    obtain ⟨q, hq, hkey⟩ := hkey
    rw [get?_foldl_fold] at hget
    exact first_snapshot hall hlinked (hall.relativePoints q hq path hkey) hget
  · intro file hfile
    have hwritten : file ∈ writtenIn (e :: es) := by simpa [writtenIn] using hfile
    obtain ⟨q, hq, path, hkey, heq⟩ := hall.captured hwritten
    exact ⟨path, (hkeys path).mpr ⟨q, hq, hkey⟩, heq⟩
  · intro path hpath
    obtain ⟨q, hq, hkey⟩ := (hkeys path).mp hpath
    exact hall.relativePoints q hq path hkey

/-! ## The invariant -/

structure Tracked (root : Text) (w : Work) : Prop where
  points : AllMatch root w.session.points w.history
  linked : Linked w.history w.session.disk
  ordered : Ordered w.history
  below : ∀ e ∈ w.history, e.index < w.session.chat.promptIndex
  running : ∀ n, w.currentPromptIndex = some n → ∃ es e, w.history = es ++ [e] ∧ e.index = n

theorem orInsertPoint_of_lt {promptIndex : Nat} (h : ∀ p ∈ points, p.promptIndex < promptIndex) :
    orInsertPoint promptIndex points = points ++ [.new promptIndex] := by
  induction points with
  | nil => rfl
  | cons p points ih =>
    have hlt := h p (.head _)
    unfold orInsertPoint
    rw [if_neg (by omega), if_neg (by omega), ih fun q hq => h q (.tail _ hq)]
    rfl

theorem fromAbsolute_eq_some {file : Text} {path : FlexiblePath}
    (h : fromAbsolute root file = some path) :
    path.toAbsolute root = file ∧ ∃ rel, path = .relative rel := by
  unfold fromAbsolute at h
  split at h
  · rename_i hpre
    obtain rfl := some.inj h
    obtain ⟨rel, rfl⟩ := isPrefixOf_iff_prefix.mp hpre
    refine ⟨?_, _, rfl⟩
    simp [FlexiblePath.toAbsolute]
  · cases h

namespace Tracked

variable {env : RewindEnv} {w w' : Work}

theorem beginPrompt (h : Tracked root w) {promptIndex : Nat}
    (hle : w.session.chat.promptIndex ≤ promptIndex) : Tracked root (w.beginPrompt promptIndex) := by
  have hbelow : ∀ e ∈ w.history, e.index < promptIndex := fun e he => by
    have := h.below e he
    omega
  refine ⟨?_, h.linked.begin promptIndex, ?_, ?_, ?_⟩
  · show AllMatch root (orInsertPoint promptIndex w.session.points) _
    rw [orInsertPoint_of_lt (h.points.index_lt hbelow)]
    refine h.points.snoc ⟨rfl, ?_, ?_, ?_⟩
    · intro path content hget
      cases hget
    · intro file hfile
      cases hfile
    · intro path hpath
      cases hpath
  · refine pairwise_append.mpr ⟨h.ordered, pairwise_singleton _ _, ?_⟩
    intro e he e' he'
    rw [mem_singleton.mp he']
    exact hbelow e he
  · intro e he
    show e.index < promptIndex + 1
    rcases mem_append.mp he with he | he
    · have := hbelow e he
      omega
    · rw [mem_singleton.mp he]
      exact Nat.lt_succ_self _
  · intro n hn
    exact ⟨_, _, rfl, some.inj hn⟩

theorem last (h : Tracked root w) {n : Nat} (hn : w.currentPromptIndex = some n) :
    ∃ ps p es e, w.session.points = ps ++ [p] ∧ w.history = es ++ [e] ∧ e.index = n ∧
      AllMatch root ps es ∧ Matches root p e ∧ ∀ q ∈ ps, q.promptIndex ≠ n := by
  obtain ⟨es, e, hes, hindex⟩ := h.running n hn
  have hpoints := h.points
  have hord := h.ordered
  rw [hes] at hpoints hord
  obtain ⟨ps, p, hps, hall, hmatch⟩ := hpoints.last
  refine ⟨ps, p, es, e, hps, hes, hindex, hall, hmatch, ?_⟩
  intro q hq
  have hlt := hall.index_lt hord.apart q hq
  omega

theorem captureFileState (h : Tracked env.root w) (file : Text) :
    Tracked env.root (w.captureFileState env file) := by
  unfold Work.captureFileState
  split
  · rename_i path n hpath hn
    obtain ⟨ps, p, es, e, hps, hes, hindex, hall, hmatch, hapart⟩ := h.last hn
    obtain ⟨habs, hrel⟩ := fromAbsolute_eq_some hpath
    refine ⟨?_, h.linked, h.ordered, h.below, h.running⟩
    show AllMatch env.root (addSnapshot n path (w.session.disk file) w.session.points) w.history
    have hp : p.promptIndex = n := hmatch.index.trans hindex
    have hadd : addSnapshot n path (w.session.disk file) w.session.points =
        ps ++ [{ p with fileSnapshots := orInsert p.fileSnapshots path (w.session.disk file) }] := by
      unfold addSnapshot
      rw [hps, map_append, map_ite_of_not hapart, map_singleton, if_pos hp]
    rw [hadd, hes]
    refine hall.snoc ⟨hmatch.index, ?_, ?_, ?_⟩
    · intro path' content hget
      rw [get?_orInsert] at hget
      cases hsnap : get? p.fileSnapshots path' with
      | some snapshot =>
        rw [hsnap] at hget
        exact (hmatch.before path' snapshot hsnap).trans (some.inj hget)
      | none =>
        -- a file captured for the first time was not written in this prompt
        rw [hsnap, none_or] at hget
        obtain ⟨rfl, hcontent⟩ := (ite_none_right_eq_some).mp hget
        obtain rfl := some.inj hcontent
        rw [habs]
        have hlinked := h.linked
        rw [hes] at hlinked
        refine ((linked_append.mp hlinked).2.1 file fun hwritten => ?_).symm
        obtain ⟨path', hkey, heq⟩ := hmatch.captured file hwritten
        obtain ⟨rel, rfl⟩ := hrel
        obtain ⟨rel', rfl⟩ := hmatch.relative path' hkey
        rw [← toAbsolute_relative_inj (heq.trans habs.symm)] at hsnap
        exact get?_eq_none.mp hsnap hkey
    · intro file' hwritten
      obtain ⟨path', hkey, heq⟩ := hmatch.captured file' hwritten
      refine ⟨path', ?_, heq⟩
      rw [keys_orInsert]
      split
      · exact hkey
      · exact mem_append_left _ hkey
    · intro path' hkey
      rw [keys_orInsert] at hkey
      split at hkey
      · exact hmatch.relative path' hkey
      · rcases mem_append.mp hkey with hkey | hkey
        · exact hmatch.relative path' hkey
        · exact mem_singleton.mp hkey ▸ hrel
  · exact h

theorem write (h : Tracked root w) {n : Nat} (hn : w.currentPromptIndex = some n) {file : Text}
    (hcaptured : Captured root w.session.points n file) (content : Option Text) :
    Tracked root (w.write n file content) := by
  obtain ⟨ps, p, es, e, hps, hes, rfl, hall, hmatch, hapart⟩ := h.last hn
  have hord := h.ordered
  have hlinked := h.linked
  rw [hes] at hord hlinked
  have hwrite : Epochs.write e.index file w.history =
      es ++ [{ e with written := e.written ++ [file] }] := by
    rw [hes, hord.write_last]
  refine ⟨?_, ?_, ?_, ?_, ?_⟩
  · show AllMatch root w.session.points (Epochs.write e.index file w.history)
    rw [hwrite, hps]
    refine hall.snoc ⟨hmatch.index, hmatch.before, ?_, hmatch.relative⟩
    intro file' hfile'
    rcases mem_append.mp hfile' with hfile' | hfile'
    · exact hmatch.captured file' hfile'
    · obtain rfl := mem_singleton.mp hfile'
      obtain ⟨q, hq, hindex, path, hkey, heq⟩ := hcaptured
      rw [hps] at hq
      rcases mem_append.mp hq with hq | hq
      · exact absurd hindex (hapart q hq)
      · rw [mem_singleton.mp hq] at hkey
        exact ⟨path, hkey, heq⟩
  · show Linked (Epochs.write e.index file w.history) _
    rw [hwrite]
    exact hlinked.write file content
  · exact h.ordered.congr (write_indices _ _ _)
  · intro e' he'
    have hindex := List.mem_map_of_mem (f := (·.index)) he'
    rw [show (w.write e.index file content).history = Epochs.write e.index file w.history from rfl,
      write_indices] at hindex
    obtain ⟨e'', he'', heq⟩ := List.mem_map.mp hindex
    exact heq ▸ h.below e'' he''
  · intro n hn'
    obtain rfl := some.inj (hn.symm.trans hn')
    exact ⟨es, _, hwrite, rfl⟩

theorem endPrompt (h : Tracked env.root w) (n : Nat) :
    Tracked env.root (w.endPrompt env n) := by
  refine ⟨?_, h.linked, h.ordered, h.below, fun _ hn => by cases hn⟩
  show AllMatch env.root (w.session.points.map _) w.history
  refine forall₂_map_left_iff.mpr (h.points.imp fun p e hmatch => ?_)
  show Matches env.root (if _ then _ else _) e
  split
  · exact ⟨hmatch.index, hmatch.before, hmatch.captured, hmatch.relative⟩
  · exact hmatch

theorem goBack (h : Tracked root w) {session : Session} {history : History}
    (hpoints : session.points = truncateFrom target w.session.points)
    (hdisk : session.disk = stateFrom (since target w.history) w.session.disk)
    (hhistory : history = earlier target w.history) (hcurrent : w.currentPromptIndex = none)
    (hbelow : ∀ e ∈ history, e.index < session.chat.promptIndex) :
    Tracked root { w with session, history } := by
  subst hhistory
  refine ⟨?_, ?_, h.ordered.earlier target, hbelow, fun n hn => ?_⟩
  · show AllMatch root session.points _
    rw [hpoints]
    exact h.points.earlier target
  · show Linked _ session.disk
    rw [hdisk]
    exact h.linked.goBack h.ordered target
  · rw [show ({ w with session, history := earlier target w.history } : Work).currentPromptIndex =
      w.currentPromptIndex from rfl, hcurrent] at hn
    cases hn

theorem handOver (h : Tracked root w) (hpos : 1 ≤ target)
    (hfolds : w.Folds (.rewind .conversationOnly target)) :
    AllMatch root (mergeRewindPointsFrom w.session.points target)
        (Epochs.handOver target w.history) ∧
      Linked (Epochs.handOver target w.history) w.session.disk ∧
      Ordered (Epochs.handOver target w.history) ∧
      ∀ e ∈ Epochs.handOver target w.history, e.index < target := by
  have hearlier := h.points.earlier target
  have hsince := h.points.since target
  have hlinked := h.linked
  rw [h.ordered.split target] at hlinked
  have hmerge : mergeRewindPointsFrom w.session.points target =
      (truncateFrom target w.session.points).map fun p =>
        if p.promptIndex = target - 1 then
          (w.session.points.filter (target ≤ ·.promptIndex)).foldl RewindPoint.fold p
        else p := if_neg (by omega)
  by_cases hpoint : ∃ e ∈ w.history, e.index + 1 = target
  · obtain ⟨e, he, hindex⟩ := hpoint
    obtain ⟨es, hsplit⟩ := h.ordered.split_before he hindex
    have hhand := h.ordered.handOver_last hindex hsplit
    have hord := h.ordered.earlier target
    rw [hsplit] at hearlier hlinked hord
    rw [append_assoc] at hlinked
    obtain ⟨ps, p, hps, hall, hmatch⟩ := hearlier.last
    have hapart : ∀ q ∈ ps, ¬ q.promptIndex = target - 1 := by
      intro q hq
      have hlt := hall.index_lt hord.apart q hq
      omega
    have hp : p.promptIndex = target - 1 := by
      rw [hmatch.index]
      omega
    rw [hhand, hmerge, hps, map_append, map_ite_of_not hapart, map_singleton, if_pos hp]
    refine ⟨hall.snoc (hmatch.takeOver hsince (linked_append.mp hlinked).2), hlinked.takeOver,
      hord.congr (by simp), ?_⟩
    intro e' he'
    rcases mem_append.mp he' with he' | he'
    · have hlt := hord.apart e' he'
      omega
    · rw [mem_singleton.mp he']
      show e.index < target
      omega
  · -- nothing was written from the target on
    have hnopoint : ∀ p ∈ w.session.points, p.promptIndex + 1 ≠ target := by
      intro p hp hindex
      obtain ⟨e, he, heq⟩ := h.points.exists_epoch hp
      exact hpoint ⟨e, he, by omega⟩
    have hwritten : writtenIn (since target w.history) = [] := by
      apply eq_nil_iff_forall_not_mem.mpr
      intro file hfile
      obtain ⟨p, hp, path, hkey, -⟩ := hsince.captured hfile
      obtain ⟨hmem, hle⟩ := mem_filter.mp hp
      rcases hfolds with ⟨q, hq, hindex⟩ | hempty
      · exact hnopoint q hq hindex
      · rw [hempty p hmem (by simpa using hle)] at hkey
        cases hkey
    have hhand : Epochs.handOver target w.history = earlier target w.history := by
      unfold Epochs.handOver
      rw [if_neg]
      · split
        · rfl
        · exact if_pos hwritten
      · rintro ⟨e, he, hindex⟩
        exact hpoint ⟨e, mem_of_mem_filter he, by omega⟩
    have hsame : mergeRewindPointsFrom w.session.points target =
        truncateFrom target w.session.points := by
      rw [hmerge]
      apply map_ite_of_not
      intro p hp hindex
      exact hnopoint p (mem_of_mem_filter hp) (by omega)
    rw [hhand, hsame]
    refine ⟨hearlier, ?_, h.ordered.earlier target, ?_⟩
    · obtain ⟨hkept, hlater⟩ := linked_append.mp hlinked
      have hsame : stateFrom (since target w.history) w.session.disk = w.session.disk := by
        funext file
        exact hlater.unchanged (by simp [hwritten])
      rwa [hsame] at hkept
    · intro e he
      simpa using (mem_filter.mp he).2

/-! ### Rewinds -/

theorem past_eq (h : Tracked root w) (target : Nat) :
    w.past target = stateFrom (since target w.history) w.session.disk := by
  funext file
  unfold Work.past
  split
  · rfl
  · rename_i hnot
    exact ((h.linked.since h.ordered target).unchanged hnot).symm

/-- A rewind of the files goes back, one of the conversation hands over, and
one that is refused leaves the session. -/
theorem handleRewind_cases (h : Tracked env.root w) (hok : env.NoErrors) {mode : RewindMode}
    {session : Session} {response : Except Text RewindResponse}
    (hrewind : w.session.handleRewind env ⟨target, true, mode⟩ = (session, response)) :
    (Succeeded response = false ∧ session = w.session ∧ mode ≠ .filesOnly ∧
      w.session.chat.promptIndex ≤ target) ∨
    (Succeeded response = true ∧ mode.wantsFileRevert = true ∧
      session.points = truncateFrom target w.session.points ∧
      session.disk = stateFrom (since target w.history) w.session.disk ∧
      (session.chat.promptIndex = w.session.chat.promptIndex ∨ session.chat.promptIndex = target)) ∨
    (Succeeded response = true ∧ mode = .conversationOnly ∧
      session.points = mergeRewindPointsFrom w.session.points target ∧
      session.disk = w.session.disk ∧ session.chat.promptIndex = target) := by
  have hone := (h.points.relativePoints.oneKey env.root target).perm
    (env.order_perm (filesToRevert w.session.points target))
  have hdisk : (revertFiles env.root env.faults w.session.disk
      (env.order (filesToRevert w.session.points target))).2 =
      stateFrom (since target w.history) w.session.disk := by
    rw [revertFiles_eq env.faults hone]
    exact attemptAll_goBack hok h.points h.linked h.ordered (env.order_perm _)
  have hreplayed : ∃ replayed, w.session.replayed env target = .ok replayed := by
    unfold Session.replayed
    split
    · obtain ⟨result, hresult⟩ := hok.replay w.session.updates target
      exact ⟨some result, by rw [hresult]; rfl⟩
    · exact ⟨none, rfl⟩
  obtain ⟨replayed, hreplayed⟩ := hreplayed
  by_cases hrefused : mode ≠ .filesOnly ∧ w.session.chat.promptIndex ≤ target
  · unfold Session.handleRewind at hrewind
    rw [if_pos hrefused] at hrewind
    obtain ⟨rfl, rfl⟩ := Prod.mk.inj hrewind
    exact .inl ⟨rfl, rfl, hrefused⟩
  · cases mode with
    | filesOnly =>
      rw [handleRewind_filesOnly] at hrewind
      obtain ⟨rfl, rfl⟩ := Prod.mk.inj hrewind
      exact .inr (.inl ⟨rfl, rfl, rfl, hdisk, .inl rfl⟩)
    | all =>
      have hvalid : target < w.session.chat.promptIndex := by
        by_contra hnot
        exact hrefused ⟨by decide, by omega⟩
      have hall := handleRewind_all env w.session hvalid
      simp only [hrewind, hreplayed] at hall
      obtain ⟨rfl, r, rfl, hsuccess⟩ := hall
      exact .inr (.inl ⟨hsuccess, rfl, rfl, hdisk, .inr rfl⟩)
    | conversationOnly =>
      have hreplayed' : ∀ pending, Session.replayed env
          { w.session with rewindPendingPrompt := pending } target = .ok replayed :=
        fun _ => hreplayed
      unfold Session.handleRewind at hrewind
      rw [if_neg hrefused] at hrewind
      simp only [RewindMode.wantsFileRevert, Bool.false_eq_true, if_false, if_true,
        Session.commitRewind, RewindMode.wantsConversationRewind, Session.rewindConversation,
        hreplayed'] at hrewind
      obtain ⟨rfl, rfl⟩ := Prod.mk.inj hrewind
      exact .inr (.inr ⟨rfl, rfl, rfl, rfl, rfl⟩)

theorem rewind (h : Tracked env.root w) (hok : env.NoErrors) {mode : RewindMode}
    (hcurrent : w.currentPromptIndex = none) (hpos : mode = .conversationOnly → 1 ≤ target)
    (hfolds : w.Folds (.rewind mode target)) : Tracked env.root (w.rewind env mode target) := by
  unfold Work.rewind
  rcases hrewind : w.session.handleRewind env ⟨target, true, mode⟩ with ⟨session, response⟩
  rcases h.handleRewind_cases hok hrewind with ⟨hfailed, rfl, -⟩ | ⟨hdone, hmode, hpoints, hdisk, hchat⟩ |
    ⟨hdone, rfl, hpoints, hdisk, hchat⟩
  · simp only [hfailed, Bool.false_eq_true, if_false]
    exact h
  · have hbelow : ∀ e ∈ earlier target w.history, e.index < session.chat.promptIndex := by
      intro e he
      have hlt := h.below e (mem_of_mem_filter he)
      have htarget : e.index < target := by simpa using (mem_filter.mp he).2
      rcases hchat with hchat | hchat <;> omega
    have hback := h.goBack hpoints hdisk rfl hcurrent hbelow
    cases mode with
    | all => simpa only [hdone, if_true] using hback
    | filesOnly => simpa only [hdone, if_true] using hback
    | conversationOnly => cases hmode
  · obtain ⟨hall, hlinked, hord, hbelow⟩ := h.handOver (hpos rfl) hfolds
    simp only [hdone, if_true]
    refine ⟨hpoints ▸ hall, hdisk ▸ hlinked, hord, ?_, fun n hn => ?_⟩
    · rw [hchat]
      exact hbelow
    · rw [show ({ w with session, history := Epochs.handOver target w.history } : Work).currentPromptIndex
        = w.currentPromptIndex from rfl, hcurrent] at hn
      cases hn

/-! ### Runs -/

theorem step (h : Tracked env.root w) (hok : env.NoErrors) {event : Event}
    (hfolds : w.Folds event) (hstep : w.step env event = some w') : Tracked env.root w' := by
  cases event with
  | beginPrompt promptIndex =>
    obtain ⟨⟨-, hle⟩, rfl⟩ := ite_none_right_eq_some.mp hstep |>.imp_right some.inj
    exact h.beginPrompt hle
  | captureFileState file =>
    obtain rfl := some.inj hstep
    exact h.captureFileState file
  | write file content =>
    simp only [Work.step] at hstep
    split at hstep
    · rename_i n hn
      obtain ⟨hcaptured, rfl⟩ := ite_none_right_eq_some.mp hstep |>.imp_right some.inj
      exact h.write hn hcaptured content
    · cases hstep
  | endPrompt =>
    obtain ⟨n, -, rfl⟩ := map_eq_some_iff.mp hstep
    exact h.endPrompt n
  | rewind mode target =>
    obtain ⟨⟨hcurrent, hpos⟩, rfl⟩ :=
      ite_none_right_eq_some.mp hstep |>.imp_right some.inj
    exact h.rewind hok hcurrent hpos hfolds

theorem run (h : Tracked env.root w) (hok : env.NoErrors) {events : List Event}
    (hfolds : w.FoldsAll env events) (hrun : w.run env events = some w') :
    Tracked env.root w' := by
  induction events generalizing w with
  | nil => exact some.inj hrun ▸ h
  | cons event events ih =>
    obtain ⟨next, hstep, hrest⟩ := bind_eq_some_iff.mp hrun
    exact ih (h.step hok hfolds.1 hstep) (hfolds.2 next hstep) hrest

theorem start (root : Text) (disk : Disk) (chat : ChatState) :
    Tracked root (Work.start disk chat) := by
  refine ⟨.nil, trivial, .nil, ?_, ?_⟩
  · intro e he
    cases he
  · intro n hn
    cases hn

theorem restoresPast (h : Tracked env.root w) (hok : env.NoErrors) : w.RestoresPast env := by
  intro target
  refine ⟨fun mode hmode hdone => ?_, fun files hperm => ?_⟩
  · rw [h.past_eq]
    rcases hrewind : w.session.handleRewind env ⟨target, true, mode⟩ with ⟨session, response⟩
    rw [hrewind] at hdone
    rcases h.handleRewind_cases hok hrewind with ⟨hfailed, -⟩ | ⟨-, -, -, hdisk, -⟩ |
      ⟨-, rfl, -⟩
    · rw [hfailed] at hdone
      cases hdone
    · exact hdisk
    · cases hmode
  · have hone := (h.points.relativePoints.oneKey env.root target).perm hperm
    rw [h.past_eq]
    unfold rewindFiles
    rw [rewindLoop_eq env.faults hone]
    exact attemptAll_goBack hok h.points h.linked h.ordered hperm

end Tracked

/-- In every run whose conversation rewinds find the point to fold into, each
rewind of the files restores the past. -/
theorem run_restoresPast (env : RewindEnv) (hok : env.NoErrors) (disk : Disk) (chat : ChatState)
    (events : List Event) (w : Work) (hrun : (Work.start disk chat).run env events = some w)
    (hfolds : (Work.start disk chat).FoldsAll env events) : w.RestoresPast env :=
  ((Tracked.start env.root disk chat).run hok hfolds hrun).restoresPast hok

/-! A conversation rewind to a prompt whose predecessor was dropped. -/

namespace LostFold

def env : RewindEnv where
  root := "/w".toList
  faults := { write := fun _ => false, delete := fun _ => false }
  order := fun files => files
  replay := fun _ _ => .ok ⟨[], 0, none, none⟩
  order_perm := inOrder_perm

theorem noErrors : env.NoErrors := ⟨fun _ => rfl, fun _ => rfl, fun _ _ => ⟨_, rfl⟩⟩

def emptyDisk : Disk := fun _ => none

def chat : ChatState where
  conversation := []
  promptIndex := 0
  promptTexts := []
  lastCompactionPromptIndex := none

def file : Text := "/w/new.rs".toList

def prompt (promptIndex : Nat) (inner : List Event) : List Event :=
  .beginPrompt promptIndex :: inner ++ [.endPrompt]

def edit : List Event := [.captureFileState file, .write file (some "fn main() {}".toList)]

/-- The point of prompt 1 goes with the files, and prompt 2 is to fold into it. -/
def events : List Event :=
  prompt 0 [] ++ prompt 1 [] ++ [.rewind .filesOnly 1] ++ prompt 2 edit ++
    [.rewind .conversationOnly 2]

theorem runs : ((Work.start emptyDisk chat).run env events).isSome = true := by decide

def work : Work := ((Work.start emptyDisk chat).run env events).get runs

end LostFold

/-- The file that prompt 2 created stays, whatever is rewound. -/
theorem lostFold_stays :
    ¬ ∀ (env : RewindEnv), env.NoErrors → ∀ (disk : Disk) (chat : ChatState)
      (events : List Event) (w : Work), (Work.start disk chat).run env events = some w →
      w.RestoresPast env := by
  intro h
  have hpast := h LostFold.env LostFold.noErrors LostFold.emptyDisk LostFold.chat LostFold.events
    LostFold.work (some_get LostFold.runs).symm
  have hfile := congrFun ((hpast 0).1 .filesOnly rfl (by decide)) LostFold.file
  exact absurd hfile (by decide)

/-- A conversation rewind to prompt 1 folds its edit into prompt 0. -/
def foldedEdit : List Event :=
  LostFold.prompt 0 [] ++ LostFold.prompt 1 LostFold.edit ++ [.rewind .conversationOnly 1]

theorem run_restoresPast_foldedEdit :
    ∃ w, (Work.start LostFold.emptyDisk LostFold.chat).run LostFold.env foldedEdit = some w ∧
      w.RestoresPast LostFold.env := by
  have hsome : ((Work.start LostFold.emptyDisk LostFold.chat).run LostFold.env
      foldedEdit).isSome = true := by
    decide
  have hfolds : (Work.start LostFold.emptyDisk LostFold.chat).FoldsAll LostFold.env foldedEdit := by
    decide
  exact ⟨_, (some_get hsome).symm, run_restoresPast LostFold.env LostFold.noErrors
    LostFold.emptyDisk LostFold.chat _ _ (some_get hsome).symm hfolds⟩

end GrokBuild.Rewind
