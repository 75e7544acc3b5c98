import GrokBuild.Rewind.Session

/-!
# Rewind: what a rewind leaves

The two implementations of a file rewind are compared where writes and
deletes fail, and a session's rewind is checked for being all or nothing. In
both, what goes wrong is a file operation or a replay that fails after files
were already changed.
-/

namespace GrokBuild.Rewind

open TextLines Assoc ChatHistory List

/-! ## The two file rewinds -/

/-- A forced `handle_rewind` of the files and `rewind_files` tell and leave the
same. -/
structure FileRewindsAgree (root : Text) (points : Points) (target : Nat)
    (session : Session) (response : RewindResponse) (workspace : FileRewind × Points) :
    Prop where
  reverted : response.revertedFiles.Perm workspace.1.revertedFiles
  /-- Exactly the files that have their before-content are reported. -/
  restored : ∀ path, path ∈ response.revertedFiles ↔
    ∃ content, (path, content) ∈ filesToRevert points target ∧
      session.disk (path.toAbsolute root) = content
  restored' : ∀ path, path ∈ workspace.1.revertedFiles ↔
    ∃ content, (path, content) ∈ filesToRevert points target ∧
      workspace.1.disk (path.toAbsolute root) = content
  conflicts : response.conflicts.Perm workspace.1.conflicts
  kept : session.points = workspace.2
  /-- What could not be restored is kept for a retry. -/
  retry : ∀ e ∈ filesToRevert points target, session.disk (e.1.toAbsolute root) ≠ e.2 →
    e ∈ filesToRevert session.points target

theorem preview_perm {root : Text} {points : Points} {disk : Disk} {files files' : Snapshots}
    (h : files.Perm files') :
    (preview root points disk files).2.Perm (preview root points disk files').2 := by
  have hfilter : ∀ files : Snapshots, (preview root points disk files).2 =
      files.filterMap fun e =>
        (conflictOf (disk (e.1.toAbsolute root)) (afterContent points e.1)).map (⟨e.1, ·⟩) := by
    intro files
    induction files with
    | nil => rfl
    | cons e files ih =>
      unfold preview
      rw [filterMap_cons, ← ih]
      cases conflictOf (disk (e.1.toAbsolute root)) (afterContent points e.1) <;> rfl
  rw [hfilter, hfilter]
  exact h.filterMap _

theorem handleRewind_filesOnly (env : RewindEnv) (s : Session) (target : Nat) :
    s.handleRewind env ⟨target, true, .filesOnly⟩ =
      let files := env.order (filesToRevert s.points target)
      let (revertedFiles, disk) := revertFiles env.root env.faults s.disk files
      ({ s with disk, points := truncateFrom target s.points }, .ok
        { success := true
          targetPromptIndex := target
          mode := .filesOnly
          revertedFiles
          cleanFiles := []
          conflicts := (preview env.root s.points s.disk files).2
          promptText := none
          error := none }) := rfl

theorem filesToRevert_truncateFrom (points : Points) (target : Nat) :
    filesToRevert (truncateFrom target points) target = [] := by
  have hnone : (truncateFrom target points).filter (target ≤ ·.promptIndex) = [] := by
    simp [truncateFrom, List.filter_filter]
  unfold filesToRevert
  rw [hnone]
  rfl

/-- The two agree exactly where no write or delete that they try fails. -/
theorem fileRewinds_agree (env : RewindEnv) (s : Session) (target : Nat) (files : Snapshots)
    (hfiles : files.Perm (filesToRevert s.points target))
    (hone : OneKey env.root (filesToRevert s.points target)) :
    (∃ session response, s.handleRewind env ⟨target, true, .filesOnly⟩ = (session, .ok response) ∧
      FileRewindsAgree env.root s.points target session response
        (rewindFiles env.root env.faults s.points s.disk target files)) ↔
      ∀ e ∈ filesToRevert s.points target, ¬ Fails env.root env.faults s.disk e := by
  have horder := env.order_perm (filesToRevert s.points target)
  have hloop := rewindLoop_eq env.faults (hone.perm hfiles) s.points ⟨s.disk, [], [], [], false⟩
  have hreverted := revertFiles_eq env.faults (hone.perm horder) s.disk
  constructor
  · rintro ⟨session, response, hhandled, hagree⟩ e he hfails
    have hpoints := hagree.kept
    rw [handleRewind_filesOnly] at hhandled
    simp only [Prod.mk.injEq] at hhandled
    rw [← hhandled.1] at hpoints
    have herrors : (files.any fun e => Fails env.root env.faults s.disk e) = true :=
      List.any_eq_true.mpr ⟨e, hfiles.mem_iff.mpr he, by simpa using hfails⟩
    simp only [rewindFiles, hloop, herrors, Bool.or_true, if_true] at hpoints
    -- the workspace kept the points, the session did not
    have hgone := filesToRevert_truncateFrom s.points target
    rw [hpoints] at hgone
    rw [hgone] at he
    cases he
  · intro hok
    have hall : ∀ {files' : Snapshots}, files'.Perm (filesToRevert s.points target) →
        ∀ e ∈ files', ¬ Fails env.root env.faults s.disk e :=
      fun hperm e he => hok e (hperm.mem_iff.mp he)
    have hdisk : ∀ {files' : Snapshots}, files'.Perm (filesToRevert s.points target) →
        ∀ e ∈ files', attemptAll env.faults env.root s.disk files' (e.1.toAbsolute env.root) =
          e.2 := by
      intro files' hperm e he
      rw [attemptAll_of_mem env.faults (hone.perm hperm) s.disk he, if_neg (hall hperm e he)]
    have hmem : ∀ {files' : Snapshots}, files'.Perm (filesToRevert s.points target) →
        ∀ path, path ∈ files'.map (·.1) ↔
          ∃ content, (path, content) ∈ filesToRevert s.points target ∧
            attemptAll env.faults env.root s.disk files' (path.toAbsolute env.root) = content := by
      intro files' hperm path
      constructor
      · intro hpath
        obtain ⟨e, he, rfl⟩ := List.mem_map.mp hpath
        exact ⟨e.2, hperm.mem_iff.mp he, hdisk hperm e he⟩
      · rintro ⟨content, he, -⟩
        exact List.mem_map.mpr ⟨_, hperm.mem_iff.mpr he, rfl⟩
    have hnone : (files.any fun e => Fails env.root env.faults s.disk e) = false := by
      simpa using hall hfiles
    have hfilter : (files.filter fun e => ¬ Fails env.root env.faults s.disk e) = files :=
      filter_eq_self.mpr fun e he => by simpa using hall hfiles e he
    have hfilter' : ((env.order (filesToRevert s.points target)).filter fun e =>
        e.2 = none ∨ ¬ Fails env.root env.faults s.disk e) =
        env.order (filesToRevert s.points target) :=
      filter_eq_self.mpr fun e he => by simp [hall horder e he]
    rw [handleRewind_filesOnly]
    simp only [hreverted, hfilter', rewindFiles, hloop, hfilter, hnone, Bool.or_self,
      nil_append]
    refine ⟨_, _, rfl, (horder.trans hfiles.symm).map _, hmem horder, hmem hfiles,
      preview_perm (horder.trans hfiles.symm), rfl, ?_⟩
    intro e he hne
    exact absurd (hdisk horder e (horder.mem_iff.mpr he)) hne

/-! A file that the agent created, and that cannot be deleted. -/

namespace FailedDelete

def created : FlexiblePath := .relative "new.rs".toList

def env : RewindEnv where
  root := "/w".toList
  faults := { write := fun _ => false, delete := fun _ => true }
  order := fun files => files
  replay := fun _ _ => .error (.failed [])
  order_perm := inOrder_perm

def session : Session where
  disk := fun _ => some "fn main() {}".toList
  points := [{ promptIndex := 0, fileSnapshots := [(created, none)], afterSnapshots := [] }]
  chat :=
    { conversation := []
      promptIndex := 1
      promptTexts := []
      lastCompactionPromptIndex := none }
  updates := []
  rewindPendingPrompt := none

theorem oneKey : OneKey env.root (filesToRevert session.points 0) := nodup_singleton _

end FailedDelete

/-- Told that the file is reverted, the session drops its snapshot. -/
theorem failedDelete_disagrees :
    ¬ ∀ (env : RewindEnv) (s : Session) (target : Nat) (files : Snapshots),
      files.Perm (filesToRevert s.points target) →
      ∃ session response,
        s.handleRewind env ⟨target, true, .filesOnly⟩ = (session, .ok response) ∧
        FileRewindsAgree env.root s.points target session response
          (rewindFiles env.root env.faults s.points s.disk target files) := by
  intro h
  obtain ⟨session, response, hhandled, hagree⟩ :=
    h FailedDelete.env FailedDelete.session 0 [(FailedDelete.created, none)] (.refl _)
  rw [handleRewind_filesOnly] at hhandled
  obtain ⟨rfl, hresponse⟩ := Prod.mk.inj hhandled
  obtain rfl := Except.ok.inj hresponse
  have hlength := hagree.reverted.length_eq
  exact absurd hlength (by decide)

theorem fileRewinds_agree_failedDelete :
    ¬ ∃ session response,
      FailedDelete.session.handleRewind FailedDelete.env ⟨0, true, .filesOnly⟩ =
        (session, .ok response) ∧
      FileRewindsAgree FailedDelete.env.root FailedDelete.session.points 0 session response
        (rewindFiles FailedDelete.env.root FailedDelete.env.faults FailedDelete.session.points
          FailedDelete.session.disk 0 [(FailedDelete.created, none)]) := by
  rw [fileRewinds_agree FailedDelete.env FailedDelete.session 0 [(FailedDelete.created, none)]
    (.refl _) FailedDelete.oneKey]
  intro hok
  exact hok (FailedDelete.created, none) (.head _) ⟨nofun, rfl⟩

/-! ## All or nothing -/

/-- Nothing of the four stores has changed. -/
def Unchanged (s s' : Session) : Prop :=
  s'.disk = s.disk ∧ s'.chat = s.chat ∧ s'.updates = s.updates ∧ s'.points = s.points

/-- The files are as they were when the target prompt began. -/
def FilesRewound (root : Text) (s s' : Session) (target : Nat) : Prop :=
  ∀ e ∈ filesToRevert s.points target, s'.disk (e.1.toAbsolute root) = e.2

/-- The conversation is at the target, by the replay where one is needed. -/
def ConversationRewound (env : RewindEnv) (s s' : Session) (target : Nat) : Prop :=
  ∃ replayed, s.replayed env target = .ok replayed ∧ s'.chat = s.rewoundChat replayed target ∧
    s'.updates = s.updates ++ [.rewindMarker target]

/-- A reported failure changed nothing, and a full rewind rewound both. -/
def AllOrNothing (env : RewindEnv) (s : Session) (request : RewindRequest) : Prop :=
  match s.handleRewind env request with
  | (s', .ok response) =>
    (response.success = false → Unchanged s s') ∧
    (response.success = true → request.mode = .all →
      FilesRewound env.root s s' request.targetPromptIndex ∧
        ConversationRewound env s s' request.targetPromptIndex)
  | (_, .error _) => True

/-- Where a full rewind goes through: the replay is there and every file that
differs can be restored, or the replay is not there and none can. -/
def GoesThrough (env : RewindEnv) (s : Session) (request : RewindRequest) : Prop :=
  request.mode = .all → request.force = true →
    request.targetPromptIndex < s.chat.promptIndex →
    match s.replayed env request.targetPromptIndex with
    | .ok _ => ∀ e ∈ filesToRevert s.points request.targetPromptIndex,
        s.disk (e.1.toAbsolute env.root) ≠ e.2 → ¬ Fails env.root env.faults s.disk e
    | .error (.failed _) => ∀ e ∈ filesToRevert s.points request.targetPromptIndex,
        s.disk (e.1.toAbsolute env.root) ≠ e.2 → Fails env.root env.faults s.disk e
    | .error (.panicked _) => True

theorem handleRewind_all (env : RewindEnv) (s : Session) {target : Nat}
    (hvalid : target < s.chat.promptIndex) :
    let files := env.order (filesToRevert s.points target)
    let disk := (revertFiles env.root env.faults s.disk files).2
    let pending := { s with disk, rewindPendingPrompt := s.chat.promptTexts[target]? }
    let (s', response) := s.handleRewind env ⟨target, true, .all⟩
    match s.replayed env target with
    | .ok replayed =>
      s' = { pending with
        chat := s.rewoundChat replayed target
        updates := s.updates ++ [.rewindMarker target]
        points := truncateFrom target s.points } ∧
      ∃ r, response = .ok r ∧ r.success = true
    | .error (.failed _) => s' = pending ∧ ∃ r, response = .ok r ∧ r.success = false
    | .error (.panicked _) => ∃ error, response = .error error := by
  intro files disk pending
  have hreplayed : ∀ disk pending, Session.replayed env
      { s with disk, rewindPendingPrompt := pending } target = s.replayed env target :=
    fun _ _ => rfl
  unfold Session.handleRewind
  rw [if_neg (by simp [hvalid])]
  simp only [RewindMode.wantsFileRevert, if_true, Session.commitRewind,
    RewindMode.wantsConversationRewind, Session.rewindConversation, hreplayed]
  cases s.replayed env target with
  | ok replayed => exact ⟨rfl, _, rfl, rfl⟩
  | error failure =>
    cases failure with
    | failed error => exact ⟨rfl, _, rfl, rfl⟩
    | panicked error => exact ⟨_, rfl⟩

theorem allOrNothing_of_partial (env : RewindEnv) (s : Session) {request : RewindRequest}
    (h : ¬ (request.mode = .all ∧ request.force = true ∧
      request.targetPromptIndex < s.chat.promptIndex)) : AllOrNothing env s request := by
  obtain ⟨target, force, mode⟩ := request
  have hunchanged : Unchanged s s := ⟨rfl, rfl, rfl, rfl⟩
  unfold AllOrNothing Session.handleRewind
  by_cases hrefused : mode ≠ .filesOnly ∧ s.chat.promptIndex ≤ target
  · rw [if_pos hrefused]
    exact ⟨fun _ => hunchanged, fun hsuccess => (by cases hsuccess)⟩
  · rw [if_neg hrefused]
    cases force with
    | false => exact ⟨fun _ => hunchanged, fun hsuccess => (by cases hsuccess)⟩
    | true =>
      cases mode with
      | filesOnly =>
        exact ⟨fun hfailure => (by cases hfailure), fun _ hmode => (by cases hmode)⟩
      | all =>
        have hvalid : target < s.chat.promptIndex := by
          by_contra hnot
          exact hrefused ⟨by decide, by omega⟩
        exact absurd ⟨rfl, rfl, hvalid⟩ h
      | conversationOnly =>
        -- a replay that fails is met before anything but the pending prompt is set
        have hreplayed : ∀ pending, Session.replayed env
            { s with rewindPendingPrompt := pending } target = s.replayed env target :=
          fun _ => rfl
        simp only [RewindMode.wantsFileRevert, Bool.false_eq_true, if_false, if_true,
          Session.commitRewind, RewindMode.wantsConversationRewind, Session.rewindConversation,
          hreplayed]
        cases s.replayed env target with
        | ok replayed =>
          exact ⟨fun hfailure => (by cases hfailure), fun _ hmode => (by cases hmode)⟩
        | error failure =>
          cases failure with
          | failed error =>
            exact ⟨fun _ => ⟨rfl, rfl, rfl, rfl⟩, fun hsuccess => (by cases hsuccess)⟩
          | panicked error => exact trivial

/-- A rewind is all or nothing exactly where it goes through. -/
theorem allOrNothing_iff (env : RewindEnv) (s : Session) (request : RewindRequest)
    (hone : OneKey env.root (filesToRevert s.points request.targetPromptIndex)) :
    AllOrNothing env s request ↔ GoesThrough env s request := by
  by_cases hall : request.mode = .all ∧ request.force = true ∧
      request.targetPromptIndex < s.chat.promptIndex
  · obtain ⟨target, force, mode⟩ := request
    obtain ⟨rfl, rfl, hvalid⟩ := hall
    have horder := env.order_perm (filesToRevert s.points target)
    have hone := hone.perm horder
    have hfiles : ∀ {P : FlexiblePath × Option Text → Prop},
        (∀ e ∈ env.order (filesToRevert s.points target), P e) ↔
          ∀ e ∈ filesToRevert s.points target, P e :=
      fun {P} => forall_congr' fun e => by rw [horder.mem_iff]
    have hrewind := handleRewind_all env s hvalid
    unfold AllOrNothing GoesThrough
    simp only [revertFiles_eq env.faults hone s.disk] at hrewind
    generalize s.handleRewind env ⟨target, true, .all⟩ = rewound at hrewind
    obtain ⟨s', response⟩ := rewound
    simp only [hvalid, true_imp_iff]
    cases hreplay : s.replayed env target with
    | ok replayed =>
      simp only [hreplay] at hrewind
      obtain ⟨rfl, r, rfl, hsuccess⟩ := hrewind
      have hrestored := attemptAll_restores_iff env.faults hone s.disk
      rw [hfiles, hfiles] at hrestored
      refine Iff.trans ?_ hrestored
      constructor
      · exact fun h => (h.2 hsuccess).1
      · intro hfilesRewound
        refine ⟨fun hfailure => ?_, fun _ => ⟨hfilesRewound, replayed, hreplay, rfl, rfl⟩⟩
        rw [hsuccess] at hfailure
        cases hfailure
    | error failure =>
      cases failure with
      | failed error =>
        simp only [hreplay] at hrewind
        obtain ⟨rfl, r, rfl, hfailure⟩ := hrewind
        have hsame := attemptAll_unchanged_iff env.faults hone s.disk
        rw [hfiles] at hsame
        refine Iff.trans ?_ hsame
        constructor
        · exact fun h => (h.1 hfailure).1
        · intro hdisk
          refine ⟨fun _ => ⟨hdisk, rfl, rfl, rfl⟩, fun hsuccess => ?_⟩
          rw [hfailure] at hsuccess
          cases hsuccess
      | panicked error =>
        simp only [hreplay] at hrewind
        obtain ⟨error', rfl⟩ := hrewind
        exact ⟨fun _ => trivial, fun _ => trivial⟩
  · constructor
    · intro _ hmode hforce hvalid
      exact absurd ⟨hmode, hforce, hvalid⟩ hall
    · exact fun _ => allOrNothing_of_partial env s hall

/-! A session after a compaction whose checkpoint is gone. -/

namespace LostCheckpoint

def env : RewindEnv where
  root := "/w".toList
  faults := { write := fun _ => false, delete := fun _ => false }
  order := fun files => files
  replay := fun _ _ => .error (.failed "Compaction checkpoint file missing".toList)
  order_perm := inOrder_perm

def session : Session :=
  { FailedDelete.session with
    chat :=
      { conversation := []
        promptIndex := 1
        promptTexts := []
        lastCompactionPromptIndex := some 1 } }

def request : RewindRequest := ⟨0, true, .all⟩

end LostCheckpoint

/-- The files are rewound, and then the rewind is reported as failed. -/
theorem lostCheckpoint_halfway :
    ¬ ∀ (env : RewindEnv) (s : Session) (request : RewindRequest), AllOrNothing env s request := by
  intro h
  have hboth := h LostCheckpoint.env LostCheckpoint.session LostCheckpoint.request
  have hfailed := (hboth.1 rfl).1
  have hfile := congrFun hfailed "/w/new.rs".toList
  exact absurd hfile (by decide)

theorem allOrNothing_iff_lostCheckpoint :
    ¬ AllOrNothing LostCheckpoint.env LostCheckpoint.session LostCheckpoint.request := by
  rw [allOrNothing_iff LostCheckpoint.env LostCheckpoint.session LostCheckpoint.request
    FailedDelete.oneKey]
  intro hthrough
  have hall := hthrough rfl rfl (by decide)
  have hdelete := hall (FailedDelete.created, none) (.head _) nofun
  exact absurd hdelete.2 (by decide)

end GrokBuild.Rewind
