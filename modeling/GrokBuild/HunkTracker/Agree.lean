import GrokBuild.HunkTracker.Notices

/-!
# Hunk tracker: agreement up to hunks

Two actors that differ in nothing but hunks, ids, events and statistics
(`Agree`) stay so under every command that does not act on hunks, and
operations on different paths may change places (`ActsAt.swap`).
-/

namespace GrokBuild.HunkTracker

open TextLines Str EditScript List

namespace Actor

/-- The same actor, but for hunks and their ids, the event stream and the
statistics. -/
structure Agree (a b : Actor) : Prop where
  bareFile : ∀ p, b.bareFile p = a.bareFile p
  workingDir : b.workingDir = a.workingDir
  mode : b.mode = a.mode
  gitDirtyCache : b.gitDirtyCache = a.gitDirtyCache
  gitStagedCache : b.gitStagedCache = a.gitStagedCache
  repoSyncState : b.repoSyncState = a.repoSyncState
  gitRepoState : b.gitRepoState = a.gitRepoState

namespace Agree

variable {D : LineDiff} {env : Env} {a b c a' b' : Actor} {p : PathBuf}
  {st st' : FileHunkState}

theorem refl (a : Actor) : Agree a a := ⟨fun _ => rfl, rfl, rfl, rfl, rfl, rfl, rfl⟩

theorem symm (h : Agree a b) : Agree b a where
  bareFile p := (h.bareFile p).symm
  workingDir := h.workingDir.symm
  mode := h.mode.symm
  gitDirtyCache := h.gitDirtyCache.symm
  gitStagedCache := h.gitStagedCache.symm
  repoSyncState := h.repoSyncState.symm
  gitRepoState := h.gitRepoState.symm

theorem trans (h : Agree a b) (h' : Agree b c) : Agree a c where
  bareFile p := (h'.bareFile p).trans (h.bareFile p)
  workingDir := h'.workingDir.trans h.workingDir
  mode := h'.mode.trans h.mode
  gitDirtyCache := h'.gitDirtyCache.trans h.gitDirtyCache
  gitStagedCache := h'.gitStagedCache.trans h.gitStagedCache
  repoSyncState := h'.repoSyncState.trans h.repoSyncState
  gitRepoState := h'.gitRepoState.trans h.gitRepoState

theorem observed (h : Agree a b) (p : PathBuf) : b.observed p = a.observed p := by
  have hview : ∀ c : Actor, c.observed p =
      (c.bareFile p).map fun st => (st.currentContent, st.isAgentFile) := by
    intro c
    rw [Actor.observed, Actor.bareFile, Option.map_map]
    rfl
  rw [hview, hview, h.bareFile]

theorem isDirty (h : Agree a b) (q : PathBuf) : b.isDirty q = a.isDirty q := by
  unfold Actor.isDirty Actor.relative
  rw [h.gitDirtyCache, h.workingDir]

theorem headContent (h : Agree a b) (q : PathBuf) :
    b.headContent env q = a.headContent env q := by
  unfold Actor.headContent
  rw [Local.git_congr env h.gitRepoState]

theorem view (h : Agree a b) : SameView env a b := ⟨h.mode, h.isDirty, h.headContent⟩

theorem file_none (h : Agree a b) (hf : a.file p = none) : b.file p = none := by
  have hb := h.bareFile p
  rw [Actor.bareFile, Actor.bareFile, hf] at hb
  exact Option.map_eq_none_iff.mp hb

theorem file_some (h : Agree a b) (hf : a.file p = some st) :
    ∃ st', b.file p = some st' ∧ st'.bare = st.bare := by
  have hb := h.bareFile p
  rw [Actor.bareFile, Actor.bareFile, hf] at hb
  exact Option.map_eq_some_iff.mp hb

theorem of_local (h : Agree a b) (ha : Local env p a a') (hb : Local env p b b')
    (hp : b'.bareFile p = a'.bareFile p) (hg : b'.gitRepoState = a'.gitRepoState) :
    Agree a' b' where
  bareFile q := by
    by_cases hq : q = p
    · rw [hq, hp]
    · have hq' := h.bareFile q
      rw [Actor.bareFile, Actor.bareFile] at hq' ⊢
      rw [ha.file q hq, hb.file q hq, hq']
  workingDir := hb.workingDir.trans (h.workingDir.trans ha.workingDir.symm)
  mode := hb.mode.trans (h.mode.trans ha.mode.symm)
  gitDirtyCache := hb.gitDirtyCache.trans (h.gitDirtyCache.trans ha.gitDirtyCache.symm)
  gitStagedCache := hb.gitStagedCache.trans (h.gitStagedCache.trans ha.gitStagedCache.symm)
  repoSyncState := hb.repoSyncState.trans (h.repoSyncState.trans ha.repoSyncState.symm)
  gitRepoState := hg

theorem notice (h : Agree a b) (p : PathBuf) (n : Notice) :
    Agree (a.handleNotice D env p n) (b.handleNotice D env p n) := by
  apply h.of_local (Local.notice D env p a n) (Local.notice D env p b n)
  · rw [bareFile_handleNotice, bareFile_handleNotice, h.bareFile, noticeTo_congr h.view]
  · rw [gitRepoState_handleNotice, gitRepoState_handleNotice, h.bareFile,
      noticeReads_congr h.view, Local.git_congr env h.gitRepoState, h.gitRepoState]

theorem discover (h : Agree a b) (env : Env) : Agree (a.discover env) (b.discover env) := by
  apply h.of_local (Local.discover env [] a) (Local.discover env [] b)
  · have hb := h.bareFile []
    rw [Actor.bareFile, Actor.bareFile] at hb ⊢
    rw [file_discover, file_discover, hb]
  · exact Local.git_congr env h.gitRepoState

theorem setFile (h : Agree a b) (p : PathBuf) (hst : st'.bare = st.bare) :
    Agree (a.setFile p st) (b.setFile p st') := by
  apply h.of_local (Local.setFile Env.quiet p a st) (Local.setFile Env.quiet p b st')
  · rw [bareFile_setFile, bareFile_setFile, hst]
  · exact h.gitRepoState

theorem sendEvents (h : Agree a b) (es es' : List HunkEvent) :
    Agree (a.sendEvents es) (b.sendEvents es') :=
  ⟨h.bareFile, h.workingDir, h.mode, h.gitDirtyCache, h.gitStagedCache, h.repoSyncState,
    h.gitRepoState⟩

theorem unindex (h : Agree a b) (hs hs' : List Hunk) : Agree (a.unindex hs) (b.unindex hs') :=
  ⟨h.bareFile, h.workingDir, h.mode, h.gitDirtyCache, h.gitStagedCache, h.repoSyncState,
    h.gitRepoState⟩

theorem trackFile (h : Agree a b) (p : PathBuf) (st : FileHunkState) :
    Agree (a.trackFile p st) (b.trackFile p st) :=
  (h.setFile p rfl).sendEvents _ _

theorem recomputeHunks (h : Agree a b) (p : PathBuf) (current : Option FileContentState)
    (source : HunkSource) :
    Agree (a.recomputeHunks D env p current source) (b.recomputeHunks D env p current source) := by
  apply h.of_local (Local.recomputeHunks D env p a current source)
    (Local.recomputeHunks D env p b current source)
  · rw [bareFile_recomputeHunks, bareFile_recomputeHunks, h.bareFile]
  · rw [gitRepoState_recomputeHunks, gitRepoState_recomputeHunks, h.gitRepoState]

theorem takeBaseline (h : Agree a b) (env : Env) (p : PathBuf) (preloaded : Option FileContentState) :
    (b.takeBaseline env p preloaded).1 = (a.takeBaseline env p preloaded).1 ∧
      Agree (a.takeBaseline env p preloaded).2 (b.takeBaseline env p preloaded).2 := by
  cases preloaded with
  | none => exact ⟨h.headContent p, h.discover env⟩
  | some base => exact ⟨rfl, h⟩

/-! ### Commands -/

theorem bare_update (h : st'.bare = st.bare) (baseline current : FileContentState → FileContentState →
    FileContentState) (agent accepted : Bool → Bool) (hs hs' : List Hunk) :
    ({ baseline := baseline st'.baseline st'.currentContent
       currentContent := current st'.baseline st'.currentContent
       hunks := hs'
       isAgentFile := agent st'.isAgentFile
       baselineAccepted := accepted st'.baselineAccepted } : FileHunkState).bare =
    ({ baseline := baseline st.baseline st.currentContent
       currentContent := current st.baseline st.currentContent
       hunks := hs
       isAgentFile := agent st.isAgentFile
       baselineAccepted := accepted st.baselineAccepted } : FileHunkState).bare := by
  simp only [FileHunkState.bare, FileHunkState.mk.injEq] at h ⊢
  simp [h]

theorem recordOpaqueWrite (h : Agree a b) (p : PathBuf) (current : FileContentState)
    (previous : Option Text) :
    Agree (a.recordOpaqueWrite env p current previous)
      (b.recordOpaqueWrite env p current previous) := by
  unfold Actor.recordOpaqueWrite
  cases hf : a.file p with
  | none =>
    obtain ⟨hbase, hread⟩ := h.takeBaseline env p (previous.map classifyString)
    rw [h.file_none hf]
    dsimp only
    rw [hbase]
    exact hread.trackFile p _
  | some st =>
    obtain ⟨st', hf', hbare⟩ := h.file_some hf
    rw [hf']
    exact h.setFile p (bare_update hbare (fun x _ => x) (fun _ _ => current) (fun _ => true) id [] [])

theorem recordAgentWrite (h : Agree a b) (p : PathBuf) (content : Text) (promptIndex : Nat)
    (previous : Option Text) :
    Agree (a.recordAgentWrite D env p content promptIndex previous)
      (b.recordAgentWrite D env p content promptIndex previous) := by
  unfold Actor.recordAgentWrite
  dsimp only
  split
  · exact h.recordOpaqueWrite p _ previous
  · apply recomputeHunks
    cases hf : a.file p with
    | none =>
      obtain ⟨hbase, hread⟩ := h.takeBaseline env p none
      rw [h.file_none hf]
      exact hbase ▸ hread.trackFile p _
    | some st =>
      obtain ⟨st', hf', hbare⟩ := h.file_some hf
      rw [hf']
      exact h.setFile p (bare_update hbare (fun x _ => x) (fun _ y => y) (fun _ => true) id _ _)

theorem resetBaseline (h : Agree a b) (p : PathBuf) :
    Agree (a.resetBaseline p) (b.resetBaseline p) := by
  unfold Actor.resetBaseline
  cases hf : a.file p with
  | none =>
    rw [h.file_none hf]
    exact h
  | some st =>
    obtain ⟨st', hf', hbare⟩ := h.file_some hf
    rw [hf']
    exact ((h.setFile p (bare_update hbare (fun _ y => y) (fun _ y => y) id (fun _ => false) [] []))
      |>.unindex _ _).sendEvents _ _

theorem foldl_change (ps : List PathBuf) : ∀ {a b : Actor}, Agree a b →
    Agree (ps.foldl (fun a p => a.handleFileChange D env p) a)
      (ps.foldl (fun a p => a.handleFileChange D env p) b) := by
  induction ps with
  | nil => exact fun h => h
  | cons p ps ih => exact fun h => ih (h.notice p .changed)

theorem untrackedDirty (h : Agree a b) (dirty : List PathBuf) :
    b.untrackedDirty env dirty = a.untrackedDirty env dirty := by
  unfold Actor.untrackedDirty
  rw [h.workingDir]
  apply filter_congr
  intro p _
  cases hf : a.file p with
  | none => rw [h.file_none hf]
  | some st =>
    obtain ⟨st', hf', -⟩ := h.file_some hf
    rw [hf']
    rfl

theorem refreshGitDirtyCache (h : Agree a b) (scope : Option (List PathBuf)) :
    Agree (a.refreshGitDirtyCache D env scope) (b.refreshGitDirtyCache D env scope) := by
  have hd := h.discover env
  unfold Actor.refreshGitDirtyCache
  rw [h.gitRepoState]
  split
  · exact h
  · dsimp only
    rw [hd.gitRepoState, hd.mode, hd.untrackedDirty]
    split
    · apply foldl_change
      exact ⟨hd.bareFile, hd.workingDir, rfl, rfl, rfl, hd.repoSyncState, rfl⟩
    · exact ⟨hd.bareFile, hd.workingDir, rfl, rfl, rfl, hd.repoSyncState, rfl⟩

end Agree

/-! ### Switching the mode -/

theorem bareFile_untrack (a : Actor) (p q : PathBuf) :
    (a.untrack p).bareFile q = if q = p then none else a.bareFile q := by
  unfold untrack
  split
  · next hf =>
    split
    · next hq => rw [hq, bareFile, hf]; rfl
    · rfl
  · split
    · next hq => simp [hq, bareFile]
    · next hq => simp [bareFile, file_eraseFile_ne a hq]

theorem bareFile_foldl_untrack (ps : List PathBuf) (q : PathBuf) : ∀ a : Actor,
    (ps.foldl untrack a).bareFile q = if q ∈ ps then none else a.bareFile q := by
  induction ps with
  | nil => intro a; simp
  | cons p ps ih =>
    intro a
    rw [foldl_cons, ih, bareFile_untrack]
    by_cases hq : q = p <;> simp [hq]

/-- Everything an agreement is about, but the files. -/
def rest (a : Actor) :
    PathBuf × TrackingMode × List PathBuf × List PathBuf × RepoSyncState × GitRepoState :=
  (a.workingDir, a.mode, a.gitDirtyCache, a.gitStagedCache, a.repoSyncState, a.gitRepoState)

theorem rest_foldl_untrack (ps : List PathBuf) : ∀ a : Actor,
    (ps.foldl untrack a).rest = a.rest := by
  induction ps with
  | nil => exact fun _ => rfl
  | cons p ps ih =>
    intro a
    rw [foldl_cons, ih]
    unfold untrack
    split <;> rfl

namespace Agree

variable {D : LineDiff} {env : Env} {a b : Actor}

theorem rest (h : Agree a b) : b.rest = a.rest := by
  simp only [Actor.rest, h.workingDir, h.mode, h.gitDirtyCache, h.gitStagedCache,
    h.repoSyncState, h.gitRepoState]

theorem of_rest (hfile : ∀ p, b.bareFile p = a.bareFile p) (hrest : b.rest = a.rest) :
    Agree a b := by
  simp only [Actor.rest, Prod.mk.injEq] at hrest
  obtain ⟨h1, h2, h3, h4, h5, h6⟩ := hrest
  exact ⟨hfile, h1, h2, h3, h4, h5, h6⟩

theorem foldl_untrack (h : Agree a b) {ps qs : List PathBuf} (hpq : ∀ p, p ∈ qs ↔ p ∈ ps) :
    Agree (ps.foldl untrack a) (qs.foldl untrack b) := by
  apply of_rest
  · intro q
    simp only [bareFile_foldl_untrack, hpq, h.bareFile]
  · rw [rest_foldl_untrack, rest_foldl_untrack, h.rest]

theorem mem_nonAgent (a : Actor) (env : Env) (p : PathBuf) :
    p ∈ (env.order a.fileStates.keys).filter (fun p => (a.file p).any (!·.isAgentFile)) ↔
      (a.bareFile p).any (!·.isAgentFile) = true := by
  rw [mem_filter, (env.order_perm _).mem_iff, ← AList.mem_keys, ← AList.lookup_isSome]
  unfold Actor.bareFile Actor.file
  cases a.fileStates.lookup p with
  | none => simp
  | some st => simp [FileHunkState.bare]

theorem withMode (h : Agree a b) (mode : TrackingMode) :
    Agree { a with mode := mode } { b with mode := mode } :=
  ⟨h.bareFile, h.workingDir, rfl, h.gitDirtyCache, h.gitStagedCache, h.repoSyncState,
    h.gitRepoState⟩

theorem setMode (h : Agree a b) (mode : TrackingMode) :
    Agree (a.setMode D env mode) (b.setMode D env mode) := by
  have hmode := h.withMode mode
  unfold Actor.setMode
  rw [h.mode]
  cases a.mode <;> cases mode
  · exact hmode
  · exact hmode.refreshGitDirtyCache none
  · apply hmode.foldl_untrack
    intro p
    rw [mem_nonAgent, mem_nonAgent, h.bareFile]
  · exact hmode

theorem handleQuery (h : Agree a b) (q : Query) : Agree (a.handleQuery q) (b.handleQuery q) := by
  cases q <;> exact ⟨h.bareFile, h.workingDir, h.mode, h.gitDirtyCache, h.gitStagedCache,
    h.repoSyncState, h.gitRepoState⟩

end Agree

/-! ## Operations on different paths -/

/-- An operation on the path `p`: up to hunks its outcome follows from the
file it finds there, and it may look at the repository. -/
structure ActsAt (env : Env) (p : PathBuf) (F : Actor → Actor) (reads : Actor → Bool) : Prop where
  reach : ∀ a, Local env p a (F a)
  bareFile : ∀ a b, SameView env a b → b.bareFile p = a.bareFile p →
    (F b).bareFile p = (F a).bareFile p
  git : ∀ a, (F a).gitRepoState =
    if reads a then (a.discover env).gitRepoState else a.gitRepoState
  reads : ∀ a b, SameView env a b → b.bareFile p = a.bareFile p → reads b = reads a

namespace ActsAt

variable {D : LineDiff} {env : Env} {p q : PathBuf} {F G : Actor → Actor}
  {reads reads' : Actor → Bool}

theorem bareFile_ne (h : ActsAt env p F reads) (hq : q ≠ p) (a : Actor) :
    (F a).bareFile q = a.bareFile q := by
  rw [Actor.bareFile, (h.reach a).file q hq, Actor.bareFile]

theorem swap (hF : ActsAt env p F reads) (hG : ActsAt env q G reads') (hpq : p ≠ q) (a : Actor) :
    Agree (G (F a)) (F (G a)) := by
  have hFa := hF.reach a
  have hGa := hG.reach a
  have hFG := hF.reach (G a)
  have hGF := hG.reach (F a)
  have hreads : reads (G a) = reads a := hF.reads a _ hGa.view (hG.bareFile_ne hpq a)
  have hreads' : reads' (F a) = reads' a := hG.reads a _ hFa.view (hF.bareFile_ne hpq.symm a)
  constructor
  · intro x
    by_cases hp : x = p
    · subst hp
      rw [hG.bareFile_ne hpq, hF.bareFile a _ hGa.view (hG.bareFile_ne hpq a)]
    · by_cases hq : x = q
      · subst hq
        rw [hF.bareFile_ne hp, hG.bareFile a _ hFa.view (hF.bareFile_ne hp a)]
      · rw [hF.bareFile_ne hp, hG.bareFile_ne hq, hG.bareFile_ne hq, hF.bareFile_ne hp]
  · rw [hFG.workingDir, hGa.workingDir, hGF.workingDir, hFa.workingDir]
  · rw [hFG.mode, hGa.mode, hGF.mode, hFa.mode]
  · rw [hFG.gitDirtyCache, hGa.gitDirtyCache, hGF.gitDirtyCache, hFa.gitDirtyCache]
  · rw [hFG.gitStagedCache, hGa.gitStagedCache, hGF.gitStagedCache, hFa.gitStagedCache]
  · rw [hFG.repoSyncState, hGa.repoSyncState, hGF.repoSyncState, hFa.repoSyncState]
  · rw [hF.git, hG.git, hG.git, hF.git, hreads, hreads', hFa.git, hGa.git]
    cases reads a <;> cases reads' a <;> rfl

theorem notice (D : LineDiff) (env : Env) (p : PathBuf) (n : Notice) :
    ActsAt env p (fun a => a.handleNotice D env p n)
      (fun a => a.noticeReads env p n (a.bareFile p)) where
  reach a := Local.notice D env p a n
  bareFile a b hview hp := by
    simp only [bareFile_handleNotice, hp, noticeTo_congr hview]
  git a := gitRepoState_handleNotice D env a p n
  reads a b hview hp := by rw [hp, noticeReads_congr hview]

end ActsAt

/-- An agent write, on the file state up to hunks. -/
def writtenTo (env : Env) (a : Actor) (p : PathBuf) (content : Text) (previous : Option Text) :
    Option FileHunkState → FileHunkState
  | none =>
    let head := a.headContent env p
    agentFile (if (classifyString content).isDiffable then agentBaseline head previous
      else (previous.map classifyString).getD head) (classifyString content)
  | some st =>
    { st with isAgentFile := true, currentContent := classifyString content, hunks := [] }

/-- Does the write look at the repository? -/
def writeReads (a : Actor) (p : PathBuf) (content : Text) (previous : Option Text) : Bool :=
  (a.bareFile p).isNone && ((classifyString content).isDiffable || previous.isNone)

theorem bareFile_recordAgentWrite (D : LineDiff) (env : Env) (a : Actor) (p : PathBuf)
    (content : Text) (promptIndex : Nat) (previous : Option Text) :
    (a.recordAgentWrite D env p content promptIndex previous).bareFile p =
      some (a.writtenTo env p content previous (a.bareFile p)) := by
  unfold recordAgentWrite recordOpaqueWrite
  cases hf : a.file p with
  | none =>
    have hbare : a.bareFile p = none := by rw [bareFile, hf]; rfl
    dsimp only
    rw [hbare, writtenTo]
    by_cases hd : (classifyString content).isDiffable = false
    · rw [if_pos hd, bareFile_trackFile, hd]
      cases previous <;> rfl
    · rw [if_neg hd, bareFile_recomputeHunks, bareFile_trackFile, Bool.of_not_eq_false hd]
      rfl
  | some st =>
    have hbare : a.bareFile p = some st.bare := by rw [bareFile, hf]; rfl
    dsimp only
    rw [hbare]
    split
    · exact bareFile_setFile a p _
    · rw [bareFile_recomputeHunks, bareFile_setFile]
      rfl

theorem gitRepoState_recordAgentWrite (D : LineDiff) (env : Env) (a : Actor) (p : PathBuf)
    (content : Text) (promptIndex : Nat) (previous : Option Text) :
    (a.recordAgentWrite D env p content promptIndex previous).gitRepoState =
      if a.writeReads p content previous then (a.discover env).gitRepoState
      else a.gitRepoState := by
  unfold recordAgentWrite recordOpaqueWrite writeReads bareFile
  dsimp only
  cases hf : a.file p with
  | none =>
    by_cases hd : (classifyString content).isDiffable = false
    · rw [if_pos hd, hd, gitRepoState_trackFile]
      cases previous <;> rfl
    · rw [if_neg hd, gitRepoState_recomputeHunks, gitRepoState_trackFile,
        Bool.of_not_eq_false hd]
      rfl
  | some st =>
    split
    · rfl
    · rw [gitRepoState_recomputeHunks]
      rfl

theorem Local.recordAgentWrite (D : LineDiff) (env : Env) (p : PathBuf) (a : Actor)
    (content : Text) (promptIndex : Nat) (previous : Option Text) :
    Local env p a (a.recordAgentWrite D env p content promptIndex previous) := by
  unfold Actor.recordAgentWrite Actor.recordOpaqueWrite
  dsimp only
  split
  · split
    · exact (takeBaseline env p a _).trans (trackFile env p _ _)
    · exact setFile env p a _
  · apply Local.trans _ (recomputeHunks D env p _ _ _)
    split
    · exact (discover env p a).trans (trackFile env p _ _)
    · exact setFile env p a _

theorem Local.resetBaseline (env : Env) (p : PathBuf) (a : Actor) :
    Local env p a (a.resetBaseline p) := by
  unfold Actor.resetBaseline
  split
  · exact refl env p a
  · next st _ =>
    have h := setFile env p a
      { st with baseline := st.currentContent, baselineAccepted := false, hunks := [] }
    exact ⟨h.file, rfl, rfl, rfl, rfl, rfl, rfl, git_congr env rfl⟩

theorem bareFile_resetBaseline (a : Actor) (p : PathBuf) :
    (a.resetBaseline p).bareFile p = (a.bareFile p).map fun st =>
      { st with baseline := st.currentContent, baselineAccepted := false } := by
  unfold resetBaseline
  cases hf : a.file p with
  | none => simp [bareFile, hf]
  | some st =>
    have hbare : a.bareFile p = some st.bare := by rw [bareFile, hf]; rfl
    rw [hbare]
    exact bareFile_setFile a p _

namespace ActsAt

theorem write (D : LineDiff) (env : Env) (p : PathBuf) (content : Text) (promptIndex : Nat)
    (previous : Option Text) :
    ActsAt env p (fun a => a.recordAgentWrite D env p content promptIndex previous)
      (fun a => a.writeReads p content previous) where
  reach a := Local.recordAgentWrite D env p a content promptIndex previous
  bareFile a b hview hp := by
    simp only [bareFile_recordAgentWrite, hp]
    cases a.bareFile p with
    | none => simp only [writtenTo, hview.headContent]
    | some st => rfl
  git a := gitRepoState_recordAgentWrite D env a p content promptIndex previous
  reads a b _ hp := by rw [writeReads, writeReads, hp]

theorem reset (env : Env) (p : PathBuf) :
    ActsAt env p (fun a => a.resetBaseline p) (fun _ => false) where
  reach a := Local.resetBaseline env p a
  bareFile a b _ hp := by simp only [bareFile_resetBaseline, hp]
  git a := by
    unfold resetBaseline
    split <;> rfl
  reads _ _ _ _ := rfl

end ActsAt

/-! ## Whole commands -/

/-- A command outside the batch that does not act on hunks. -/
def isCalm : HunkTrackerCommand → Bool
  | .recordAgentWrite .. => true
  | .resetBaseline _ => true
  | .setMode _ => true
  | .query _ => true
  | .resetStats => true
  | .restoreState _ => true
  | _ => false

theorem Agree.handleCommand {D : LineDiff} {env : Env} {a b : Actor} (h : Agree a b)
    {cmd : HunkTrackerCommand} (hc : isCalm cmd = true) :
    Agree (a.handleCommand D env cmd) (b.handleCommand D env cmd) := by
  cases cmd with
  | recordAgentWrite path content promptIndex previous =>
    exact h.recordAgentWrite path content promptIndex previous
  | resetBaseline path => exact h.resetBaseline path
  | setMode mode => exact h.setMode mode
  | query q => exact h.handleQuery q
  | resetStats =>
    exact ⟨h.bareFile, h.workingDir, h.mode, h.gitDirtyCache, h.gitStagedCache, h.repoSyncState,
      h.gitRepoState⟩
  | restoreState s =>
    exact ⟨fun _ => rfl, h.workingDir, h.mode, h.gitDirtyCache, h.gitStagedCache,
      h.repoSyncState, h.gitRepoState⟩
  | _ => cases hc

theorem Agree.handleCommands {D : LineDiff} {env : Env} (cmds : List HunkTrackerCommand)
    (hc : ∀ c ∈ cmds, isCalm c = true) : ∀ {a b : Actor}, Agree a b →
    Agree (a.handleCommands D env cmds) (b.handleCommands D env cmds) := by
  induction cmds with
  | nil => exact fun h => h
  | cons c cmds ih =>
    intro a b h
    exact ih (fun d hd => hc d (mem_cons_of_mem _ hd))
      (h.handleCommand (hc c mem_cons_self))

theorem agree_runNotices (D : LineDiff) (env : Env) (a : Actor)
    {ns ms : List (PathBuf × Notice)}
    (h : ∀ p, a.trace env p (noticesAt ms p) = a.trace env p (noticesAt ns p)) :
    Agree (a.runNotices D env ns) (a.runNotices D env ms) := by
  have hrest : ∀ (ls : List (PathBuf × Notice)) (b : Actor),
      (b.runNotices D env ls).workingDir = b.workingDir ∧
      (b.runNotices D env ls).mode = b.mode ∧
      (b.runNotices D env ls).gitDirtyCache = b.gitDirtyCache ∧
      (b.runNotices D env ls).gitStagedCache = b.gitStagedCache ∧
      (b.runNotices D env ls).repoSyncState = b.repoSyncState := by
    intro ls
    induction ls with
    | nil => exact fun _ => ⟨rfl, rfl, rfl, rfl, rfl⟩
    | cons x ls ih =>
      intro b
      have hloc := Local.notice D env x.1 b x.2
      obtain ⟨h1, h2, h3, h4, h5⟩ := ih (b.handleNotice D env x.1 x.2)
      exact ⟨h1.trans hloc.workingDir, h2.trans hloc.mode, h3.trans hloc.gitDirtyCache,
        h4.trans hloc.gitStagedCache, h5.trans hloc.repoSyncState⟩
  have hgit : (a.runNotices D env ms).gitRepoState = (a.runNotices D env ns).gitRepoState := by
    by_cases hex : ∃ p, (a.trace env p (noticesAt ns p)).2 = true
    · rw [(gitRepoState_runNotices D env ns a).1 hex, (gitRepoState_runNotices D env ms a).1]
      obtain ⟨p, hp⟩ := hex
      exact ⟨p, (congrArg Prod.snd (h p)).trans hp⟩
    · simp only [not_exists, Bool.not_eq_true] at hex
      rw [(gitRepoState_runNotices D env ns a).2 hex, (gitRepoState_runNotices D env ms a).2]
      intro p
      exact (congrArg Prod.snd (h p)).trans (hex p)
  obtain ⟨h1, h2, h3, h4, h5⟩ := hrest ns a
  obtain ⟨k1, k2, k3, k4, k5⟩ := hrest ms a
  refine ⟨fun p => ?_, k1.trans h1.symm, k2.trans h2.symm, k3.trans h3.symm, k4.trans h4.symm,
    k5.trans h5.symm, hgit⟩
  rw [bareFile_runNotices, bareFile_runNotices, h p]

end Actor

end GrokBuild.HunkTracker
