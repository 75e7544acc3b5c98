import GrokBuild.HunkTracker.Commands

/-!
# Hunk tracker: the reach of a notification

A file change or deletion touches the state of its own file. Of the rest
of the actor it only moves the turn index, the event stream, the id
counter and the cached answer to "is this a repository"; `Local` says so,
and operations on one path compose.
-/

namespace GrokBuild.HunkTracker

open TextLines Str EditScript

namespace Actor

theorem discover_discover (env : Env) (a : Actor) :
    (a.discover env).discover env = a.discover env := by
  unfold discover
  cases h : a.gitRepoState with
  | unknown => cases env.isRepo <;> rfl
  | notARepo => simp [h]
  | discovered => simp [h]

/-- `b` comes from `a` by operations on the path `p`. -/
structure Local (env : Env) (p : PathBuf) (a b : Actor) : Prop where
  file : ∀ q, q ≠ p → b.file q = a.file q
  workingDir : b.workingDir = a.workingDir
  mode : b.mode = a.mode
  gitDirtyCache : b.gitDirtyCache = a.gitDirtyCache
  gitStagedCache : b.gitStagedCache = a.gitStagedCache
  repoSyncState : b.repoSyncState = a.repoSyncState
  sessionStats : b.sessionStats = a.sessionStats
  git : (b.discover env).gitRepoState = (a.discover env).gitRepoState

namespace Local

variable {D : LineDiff} {env : Env} {a b c : Actor} {p : PathBuf} {st : FileHunkState}

theorem refl (env : Env) (p : PathBuf) (a : Actor) : Local env p a a :=
  ⟨fun _ _ => rfl, rfl, rfl, rfl, rfl, rfl, rfl, rfl⟩

theorem trans (h : Local env p a b) (h' : Local env p b c) : Local env p a c where
  file q hq := (h'.file q hq).trans (h.file q hq)
  workingDir := h'.workingDir.trans h.workingDir
  mode := h'.mode.trans h.mode
  gitDirtyCache := h'.gitDirtyCache.trans h.gitDirtyCache
  gitStagedCache := h'.gitStagedCache.trans h.gitStagedCache
  repoSyncState := h'.repoSyncState.trans h.repoSyncState
  sessionStats := h'.sessionStats.trans h.sessionStats
  git := h'.git.trans h.git

theorem discover (env : Env) (p : PathBuf) (a : Actor) : Local env p a (a.discover env) := by
  have hgit := congrArg Actor.gitRepoState (discover_discover env a)
  obtain ⟨g, hg⟩ := a.discover_eq env
  refine ⟨fun q _ => file_discover a q env, ?_, ?_, ?_, ?_, ?_, ?_, hgit⟩ <;> rw [hg]

theorem takeBaseline (env : Env) (p : PathBuf) (a : Actor)
    (preloaded : Option FileContentState) :
    Local env p a (a.takeBaseline env p preloaded).2 := by
  cases preloaded with
  | none => exact discover env p a
  | some b => exact refl env p a

theorem git_congr (env : Env) (h : b.gitRepoState = a.gitRepoState) :
    (b.discover env).gitRepoState = (a.discover env).gitRepoState := by
  unfold Actor.discover
  rw [h]
  cases h' : a.gitRepoState with
  | unknown => rfl
  | notARepo => simp [h, h']
  | discovered => simp [h, h']

theorem setFile (env : Env) (p : PathBuf) (a : Actor) (st : FileHunkState) :
    Local env p a (a.setFile p st) :=
  ⟨fun _ hq => file_setFile_ne a st hq, rfl, rfl, rfl, rfl, rfl, rfl, git_congr env rfl⟩

theorem trackFile (env : Env) (p : PathBuf) (a : Actor) (st : FileHunkState) :
    Local env p a (a.trackFile p st) :=
  ⟨fun _ hq => file_setFile_ne a st hq, rfl, rfl, rfl, rfl, rfl, rfl, git_congr env rfl⟩

theorem recomputeHunks (D : LineDiff) (env : Env) (p : PathBuf) (a : Actor)
    (current : Option FileContentState) (source : HunkSource) :
    Local env p a (a.recomputeHunks D env p current source) := by
  refine ⟨fun q hq => file_recomputeHunks_ne D env hq current source, ?_, ?_, ?_, ?_, ?_, ?_,
    git_congr env ?_⟩ <;>
  · unfold Actor.recomputeHunks
    split <;> rfl

theorem discoverFile (D : LineDiff) (env : Env) (p : PathBuf) (a : Actor)
    (preloaded : Option FileContentState) :
    Local env p a (a.discoverFile D env p preloaded) := by
  have hread := takeBaseline env p a preloaded
  unfold Actor.discoverFile
  dsimp only
  split
  · exact hread
  · split
    · split
      · exact (hread.trans (trackFile env p _ _)).trans (recomputeHunks D env p _ _ _)
      · exact hread.trans (trackFile env p _ _)
    · exact (hread.trans (trackFile env p _ _)).trans (recomputeHunks D env p _ _ _)

theorem processFileChange (D : LineDiff) (env : Env) (p : PathBuf) (a : Actor)
    (preloaded : Option FileContentState) :
    Local env p a (a.processFileChange D env p preloaded) := by
  unfold Actor.processFileChange
  split
  · split
    · exact refl env p a
    · exact discoverFile D env p a preloaded
  · have hread := takeBaseline env p a preloaded
    dsimp only
    split
    · split
      · exact hread.trans (setFile env p _ _)
      · exact hread.trans (recomputeHunks D env p _ _ _)
    · exact recomputeHunks D env p a _ _

theorem handleFileDeleted (D : LineDiff) (env : Env) (p : PathBuf) (a : Actor) :
    Local env p a (a.handleFileDeleted D env p) := by
  unfold Actor.handleFileDeleted
  split
  · split
    · exact refl env p a
    · dsimp only
      split
      · exact discover env p a
      · exact ((discover env p a).trans (trackFile env p _ _)).trans
          (recomputeHunks D env p _ _ _)
  · split
    · exact processFileChange D env p a none
    · exact recomputeHunks D env p a _ _

theorem headContent (h : Local env p a b) (q : PathBuf) :
    b.headContent env q = a.headContent env q := by
  unfold Actor.headContent
  rw [h.git]

theorem isDirty (h : Local env p a b) (q : PathBuf) : b.isDirty q = a.isDirty q := by
  unfold Actor.isDirty Actor.relative
  rw [h.gitDirtyCache, h.workingDir]

theorem contentMatchesHead (h : Local env p a b) (q : PathBuf) (x y : FileContentState) :
    b.contentMatchesHead q x y = a.contentMatchesHead q x y := by
  unfold Actor.contentMatchesHead
  rw [h.isDirty q]

/-- Operations on different paths, one after the other: what each needs of
its own path still holds when its turn comes. The loop state may carry more
than the actor. -/
theorem foldl_induction (env : Env) {σ : Type} (act : σ → Actor) {f : σ → PathBuf → σ}
    (P : σ → Prop) (C : Actor → PathBuf → Prop)
    (hloc : ∀ s p, Local env p (act s) (act (f s p)))
    (hC : ∀ a b p q, q ≠ p → Local env p a b → C a q → C b q)
    (hstep : ∀ s p, P s → C (act s) p → P (f s p)) (ps : List PathBuf) : ∀ {s : σ},
    ps.Nodup → (∀ p ∈ ps, C (act s) p) → P s → P (ps.foldl f s) := by
  induction ps with
  | nil => exact fun _ _ h => h
  | cons p ps ih =>
    intro s hnodup hall h
    obtain ⟨hp, hnodup⟩ := List.nodup_cons.mp hnodup
    refine ih hnodup (fun q hq => ?_) (hstep s p h (hall p (by simp)))
    have hne : q ≠ p := by
      rintro rfl
      exact hp hq
    exact hC (act s) _ p q hne (hloc s p) (hall q (by simp [hq]))

theorem handleBeforeRefresh (D : LineDiff) (env : Env) (b : CoalescedBatch)
    (s : Actor × List PathBuf) (p : PathBuf) :
    Local env p s.1 (Actor.handleBeforeRefresh D env b s p).1 := by
  unfold Actor.handleBeforeRefresh
  split
  · split
    · exact refl env p s.1
    · exact handleFileDeleted D env p s.1
  · split
    · exact processFileChange D env p s.1 none
    · exact refl env p s.1

end Local

theorem nodup_untrackedDirty (env : Env) (a : Actor) {dirty : List PathBuf}
    (h : dirty.Nodup) : (a.untrackedDirty env dirty).Nodup := by
  refine List.Nodup.filter _ (List.Nodup.map (fun x y hxy => List.append_cancel_left hxy) ?_)
  exact (env.order_perm _).nodup_iff.mpr h

theorem file_of_mem_untrackedDirty {env : Env} {a : Actor} {dirty : List PathBuf}
    {p : PathBuf} (h : p ∈ a.untrackedDirty env dirty) : a.file p = none := by
  simpa using (List.mem_filter.mp h).2

end Actor

end GrokBuild.HunkTracker
