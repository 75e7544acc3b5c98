import GrokBuild.HunkTracker.Local

/-!
# Hunk tracker: what coalescing does to a queue

`drain_and_coalesce` keeps one notification per path, the last, and moves
the notifications in front of all other commands. Two questions:

* is the batch the same as its commands one by one, although it reads the
  baselines of all changed files up front? `handleCoalescedBatch_eq`: yes,
  the whole actor is the same.
* is it the same as the queue in its own order? In general not, since
  commands change places. It is for an `Orderly` queue in which only the
  last notification of each path counts: `coalesced_batch_agrees`.
-/

namespace GrokBuild.HunkTracker

open TextLines Str EditScript List

namespace Actor

/-! ## Reading baselines -/

variable {a : Actor}

theorem discover_of_ne_unknown (env : Env) (h : a.gitRepoState ≠ .unknown) : a.discover env = a := by
  unfold discover
  split
  · next hu => exact absurd hu h
  · rfl

theorem gitRepoState_discover_ne (env : Env) (a : Actor) :
    (a.discover env).gitRepoState ≠ .unknown := by
  cases h : a.gitRepoState with
  | unknown => cases hr : env.isRepo <;> simp [discover, h, hr]
  | notARepo => simp [discover, h]
  | discovered => simp [discover, h]

@[simp] theorem gitRepoState_recomputeHunks (D : LineDiff) (env : Env) (a : Actor)
    (p : PathBuf) (current : Option FileContentState) (source : HunkSource) :
    (a.recomputeHunks D env p current source).gitRepoState = a.gitRepoState := by
  unfold recomputeHunks
  split <;> rfl

theorem recomputeHunks_discover (D : LineDiff) (env : Env) (a : Actor) (p : PathBuf)
    (current : Option FileContentState) (source : HunkSource) :
    (a.discover env).recomputeHunks D env p current source =
      (a.recomputeHunks D env p current source).discover env := by
  cases h : a.gitRepoState with
  | unknown =>
    have h' : (a.recomputeHunks D env p current source).gitRepoState = .unknown := by simp [h]
    simp only [discover, h, h']
    unfold recomputeHunks
    cases hf : a.file p with
    | none =>
      have hf' : ({ a with gitRepoState := if env.isRepo then .discovered else .notARepo } :
          Actor).file p = none := hf
      simp only [hf']
    | some st =>
      have hf' : ({ a with gitRepoState := if env.isRepo then .discovered else .notARepo } :
          Actor).file p = some st := hf
      simp only [hf']
      rfl
  | notARepo =>
    rw [discover_of_ne_unknown env (by simp [h]), discover_of_ne_unknown env (by simp [h])]
  | discovered =>
    rw [discover_of_ne_unknown env (by simp [h]), discover_of_ne_unknown env (by simp [h])]

@[simp] theorem gitRepoState_trackFile (a : Actor) (p : PathBuf) (st : FileHunkState) :
    (a.trackFile p st).gitRepoState = a.gitRepoState := rfl

theorem gitRepoState_discoverFile (D : LineDiff) (env : Env) (a : Actor) (p : PathBuf)
    (preloaded : Option FileContentState) :
    (a.discoverFile D env p preloaded).gitRepoState =
      (a.takeBaseline env p preloaded).2.gitRepoState := by
  unfold discoverFile
  dsimp only
  split
  · rfl
  · split
    · split <;> simp
    · simp

theorem gitRepoState_handleFileChange (D : LineDiff) (env : Env) (a : Actor) (p : PathBuf) :
    (a.handleFileChange D env p).gitRepoState =
      if a.needsBaseline p then (a.discover env).gitRepoState else a.gitRepoState := by
  unfold handleFileChange processFileChange needsBaseline
  cases hf : a.file p with
  | none =>
    dsimp only
    by_cases hm : a.mode = .agentOnly
    · simp [hm]
    · rw [if_neg hm, gitRepoState_discoverFile, if_pos (by simpa using hm)]
      rfl
  | some st =>
    dsimp only
    by_cases hacc : st.baselineAccepted = true
    · rw [if_pos hacc, if_pos hacc]
      split
      · rfl
      · rw [gitRepoState_recomputeHunks]
        rfl
    · rw [if_neg hacc, if_neg hacc, gitRepoState_recomputeHunks]

variable {p : PathBuf}

theorem processFileChange_preloaded (D : LineDiff) (env : Env) (h : a.needsBaseline p = true) :
    (a.discover env).processFileChange D env p (some (a.headContent env p)) =
      a.handleFileChange D env p := by
  have hmode : (a.discover env).mode = a.mode := (Local.discover env p a).mode
  unfold handleFileChange processFileChange needsBaseline at *
  rw [file_discover, hmode]
  cases hf : a.file p with
  | none =>
    rw [hf] at h
    have hm : a.mode ≠ .agentOnly := by simpa using h
    simp only [if_neg hm]
    rfl
  | some st =>
    rw [hf] at h
    simp only [h]
    rfl

/-- Without a baseline to read, the cached state of the repository may be
filled in before or after. -/
theorem processFileChange_discover (D : LineDiff) (env : Env) (h : a.needsBaseline p = false)
    (preloaded : Option FileContentState) :
    (a.discover env).processFileChange D env p preloaded =
      (a.handleFileChange D env p).discover env := by
  have hmode : (a.discover env).mode = a.mode := (Local.discover env p a).mode
  unfold handleFileChange processFileChange needsBaseline at *
  rw [file_discover, hmode]
  cases hf : a.file p with
  | none =>
    rw [hf] at h
    have hm : a.mode = .agentOnly := by simpa using h
    simp only [hm, if_true]
  | some st =>
    rw [hf] at h
    simp only [h, Bool.false_eq_true, if_false]
    exact recomputeHunks_discover D env a p _ _

theorem needsBaseline_congr {env : Env} {b : Actor} {q : PathBuf} (h : Local env p a b) (hq : q ≠ p) :
    b.needsBaseline q = a.needsBaseline q := by
  unfold needsBaseline
  rw [h.file q hq, h.mode]

/-- The batch runs one discovery ahead of the single changes. -/
theorem foldl_preloaded (D : LineDiff) (env : Env) (baseline : PathBuf → Option FileContentState)
    (paths : List PathBuf) : ∀ {a : Actor}, paths.Nodup →
    (∀ p ∈ paths, a.needsBaseline p = true → baseline p = some (a.headContent env p)) →
    paths.foldl (fun a p => a.processFileChange D env p (baseline p)) (a.discover env) =
      (paths.foldl (fun a p => a.handleFileChange D env p) a).discover env := by
  induction paths with
  | nil => exact fun _ _ => rfl
  | cons p paths ih =>
    intro a hnodup hbase
    obtain ⟨hp, hnodup⟩ := nodup_cons.mp hnodup
    have hloc : Local env p a (a.handleFileChange D env p) := Local.processFileChange D env p a none
    have hnext : (a.discover env).processFileChange D env p (baseline p) =
        (a.handleFileChange D env p).discover env := by
      cases hneed : a.needsBaseline p with
      | false => exact processFileChange_discover D env hneed (baseline p)
      | true =>
        rw [hbase p mem_cons_self hneed, processFileChange_preloaded D env hneed,
          discover_of_ne_unknown]
        rw [gitRepoState_handleFileChange, if_pos hneed]
        exact gitRepoState_discover_ne env a
    rw [foldl_cons, foldl_cons, hnext]
    apply ih hnodup
    intro q hq hneed
    have hne : q ≠ p := by
      rintro rfl
      exact hp hq
    rw [needsBaseline_congr hloc hne] at hneed
    rw [hloc.headContent q]
    exact hbase q (mem_cons_of_mem _ hq) hneed

theorem foldl_handleFileChange_ne_unknown (D : LineDiff) (env : Env) (paths : List PathBuf) :
    ∀ {a : Actor}, paths.Nodup →
    (a.gitRepoState ≠ .unknown ∨ ∃ p ∈ paths, a.needsBaseline p = true) →
    (paths.foldl (fun a p => a.handleFileChange D env p) a).gitRepoState ≠ .unknown := by
  induction paths with
  | nil =>
    rintro a - (h | ⟨p, hp, -⟩)
    · exact h
    · cases hp
  | cons p paths ih =>
    intro a hnodup h
    obtain ⟨hp, hnodup⟩ := nodup_cons.mp hnodup
    have hloc : Local env p a (a.handleFileChange D env p) := Local.processFileChange D env p a none
    rw [foldl_cons]
    apply ih hnodup
    rw [gitRepoState_handleFileChange]
    by_cases hneed : a.needsBaseline p = true
    · left
      rw [if_pos hneed]
      exact gitRepoState_discover_ne env a
    · rw [if_neg hneed]
      rcases h with h | ⟨q, hq, hqneed⟩
      · exact .inl h
      · rcases mem_cons.mp hq with rfl | hmem
        · exact absurd hqneed hneed
        · have hne : q ≠ p := fun e => hp (e ▸ hmem)
          exact .inr ⟨q, hmem, (needsBaseline_congr hloc hne).trans hqneed⟩

theorem handleFileChangesBatch_eq (D : LineDiff) (env : Env) (a : Actor)
    {paths : List PathBuf} (hnodup : paths.Nodup) :
    a.handleFileChangesBatch D env paths =
      paths.foldl (fun a p => a.handleFileChange D env p) a := by
  unfold handleFileChangesBatch
  dsimp only
  split
  · rfl
  · next h =>
    rw [not_or] at h
    obtain ⟨p, hp⟩ := exists_mem_of_ne_nil _ h.1
    obtain ⟨hmem, hneed⟩ := mem_filter.mp hp
    rw [foldl_preloaded D env _ paths hnodup, discover_of_ne_unknown]
    · exact foldl_handleFileChange_ne_unknown D env paths hnodup (.inr ⟨p, hmem, hneed⟩)
    · intro q hq hqneed
      rw [if_pos (mem_filter.mpr ⟨hq, hqneed⟩)]

end Actor

/-! ## The batch of a queue -/

inductive Notice where
  | changed
  | deleted
  deriving DecidableEq, Repr

/-- The notification of a path that a command carries. -/
def noticeOf : HunkTrackerCommand → Option (PathBuf × Notice)
  | .handleFileChange path => some (path, .changed)
  | .handleFileDeleted path => some (path, .deleted)
  | _ => none

/-- The notifications of one path in a queue. -/
def noticesOf (queue : List HunkTrackerCommand) (p : PathBuf) : List Notice :=
  (queue.filterMap noticeOf).filterMap fun x => if x.1 = p then some x.2 else none

theorem noticesOf_append (q r : List HunkTrackerCommand) (p : PathBuf) :
    noticesOf (q ++ r) p = noticesOf q p ++ noticesOf r p := by
  simp [noticesOf]

/-- The notification that an entry of the batch stands for. -/
def CoalescedPathAction.notice : CoalescedPathAction → Notice
  | .changed => .changed
  | .deleted => .deleted
  | .deletedThenChanged => .changed

namespace CoalescedBatch

theorem drainAndCoalesce_concat (queue : List HunkTrackerCommand) (cmd : HunkTrackerCommand) :
    drainAndCoalesce (queue ++ [cmd]) = (drainAndCoalesce queue).add cmd := by
  simp [drainAndCoalesce]

theorem notice_thenChanged (x : Option CoalescedPathAction) : (thenChanged x).notice = .changed := by
  rcases x with _ | (_ | _ | _) <;> rfl

theorem lookup_fileActions (queue : List HunkTrackerCommand) (p : PathBuf) :
    ((drainAndCoalesce queue).fileActions.lookup p).map CoalescedPathAction.notice =
      (noticesOf queue p).getLast? := by
  induction queue using List.reverseRecOn with
  | nil => rfl
  | append_singleton queue cmd ih =>
    rw [drainAndCoalesce_concat, noticesOf_append]
    cases cmd with
    | handleFileChange q =>
      by_cases hq : p = q
      · subst hq
        simp [add, noticesOf, noticeOf, notice_thenChanged]
      · have hq' : q ≠ p := fun e => hq e.symm
        simp [add, noticesOf, noticeOf, AList.lookup_insert_ne hq, hq', ih]
    | handleFileDeleted q =>
      by_cases hq : p = q
      · subst hq
        simp [add, noticesOf, noticeOf, CoalescedPathAction.notice]
      · have hq' : q ≠ p := fun e => hq e.symm
        simp [add, noticesOf, noticeOf, AList.lookup_insert_ne hq, hq', ih]
    | _ => exact ih.trans (congrArg List.getLast? (append_nil _).symm)

theorem otherCommands_drainAndCoalesce (queue : List HunkTrackerCommand) :
    (drainAndCoalesce queue).otherCommands = queue.filter fun c => !isCoalescable c := by
  induction queue using List.reverseRecOn with
  | nil => rfl
  | append_singleton queue cmd ih =>
    rw [drainAndCoalesce_concat, filter_append, ← ih]
    cases cmd <;> simp [add, isCoalescable]

theorem refreshAll_drainAndCoalesce (queue : List HunkTrackerCommand) :
    (drainAndCoalesce queue).refreshAll = true ↔ .refreshAllBaselines ∈ queue := by
  induction queue using List.reverseRecOn with
  | nil => simp [drainAndCoalesce, new]
  | append_singleton queue cmd ih =>
    rw [drainAndCoalesce_concat, mem_append, mem_singleton]
    cases cmd <;> simp [add, ih]

theorem refreshDirty_drainAndCoalesce (queue : List HunkTrackerCommand) :
    (drainAndCoalesce queue).refreshDirty = true ↔ .refreshGitDirtyCache ∈ queue := by
  induction queue using List.reverseRecOn with
  | nil => simp [drainAndCoalesce, new]
  | append_singleton queue cmd ih =>
    rw [drainAndCoalesce_concat, mem_append, mem_singleton]
    cases cmd <;> simp [add, ih]

theorem nodup_order (env : Env) (b : CoalescedBatch) : (env.order b.fileActions.keys).Nodup :=
  (env.order_perm _).nodup_iff.mpr b.fileActions.keys_nodup

theorem mem_deletedPaths (env : Env) (queue : List HunkTrackerCommand) (p : PathBuf) :
    p ∈ (drainAndCoalesce queue).deletedPaths env ↔
      (noticesOf queue p).getLast? = some .deleted := by
  rw [← lookup_fileActions, deletedPaths, mem_filter, (env.order_perm _).mem_iff,
    ← AList.mem_keys, ← AList.lookup_isSome]
  rcases (drainAndCoalesce queue).fileActions.lookup p with _ | (_ | _ | _) <;>
    simp [CoalescedPathAction.notice]

theorem mem_changedPaths (env : Env) (queue : List HunkTrackerCommand) (p : PathBuf) :
    p ∈ (drainAndCoalesce queue).changedPaths env ↔
      (noticesOf queue p).getLast? = some .changed := by
  rw [← lookup_fileActions, changedPaths, mem_filter, (env.order_perm _).mem_iff,
    ← AList.mem_keys, ← AList.lookup_isSome]
  rcases (drainAndCoalesce queue).fileActions.lookup p with _ | (_ | _ | _) <;>
    simp [CoalescedPathAction.notice]

end CoalescedBatch

/-- The order in which a queue without a refresh of all baselines is worked
off: the dirty cache, the paths that end deleted, the paths that end
changed, and everything else. -/
structure CoalescedOrder (queue : List HunkTrackerCommand)
    (dirty : List HunkTrackerCommand) (deleted changed : List PathBuf) : Prop where
  dirty : dirty = [.refreshGitDirtyCache] ∧ .refreshGitDirtyCache ∈ queue ∨
    dirty = [] ∧ .refreshGitDirtyCache ∉ queue
  nodup : deleted.Nodup ∧ changed.Nodup
  deleted : ∀ p, p ∈ deleted ↔ (noticesOf queue p).getLast? = some .deleted
  changed : ∀ p, p ∈ changed ↔ (noticesOf queue p).getLast? = some .changed

/-- The commands of a batch, one notification per path. -/
def coalescedCommands (queue dirty : List HunkTrackerCommand) (deleted changed : List PathBuf) :
    List HunkTrackerCommand :=
  dirty ++ (deleted.map .handleFileDeleted ++ changed.map .handleFileChange) ++
    queue.filter fun c => !isCoalescable c

namespace Actor

theorem handleCommands_append (D : LineDiff) (env : Env) (a : Actor)
    (xs ys : List HunkTrackerCommand) :
    a.handleCommands D env (xs ++ ys) = (a.handleCommands D env xs).handleCommands D env ys :=
  foldl_append

theorem handleCoalescedBatch_eq (D : LineDiff) (env : Env) (a : Actor)
    {queue : List HunkTrackerCommand} (h : .refreshAllBaselines ∉ queue) :
    ∃ dirty deleted changed, CoalescedOrder queue dirty deleted changed ∧
      a.handleCoalescedBatch D env (.drainAndCoalesce queue) =
        a.handleCommands D env (coalescedCommands queue dirty deleted changed) := by
  have hall : (CoalescedBatch.drainAndCoalesce queue).refreshAll = false := by
    rw [← Bool.not_eq_true, CoalescedBatch.refreshAll_drainAndCoalesce]
    exact h
  have hnodup := CoalescedBatch.nodup_order env (.drainAndCoalesce queue)
  obtain ⟨dirty, hdirty, hrun⟩ : ∃ dirty,
      (dirty = [.refreshGitDirtyCache] ∧ .refreshGitDirtyCache ∈ queue ∨
        dirty = [] ∧ .refreshGitDirtyCache ∉ queue) ∧
      (if (CoalescedBatch.drainAndCoalesce queue).refreshDirty = true ∧
          (CoalescedBatch.drainAndCoalesce queue).refreshAll = false
        then a.refreshGitDirtyCache D env none else a) = a.handleCommands D env dirty := by
    have hflag := CoalescedBatch.refreshDirty_drainAndCoalesce queue
    split
    · next hd => exact ⟨_, .inl ⟨rfl, hflag.mp hd.1⟩, rfl⟩
    · next hd => exact ⟨_, .inr ⟨rfl, fun hq => hd ⟨hflag.mpr hq, hall⟩⟩, rfl⟩
  have hchanged : ((CoalescedBatch.drainAndCoalesce queue).changedPaths env).Nodup :=
    hnodup.filter _
  refine ⟨dirty, (CoalescedBatch.drainAndCoalesce queue).deletedPaths env,
    (CoalescedBatch.drainAndCoalesce queue).changedPaths env,
    ⟨hdirty, ⟨hnodup.filter _, hchanged⟩, CoalescedBatch.mem_deletedPaths env queue,
      CoalescedBatch.mem_changedPaths env queue⟩, ?_⟩
  rw [handleCoalescedBatch, handleNotifications, CoalescedBatch.otherCommands_drainAndCoalesce,
    coalescedCommands, handleCommands_append, handleCommands_append, handleCommands_append]
  dsimp only
  rw [hrun, hall, if_neg Bool.false_ne_true, handleFileChangesBatch_eq D env _ hchanged]
  simp only [handleCommands, foldl_map]
  rfl

end Actor

end GrokBuild.HunkTracker
