import GrokBuild.HunkTracker.Invariant
import GrokBuild.HunkTracker.Local

/-!
# Hunk tracker: careful runs

What the tracker does to the hunk lists, the turn index and the event
stream comes down to a few moves: `Preserved` lists them, and an assertion
that survives each move survives every command and every run.

Some moves leave the index or the listeners behind: an agent write that
cannot be diffed and a file that went back to HEAD drop hunks without a
word, a rejection books its hunks before the file operation that may fail,
and a restored snapshot replaces all hunks at once. A `Caution` says which
of these an assertion can live with; `CarefulStep` is a turn of the command
loop that takes no others.
-/

namespace GrokBuild.HunkTracker

open TextLines Str EditScript List

/-! ## Moves -/

structure Caution where
  /-- Hunks that may be dropped without a word. -/
  drop : List Hunk → Prop
  /-- Hunks that may be booked by a rejection that fails. -/
  fail : List Hunk → Prop
  /-- Snapshots that may be restored. -/
  restore : Actor → HunkTrackerSnapshot → Prop

/-- Events that are not about a hunk. -/
def HunkEvent.IsFileEvent : HunkEvent → Prop
  | fileAdded _ _ => True
  | fileRemoved _ => True
  | baselineUpdated _ => True
  | _ => False

/-- An assertion that survives the moves of the tracker. The ids of the
state a move starts from are distinct; the texts of some files (`ex`) may
be ahead of their hunks. -/
structure Preserved (D : LineDiff) (C : Caution) (P : Actor → Prop) : Prop where
  congr : ∀ {a b : Actor}, P a → b.fileStates = a.fileStates → b.turnIndex = a.turnIndex →
    b.events = a.events → b.snapshots = a.snapshots → b.recomputed = a.recomputed →
    b.nextId = a.nextId → P b
  announce : ∀ {a : Actor} {e : HunkEvent}, P a → e.IsFileEvent → P (a.sendEvents [e])
  /-- The texts or flags of a file change, its hunks do not. -/
  setFile : ∀ {a : Actor} {p : PathBuf} {st : FileHunkState}, P a → st.hunks = a.hunksAt p →
    P (a.setFile p st)
  clear : ∀ {ex : PathBuf → Prop} {a : Actor} {p : PathBuf} {st : FileHunkState}, Inv D ex a →
    P a → C.drop (a.hunksAt p) → st.hunks = [] → P (a.setFile p st)
  /-- Hunks leave the file and the index, and the listeners hear of it. -/
  remove : ∀ {ex : PathBuf → Prop} {a : Actor} {p : PathBuf} {st st' : FileHunkState}
    {hs : List Hunk}, Inv D ex a → P a → a.file p = some st → hs.Sublist st.hunks →
    st'.hunks = Actor.without st hs → ∀ reason,
    P (((a.setFile p st').unindex hs).sendEvents (Actor.removedEvents p hs reason))
  untrack : ∀ {ex : PathBuf → Prop} {a : Actor} {p : PathBuf} {st : FileHunkState}, Inv D ex a →
    P a → a.file p = some st →
    P (((a.eraseFile p).unindex st.hunks).sendEvents (Actor.supersededEvents p st.hunks))
  fail : ∀ {a : Actor} {hs : List Hunk}, P a → C.fail hs → P (a.book hs .reject)
  recompute : ∀ {ex : PathBuf → Prop} {env : Env} {a : Actor} {p : PathBuf},
    Inv D (fun q => ex q ∨ q = p) a → P a → ∀ current source,
    P (a.recomputeHunks D env p current source)
  snapshot : ∀ {a : Actor}, P a → P (a.handleQuery .snapshotState)
  restore : ∀ {a : Actor} {s : HunkTrackerSnapshot}, P a → s ∈ a.snapshots → C.restore a s →
    P (a.restoreSnapshot s)

/-! ## What a step has to be careful about -/

/-- A change notification for `p` would find the file, which has accepted
hunks, back at HEAD. -/
def RestoredToHead (env : Env) (a : Actor) (p : PathBuf) : Prop :=
  ∃ st, a.file p = some st ∧ st.baselineAccepted = true
    ∧ a.contentMatchesHead p (readFileBounded (env.disk p)) (a.headContent env p) = true

/-- Not with hunks at stake. -/
def CarefulChange (C : Caution) (env : Env) (a : Actor) (p : PathBuf) : Prop :=
  RestoredToHead env a p → C.drop (a.hunksAt p)

/-- Does the file operation behind a rejection succeed? -/
def succeeds (env : Env) (p : PathBuf) : Actor.RejectAction → Bool
  | .restoreDeleted _ => env.writeOk p
  | .deleteCreated => env.removeOk p
  | .revertChange _ => env.writeOk p
  | .noOp => true

/-- Rejecting these hunks of `p` gets through. -/
def RejectOk (env : Env) (a : Actor) (p : PathBuf) (hs : List Hunk) : Prop :=
  ∀ st, a.file p = some st → hs ≠ [] → succeeds env p (Actor.rejectAction st hs) = true

/-- Rejecting hunks file after file: if the batch fails on a file, the
hunks of that file may be booked. -/
def CarefulReject (C : Caution) (env : Env) (a : Actor) : List (PathBuf × List Hunk) → Prop
  | [] => True
  | (p, hs) :: files =>
    (RejectOk env a p hs ∨ C.fail hs) ∧ (RejectOk env a p hs → CarefulReject C env a files)

/-- A command that takes none of the silent branches with hunks at stake. -/
def Careful (C : Caution) (env : Env) (a : Actor) : HunkTrackerCommand → Prop
  | .recordAgentWrite p content _ _ =>
    (classifyString content).isDiffable = true ∨ C.drop (a.hunksAt p)
  | .handleFileChange p => CarefulChange C env a p
  | .handleFileDeleted p => env.pathExists p = true → CarefulChange C env a p
  | .hunkAction id .reject =>
    ∀ p h, a.findHunk env id = some (p, h) → CarefulReject C env a [(p, [h])]
  | .fileAction p .reject => CarefulReject C env a [(p, a.hunksAt p)]
  | .allAction .reject => CarefulReject C env a (a.filesWithHunks env fun _ => true)
  | .turnAction k .reject =>
    CarefulReject C env a (a.filesWithHunks env fun h => h.source.promptIndex == some k)
  | .restoreState s => C.restore a s
  | _ => True

/-- The state in which the notifications of a batch are handled. -/
def afterDirtyRefresh (D : LineDiff) (env : Env) (a : Actor) (b : CoalescedBatch) : Actor :=
  if b.refreshDirty = true ∧ b.refreshAll = false then a.refreshGitDirtyCache D env none else a

/-- The same for the notifications of a batch. -/
def CarefulBatch (D : LineDiff) (C : Caution) (env : Env) (a : Actor) (b : CoalescedBatch) :
    Prop :=
  ∀ p ∈ b.fileActions.keys,
    if b.fileActions.lookup p = some .deleted then
      env.pathExists p = true → CarefulChange C env (afterDirtyRefresh D env a b) p
    -- the refresh of all baselines takes care of the tracked files
    else b.refreshAll = false → CarefulChange C env (afterDirtyRefresh D env a b) p

/-- Every command of a queue is careful when its turn comes. -/
def CarefulSeq (D : LineDiff) (C : Caution) (env : Env) :
    Actor → List HunkTrackerCommand → Prop
  | _, [] => True
  | a, cmd :: cmds => Careful C env a cmd ∧ CarefulSeq D C env (a.handleCommand D env cmd) cmds

/-- A turn of the command loop that is careful throughout. -/
inductive CarefulStep (D : LineDiff) (C : Caution) : Actor → Actor → Prop where
  | command (env : Env) (a : Actor) (cmd : HunkTrackerCommand) (allowed : a.Allowed cmd)
      (careful : Careful C env a cmd) : CarefulStep D C a (a.handleCommand D env cmd)
  | batch (env : Env) (a : Actor) (queue : List HunkTrackerCommand)
      (allowed : Actor.AllowedSeq D env (a.handleNotifications D env (.drainAndCoalesce queue))
        (CoalescedBatch.drainAndCoalesce queue).otherCommands)
      (carefulFiles : CarefulBatch D C env a (.drainAndCoalesce queue))
      (careful : CarefulSeq D C env (a.handleNotifications D env (.drainAndCoalesce queue))
        (CoalescedBatch.drainAndCoalesce queue).otherCommands) :
      CarefulStep D C a (a.handleCoalescedBatch D env (.drainAndCoalesce queue))

/-! ## File changes -/

namespace Preserved

variable {D : LineDiff} {C : Caution} {P : Actor → Prop} {env : Env} {a : Actor} {p : PathBuf}
  {st : FileHunkState} {hs : List Hunk}

theorem discover (H : Preserved D C P) (h : P a) (env : Env) : P (a.discover env) := by
  obtain ⟨g, hg⟩ := a.discover_eq env
  rw [hg]
  exact H.congr h rfl rfl rfl rfl rfl rfl

theorem takeBaseline (H : Preserved D C P) (h : P a) (env : Env) (p : PathBuf)
    (preloaded : Option FileContentState) : P (a.takeBaseline env p preloaded).2 := by
  cases preloaded with
  | none => exact H.discover h env
  | some b => exact h

theorem trackFile (H : Preserved D C P) (h : P a) (hp : a.file p = none) (hnil : st.hunks = []) :
    P (a.trackFile p st) :=
  H.announce (H.setFile h (by rw [hnil, Actor.hunksAt, hp]; rfl)) trivial

theorem recomputeSound (H : Preserved D C P) (h : P a) (hi : Sound D a)
    (current : Option FileContentState) (source : HunkSource) :
    P (a.recomputeHunks D env p current source) :=
  H.recompute (Inv.weaken hi p) h current source

theorem recordAgentWrite (H : Preserved D C P) (h : P a) (hi : Sound D a) (content : Text)
    (k : Nat) (previousContent : Option Text)
    (hc : (classifyString content).isDiffable = true ∨ C.drop (a.hunksAt p)) :
    P (a.recordAgentWrite D env p content k previousContent) := by
  unfold Actor.recordAgentWrite
  dsimp only
  split
  · next hbinary =>
    unfold Actor.recordOpaqueWrite
    split
    · next hnone =>
      refine H.trackFile (H.takeBaseline h env p _) ?_ (by rfl)
      rw [Actor.file_takeBaseline]
      exact hnone
    · next st hst =>
      refine H.clear hi h (hc.resolve_left ?_) (by rfl)
      rw [hbinary]
      exact Bool.false_ne_true
  · split
    · next hnone =>
      refine H.recomputeSound (H.trackFile (H.discover h env) ?_ (by rfl))
        (Inv.trackFile (Inv.discover hi env) (by rfl)) _ _
      rw [Actor.file_discover]
      exact hnone
    · next st hst =>
      refine H.recomputeSound (H.setFile h ?_) (Sound.setFlags hi hst) _ _
      rw [Actor.hunksAt, hst]
      rfl

theorem discoverFile (H : Preserved D C P) (h : P a) (hi : Sound D a) (hp : a.file p = none)
    (preloaded : Option FileContentState) : P (a.discoverFile D env p preloaded) := by
  have hread := H.takeBaseline h env p preloaded
  have hiread := Sound.takeBaseline hi env p preloaded
  have hnone : (a.takeBaseline env p preloaded).2.file p = none := by
    rw [Actor.file_takeBaseline]
    exact hp
  unfold Actor.discoverFile
  dsimp only
  split
  · exact hread
  · split
    · split
      · exact H.recomputeSound (H.trackFile hread hnone (by rfl))
          (Inv.trackFile hiread (by rfl)) _ _
      · exact H.trackFile hread hnone (by rfl)
    · exact H.recomputeSound (H.trackFile hread hnone (by rfl))
        (Inv.trackFile hiread (by rfl)) _ _

/-- What a preloaded baseline is good for: it is the one that would be
read. -/
def Preloaded (env : Env) (a : Actor) (p : PathBuf) (preloaded : Option FileContentState) :
    Prop :=
  preloaded = none ∨ preloaded = some (a.headContent env p)

theorem Preloaded.fst_takeBaseline {preloaded : Option FileContentState}
    (h : Preloaded env a p preloaded) :
    (a.takeBaseline env p preloaded).1 = a.headContent env p := by
  rcases h with rfl | rfl <;> rfl

theorem processFileChange (H : Preserved D C P) (h : P a) (hi : Sound D a)
    {preloaded : Option FileContentState} (hpre : Preloaded env a p preloaded)
    (hc : CarefulChange C env a p) : P (a.processFileChange D env p preloaded) := by
  unfold Actor.processFileChange
  split
  · next hnone =>
    split
    · exact h
    · exact H.discoverFile h hi hnone preloaded
  · next st hst =>
    dsimp only
    split
    · next hacc =>
      have hread := H.takeBaseline h env p preloaded
      have hiread := Sound.takeBaseline hi env p preloaded
      split
      · next hmatch =>
        refine H.clear hiread hread ?_ (by rfl)
        rw [Actor.hunksAt, Actor.file_takeBaseline]
        refine hc ⟨st, hst, hacc, ?_⟩
        rw [hpre.fst_takeBaseline,
          (Actor.Local.takeBaseline env p a preloaded).contentMatchesHead] at hmatch
        exact hmatch
      · exact H.recomputeSound hread hiread _ _
    · exact H.recomputeSound h hi _ _

theorem handleFileDeleted (H : Preserved D C P) (h : P a) (hi : Sound D a)
    (hc : env.pathExists p = true → CarefulChange C env a p) :
    P (a.handleFileDeleted D env p) := by
  unfold Actor.handleFileDeleted
  split
  · next hnone =>
    split
    · exact h
    · dsimp only
      split
      · exact H.discover h env
      · refine H.recomputeSound (H.trackFile (H.discover h env) ?_ (by rfl))
          (Inv.trackFile (Inv.discover hi env) (by rfl)) _ _
        rw [Actor.file_discover]
        exact hnone
  · split
    · next hex => exact H.processFileChange h hi (.inl rfl) (hc hex)
    · exact H.recomputeSound h hi _ _

theorem careful_of_untracked (hp : a.file p = none) : CarefulChange C env a p := by
  rintro ⟨st, hst, -⟩
  rw [hp] at hst
  cases hst

theorem careful_local {b : Actor} {q : PathBuf} (hq : b.file q = a.file q)
    (hl : Actor.Local env p a b) (h : CarefulChange C env a q) : CarefulChange C env b q := by
  rintro ⟨st, hst, hacc, hmatch⟩
  rw [Actor.hunksAt, hq]
  rw [hq] at hst
  rw [hl.headContent q, hl.contentMatchesHead q] at hmatch
  exact h ⟨st, hst, hacc, hmatch⟩

theorem foldl_processFileChange (H : Preserved D C P) (h : P a) (hi : Sound D a)
    {ps : List PathBuf} (hnodup : ps.Nodup) (pre : PathBuf → Option FileContentState)
    (hc : ∀ p ∈ ps, CarefulChange C env a p ∧ Preloaded env a p (pre p)) :
    P (ps.foldl (fun b p => b.processFileChange D env p (pre p)) a) := by
  refine (Actor.Local.foldl_induction env id (fun b => Sound D b ∧ P b)
    (fun b p => CarefulChange C env b p ∧ Preloaded env b p (pre p))
    (fun b p => Actor.Local.processFileChange D env p b (pre p)) (fun b c p q hq hl hC => ?_)
    (fun b p hb hC => ?_) ps hnodup hc ⟨hi, h⟩).2
  · refine ⟨careful_local (hl.file q hq) hl hC.1, ?_⟩
    rw [Preloaded, hl.headContent q]
    exact hC.2
  · exact ⟨Sound.processFileChange hb.1 _, H.processFileChange hb.2 hb.1 hC.2 hC.1⟩

theorem handleFileChangesBatch (H : Preserved D C P) (h : P a) (hi : Sound D a)
    {ps : List PathBuf} (hnodup : ps.Nodup) (hc : ∀ p ∈ ps, CarefulChange C env a p) :
    P (a.handleFileChangesBatch D env ps) := by
  unfold Actor.handleFileChangesBatch
  dsimp only
  split
  · exact H.foldl_processFileChange h hi hnodup (fun _ => none)
      fun p hp => ⟨hc p hp, .inl rfl⟩
  · refine H.foldl_processFileChange (H.discover h env) (Inv.discover hi env) hnodup _
      fun p hp => ⟨?_, ?_⟩
    · exact careful_local (Actor.file_discover a p env) (Actor.Local.discover env p a) (hc p hp)
    · split
      · right
        rw [(Actor.Local.discover env p a).headContent p]
      · exact .inl rfl

theorem removeAll (H : Preserved D C P) (h : P a) (hi : Sound D a) (hst : a.file p = some st)
    {st' : FileHunkState} (hnil : st'.hunks = []) {e : HunkEvent} (he : e.IsFileEvent) :
    P (((a.setFile p st').unindex st.hunks).sendEvents
      (Actor.supersededEvents p st.hunks ++ [e])) := by
  have hwithout : st'.hunks = Actor.without st st.hunks := by
    rw [hnil]
    refine (filter_eq_nil_iff.mpr fun k hk => ?_).symm
    simpa using ⟨k, hk, rfl⟩
  have hone := H.remove hi h hst (List.Sublist.refl _) hwithout .superseded
  exact H.congr (H.announce hone he) rfl rfl (append_assoc _ _ _).symm rfl rfl rfl

theorem untrackAll (H : Preserved D C P) (h : P a) (hi : Sound D a) (hst : a.file p = some st) :
    P (((a.eraseFile p).unindex st.hunks).sendEvents
      (Actor.supersededEvents p st.hunks ++ [.fileRemoved p])) :=
  H.congr (H.announce (e := .fileRemoved p) (H.untrack hi h hst) trivial) rfl rfl (append_assoc _ _ _).symm
    rfl rfl rfl

theorem resetBaseline (H : Preserved D C P) (h : P a) (hi : Sound D a) : P (a.resetBaseline p) := by
  unfold Actor.resetBaseline
  split
  · exact h
  · next st hst => exact H.removeAll h hi hst (by rfl) trivial

theorem refreshGitDirtyCache (H : Preserved D C P) (h : P a) (hi : Sound D a)
    (scope : Option (List PathBuf)) : P (a.refreshGitDirtyCache D env scope) := by
  unfold Actor.refreshGitDirtyCache
  split
  · exact h
  · have hcache : ∀ dirty staged,
        let b := { a.discover env with gitDirtyCache := dirty, gitStagedCache := staged }
        P b ∧ Sound D b :=
      fun _ _ => ⟨H.congr (H.discover h env) rfl rfl rfl rfl rfl rfl, Inv.congr (Inv.discover hi env) rfl rfl rfl⟩
    dsimp only
    generalize hs : (if (a.discover env).gitRepoState = .discovered then env.gitStatus scope
      else ([], [])) = status
    split
    · -- only files that are not tracked yet
      refine H.foldl_processFileChange (hcache _ _).1 (hcache _ _).2
        (Actor.nodup_untrackedDirty env _ (nodup_dedup _)) (fun _ => none)
        fun p hp => ⟨?_, .inl rfl⟩
      exact careful_of_untracked (Actor.file_of_mem_untrackedDirty hp)
    · exact (hcache _ _).1

theorem refreshFile (H : Preserved D C P) (h : P a) (hi : Sound D a) (baseline : FileContentState) :
    P (a.refreshFile D env p baseline) := by
  unfold Actor.refreshFile
  split
  · exact h
  · next st hst =>
    have hsame : st.hunks = a.hunksAt p := by
      rw [Actor.hunksAt, hst]
      rfl
    dsimp only
    split
    · split
      · exact H.removeAll h hi hst (by rfl) trivial
      · exact H.untrackAll h hi hst
    · exact H.announce (H.recompute (Inv.setFile_exempt hi (by rw [← hsame]))
        (H.setFile h (by exact hsame)) _ _) trivial

theorem foldl {α : Type} {f : Actor → α → Actor} (hi : ∀ a x, Sound D a → Sound D (f a x))
    (hf : ∀ a x, Sound D a → P a → P (f a x)) :
    ∀ (xs : List α) {a : Actor}, Sound D a → P a → P (xs.foldl f a)
  | [], _, _, h => h
  | x :: xs, a, hs, h => foldl hi hf xs (hi a x hs) (hf a x hs h)

theorem refreshAllBaselinesExcept (H : Preserved D C P) (h : P a) (hi : Sound D a)
    (skip : List PathBuf) : P (a.refreshAllBaselinesExcept D env skip) := by
  have hscope : ∀ {b : Actor}, Sound D b → P b →
      P (b.refreshScopedCache D env) ∧ Sound D (b.refreshScopedCache D env) := by
    intro b hib hb
    unfold Actor.refreshScopedCache
    split
    · exact ⟨H.refreshGitDirtyCache hb hib none, Sound.refreshGitDirtyCache hib none⟩
    · dsimp only
      split
      · exact ⟨H.congr hb rfl rfl rfl rfl rfl rfl, Inv.congr hib rfl rfl rfl⟩
      · exact ⟨H.refreshGitDirtyCache hb hib _, Sound.refreshGitDirtyCache hib _⟩
  have htracked : ∀ {b : Actor}, Sound D b → P b →
      P (b.refreshTracked D env skip) := by
    intro b hib hb
    obtain ⟨hc, hic⟩ := hscope hib hb
    unfold Actor.refreshTracked
    dsimp only
    split
    · exact hc
    · exact foldl (fun c q hic => Sound.refreshFile hic _)
        (fun c q hic hc => H.refreshFile hc hic _) _ (Inv.discover hic env) (H.discover hc env)
  have hread : P (a.readRepoSyncState env).2 ∧ Sound D (a.readRepoSyncState env).2 := by
    unfold Actor.readRepoSyncState
    split <;> exact ⟨H.discover h env, Inv.discover hi env⟩
  unfold Actor.refreshAllBaselinesExcept
  split
  · exact h
  · dsimp only
    split
    · split
      · exact hread.1
      · exact htracked (Inv.congr hread.2 rfl rfl rfl) (H.congr hread.1 rfl rfl rfl rfl rfl rfl)
    · exact htracked hread.2 hread.1

theorem setMode (H : Preserved D C P) (h : P a) (hi : Sound D a) (mode : TrackingMode) :
    P (a.setMode D env mode) := by
  have hb : P { a with mode := mode } := H.congr h rfl rfl rfl rfl rfl rfl
  have hib : Sound D { a with mode := mode } := Inv.congr hi rfl rfl rfl
  unfold Actor.setMode
  dsimp only
  split
  · exact H.refreshGitDirtyCache hb hib none
  · refine foldl (fun c q hic => ?_) (fun c q hic hc => ?_) _ hib hb
    · unfold Actor.untrack
      split
      · exact hic
      · exact Inv.sendEvents (Inv.unindex (Inv.eraseFile hic) _) _
    · unfold Actor.untrack
      split
      · exact hc
      · next st hst => exact H.untrackAll hc hic hst
  · exact hb

end Preserved

/-! ## Actions -/

namespace Actor

variable {D : LineDiff} {C : Caution} {env : Env} {a b : Actor} {p q : PathBuf} {hs : List Hunk}

theorem rejectAction_ne_noOp {st : FileHunkState} (hd : Described D p st) (hne : st.hunks ≠ []) :
    rejectAction st hs ≠ .noOp := by
  have ht := hd.resolve_left hne .quiet 0 .external (fun _ _ => rfl)
  have hlen := congrArg List.length ht
  simp only [length_map] at hlen
  have hpos : 0 < st.hunks.length := length_pos_iff.mpr hne
  intro hact
  unfold rejectAction at hact
  revert hlen hact
  cases st.baseline <;> cases st.currentContent <;>
    simp only [hunkTable, length_nil] <;> intro hlen hact <;> first | omega | cases hact

theorem rejectOk_congr (h : a.file p = b.file p) (hs : List Hunk) :
    RejectOk env a p hs ↔ RejectOk env b p hs := by
  rw [RejectOk, RejectOk, h]

theorem snd_rejectHunksBatch_ok :
    (a.rejectHunksBatch D env p hs).2 = .ok () ↔ RejectOk env a p hs := by
  unfold Actor.rejectHunksBatch RejectOk
  split
  · next hnone => simp [hnone]
  · next st hst =>
    simp only [hst, Option.some.injEq, forall_eq']
    split
    · next hnil => simp [hnil]
    · next hne =>
      cases Actor.rejectAction st hs with
      | restoreDeleted b => cases hw : env.writeOk p <;> simp [succeeds, hw, hne]
      | deleteCreated => cases hw : env.removeOk p <;> simp [succeeds, hw, hne]
      | revertChange c => cases hw : env.writeOk p <;> simp [succeeds, hw, hne]
      | noOp => simp [succeeds]

theorem snd_applyToFile_reject_ok :
    (a.applyToFile D env p hs .reject).2 = .ok () ↔ RejectOk env a p hs :=
  snd_rejectHunksBatch_ok

theorem carefulReject_frame {files : List (PathBuf × List Hunk)} (hp : p ∉ files.map (·.1))
    (frame : ∀ q, q ≠ p → b.file q = a.file q) (h : CarefulReject C env a files) :
    CarefulReject C env b files := by
  induction files with
  | nil => trivial
  | cons f files ih =>
    obtain ⟨q, hs⟩ := f
    rw [map_cons, mem_cons, not_or] at hp
    have hq : RejectOk env b q hs ↔ RejectOk env a q hs :=
      rejectOk_congr (frame q (Ne.symm hp.1)) hs
    exact ⟨h.1.imp_left hq.mpr, fun hok => ih hp.2 (h.2 (hq.mp hok))⟩

end Actor

namespace Preserved

variable {D : LineDiff} {C : Caution} {P : Actor → Prop} {env : Env} {a : Actor} {p : PathBuf}
  {st : FileHunkState} {hs : List Hunk}

theorem bookNil (H : Preserved D C P) (h : P a) (action : HunkAction) : P (a.book [] action) :=
  H.congr h rfl rfl rfl rfl rfl rfl

theorem nil_of_untracked (hp : a.file p = none) (hsub : hs.Sublist (a.hunksAt p)) : hs = [] := by
  rw [Actor.hunksAt, hp] at hsub
  exact sublist_nil.mp hsub

theorem acceptHunksBatch (H : Preserved D C P) (h : P a) (hi : Sound D a)
    (hsub : hs.Sublist (a.hunksAt p)) :
    P ((a.book hs .accept).acceptHunksBatch D env p hs) := by
  unfold Actor.acceptHunksBatch
  split
  · next hnone =>
    rw [nil_of_untracked hnone hsub]
    exact H.bookNil h _
  · next st hst =>
    have hst' : a.file p = some st := hst
    rw [Actor.hunksAt, hst'] at hsub
    split
    · next hnil =>
      rw [hnil]
      exact H.bookNil h _
    · -- in both branches the hunks leave and the baseline moves
      have hgone : ∀ st', st'.hunks = Actor.without st hs →
          P (((a.book hs .accept).setFile p st').sendEvents
            (Actor.removedEvents p hs .accepted ++ [.baselineUpdated p])) := by
        intro st' hkeep
        have hone := H.remove hi h hst' hsub hkeep .accepted
        exact H.congr (H.announce (e := .baselineUpdated p) hone trivial) rfl rfl
          (append_assoc _ _ _).symm rfl rfl rfl
      dsimp only
      split
      · exact hgone _ (by rfl)
      · exact H.recompute (Inv.sendEvents
          (Inv.setFile_exempt (Inv.book hi hs _) (Sound.without_sublist hst)) _)
          (hgone _ (by rfl)) _ _

theorem rejectHunksBatch (H : Preserved D C P) (h : P a) (hi : Sound D a)
    (hsub : hs.Sublist (a.hunksAt p)) (hc : RejectOk env a p hs ∨ C.fail hs) :
    P ((a.book hs .reject).rejectHunksBatch D env p hs).1 := by
  unfold Actor.rejectHunksBatch
  split
  · next hnone =>
    rw [nil_of_untracked hnone hsub]
    exact H.bookNil h _
  · next st hst =>
    have hst' : a.file p = some st := hst
    rw [Actor.hunksAt, hst'] at hsub
    split
    · next hnil =>
      rw [hnil]
      exact H.bookNil h _
    · next hne =>
      have hgone : ∀ st' e, st'.hunks = Actor.without st hs →
          P ((((a.book hs .reject).did e).setFile p st').sendEvents
            (Actor.removedEvents p hs .rejected)) := by
        intro st' e hkeep
        exact H.congr (H.remove hi h hst' hsub hkeep .rejected) rfl rfl rfl rfl rfl rfl
      -- a failed operation finds only hunks that may be booked
      have hfail : succeeds env p (Actor.rejectAction st hs) ≠ true → P (a.book hs .reject) :=
        fun hno => H.fail h (hc.resolve_left fun hok => hno (hok st hst' hne))
      dsimp only
      split
      · next b hact =>
        split
        · exact hgone _ _ (by rfl)
        · next hw => exact hfail (by rw [hact]; exact hw)
      · next hact =>
        split
        · exact hgone _ _ (by rfl)
        · next hw => exact hfail (by rw [hact]; exact hw)
      · next patched hact =>
        split
        · exact H.recompute (Inv.sendEvents
            (Inv.setFile_exempt (Inv.did (Inv.book hi hs _) _) (Sound.without_sublist hst)) _)
            (hgone _ _ (by rfl)) _ _
        · next hw => exact hfail (by rw [hact]; exact hw)
      · next hact =>
        obtain ⟨k, hk⟩ := exists_mem_of_ne_nil _ hne
        have hne' : st.hunks ≠ [] := List.ne_nil_of_mem (hsub.subset hk)
        exact absurd hact (Actor.rejectAction_ne_noOp (hi.described p st id hst') hne')

theorem applyToFile (H : Preserved D C P) (h : P a) (hi : Sound D a)
    (hsub : hs.Sublist (a.hunksAt p)) (action : HunkAction)
    (hc : action = .reject → RejectOk env a p hs ∨ C.fail hs) :
    P (a.applyToFile D env p hs action).1 := by
  cases action with
  | accept => exact H.acceptHunksBatch h hi hsub
  | reject => exact H.rejectHunksBatch h hi hsub (hc rfl)

theorem applyActionBatch (H : Preserved D C P) (action : HunkAction)
    (files : List (PathBuf × List Hunk)) : ∀ {a : Actor}, P a → Sound D a →
    (files.map (·.1)).Nodup → (∀ f ∈ files, f.2.Sublist (a.hunksAt f.1)) →
    (action = .reject → CarefulReject C env a files) →
    P (a.applyActionBatch D env action files).1 := by
  induction files with
  | nil => exact fun h _ _ _ _ => h
  | cons f files ih =>
    intro a h hi hnodup hsub hc
    obtain ⟨p, hs⟩ := f
    rw [map_cons, nodup_cons] at hnodup
    have hsub1 : hs.Sublist (a.hunksAt p) := hsub (p, hs) (by simp)
    have hone : P (a.applyToFile D env p hs action).1 :=
      H.applyToFile h hi hsub1 action fun hr => (hc hr).1
    have hione := Sound.applyToFile env hi (fun k hk => hsub1.subset hk) action
    rw [Actor.fst_applyActionBatch_cons]
    split
    · exact hone
    · next hres =>
      refine ih hone hione hnodup.2 (fun f hf => ?_) fun hr => ?_
      · have hne : f.1 ≠ p := by
          rintro rfl
          exact hnodup.1 (List.mem_map.mpr ⟨f, hf, rfl⟩)
        rw [Actor.hunksAt, Actor.file_applyToFile_ne hne]
        exact hsub f (by simp [hf])
      · subst hr
        refine Actor.carefulReject_frame hnodup.1
          (fun q hq => Actor.file_applyToFile_ne hq .reject) ((hc rfl).2 ?_)
        exact Actor.snd_applyToFile_reject_ok.mp hres

/-! ## Commands and runs -/

theorem handleCommand (H : Preserved D C P) (h : P a) (hi : Sound D a)
    {cmd : HunkTrackerCommand} (hcmd : a.Allowed cmd) (hc : Careful C env a cmd) :
    P (a.handleCommand D env cmd) := by
  cases cmd with
  | recordAgentWrite p content k prev => exact H.recordAgentWrite h hi content k prev hc
  | handleFileChange p => exact H.processFileChange h hi (.inl rfl) hc
  | handleFileDeleted p => exact H.handleFileDeleted h hi hc
  | refreshGitDirtyCache => exact H.refreshGitDirtyCache h hi none
  | resetBaseline p => exact H.resetBaseline h hi
  | setMode mode => exact H.setMode h hi mode
  | hunkAction id action =>
    simp only [Actor.handleCommand, Actor.applyHunkAction]
    split
    · exact h
    · next p k hfind =>
      refine H.applyToFile h hi ?_ action fun hr => ?_
      · exact singleton_sublist.mpr (Actor.mem_findHunk hfind).1
      · subst hr
        exact (hc p k hfind).1
  | fileAction p action =>
    simp only [Actor.handleCommand, Actor.applyFileAction]
    split
    · exact h
    · next st hst =>
      have hat : a.hunksAt p = st.hunks := by
        rw [Actor.hunksAt, hst]
        rfl
      split
      · exact h
      · refine H.applyActionBatch action _ h hi (by simp) (fun f hf => ?_) fun hr => ?_
        · rw [mem_singleton.mp hf, hat]
        · subst hr
          rw [← hat]
          exact hc
  | allAction action =>
    obtain ⟨h1, h2⟩ := Actor.filesWithHunks_spec env a fun _ => true
    refine H.applyActionBatch action _ h hi h1 h2 fun hr => ?_
    subst hr
    exact hc
  | turnAction k action =>
    obtain ⟨h1, h2⟩ := Actor.filesWithHunks_spec env a fun h => h.source.promptIndex == some k
    refine H.applyActionBatch action _ h hi h1 h2 fun hr => ?_
    subst hr
    exact hc
  | query q =>
    cases q with
    | snapshotState => exact H.snapshot h
    | _ => exact h
  | resetStats => exact H.congr h rfl rfl rfl rfl rfl rfl
  | refreshAllBaselines => exact H.refreshAllBaselinesExcept h hi []
  | restoreState s => exact H.restore h hcmd hc

theorem handleCommands (H : Preserved D C P) (cmds : List HunkTrackerCommand) :
    ∀ {a : Actor}, P a → Sound D a → Actor.AllowedSeq D env a cmds → CarefulSeq D C env a cmds →
    P (a.handleCommands D env cmds) := by
  induction cmds with
  | nil => exact fun h _ _ _ => h
  | cons cmd cmds ih =>
    exact fun h hi hcmd hc =>
      ih (H.handleCommand h hi hcmd.1 hc.1) (Sound.handleCommand hi env hcmd.1) hcmd.2 hc.2

theorem nodup_order (env : Env) (b : CoalescedBatch) : (env.order b.fileActions.keys).Nodup :=
  (env.order_perm _).nodup_iff.mpr b.fileActions.nodupKeys

theorem foldl_handleBeforeRefresh (H : Preserved D C P) (h : P a) (hi : Sound D a) (b : CoalescedBatch)
    (hc : ∀ p ∈ b.fileActions.keys, b.fileActions.lookup p = some .deleted →
      env.pathExists p = true → CarefulChange C env a p) :
    Sound D ((env.order b.fileActions.keys).foldl
        (Actor.handleBeforeRefresh D env b) (a, [])).1
      ∧ P ((env.order b.fileActions.keys).foldl
        (Actor.handleBeforeRefresh D env b) (a, [])).1 := by
  refine Actor.Local.foldl_induction env Prod.fst
    (fun s => Sound D s.1 ∧ P s.1)
    (fun c p => b.fileActions.lookup p = some .deleted → env.pathExists p = true →
      CarefulChange C env c p)
    (Actor.Local.handleBeforeRefresh D env b)
    (fun c d p q hq hl hC hdel hex => careful_local (hl.file q hq) hl (hC hdel hex))
    (fun s p hs hC => ?_) _ (nodup_order env b) (fun p hp => ?_) ⟨hi, h⟩
  · unfold Actor.handleBeforeRefresh
    split
    · next hdel =>
      split
      · exact hs
      · exact ⟨Sound.handleFileDeleted hs.1, H.handleFileDeleted hs.2 hs.1 (hC hdel)⟩
    · split
      · next hnone =>
        exact ⟨Sound.processFileChange hs.1 none,
          H.processFileChange hs.2 hs.1 (.inl rfl) (careful_of_untracked hnone)⟩
      · exact hs
  · exact hc p ((env.order_perm _).mem_iff.mp hp)

/-- The deletions of a batch. Those of other paths are still to come. -/
theorem foldl_handleFileDeleted (H : Preserved D C P) (h : P a) (hi : Sound D a) {ps qs : List PathBuf}
    (hnodup : ps.Nodup) (hdisj : ∀ p ∈ ps, p ∉ qs)
    (hp : ∀ p ∈ ps, env.pathExists p = true → CarefulChange C env a p)
    (hq : ∀ q ∈ qs, CarefulChange C env a q) :
    let b := ps.foldl (fun c p => c.handleFileDeleted D env p) a
    Sound D b ∧ P b ∧ ∀ q ∈ qs, CarefulChange C env b q := by
  refine Actor.Local.foldl_induction env id
    (fun c => Sound D c ∧ P c ∧ ∀ q ∈ qs, CarefulChange C env c q)
    (fun c p => p ∉ qs ∧ (env.pathExists p = true → CarefulChange C env c p))
    (fun c p => Actor.Local.handleFileDeleted D env p c)
    (fun c d p q hne hl hC => ⟨hC.1, fun hex => careful_local (hl.file q hne) hl (hC.2 hex)⟩)
    (fun c p hc hC => ?_) ps hnodup (fun p hmem => ⟨hdisj p hmem, hp p hmem⟩) ⟨hi, h, hq⟩
  refine ⟨Sound.handleFileDeleted hc.1, H.handleFileDeleted hc.2.1 hc.1 hC.2, fun q hmem => ?_⟩
  have hl := Actor.Local.handleFileDeleted D env p c
  have hne : q ≠ p := by
    rintro rfl
    exact hC.1 hmem
  exact careful_local (hl.file q hne) hl (hc.2.2 q hmem)

theorem handleNotifications (H : Preserved D C P) (h : P a) (hi : Sound D a) (b : CoalescedBatch)
    (hc : CarefulBatch D C env a b) : P (a.handleNotifications D env b) := by
  have hdirty : P (afterDirtyRefresh D env a b)
      ∧ Sound D (afterDirtyRefresh D env a b) := by
    unfold afterDirtyRefresh
    split
    · exact ⟨H.refreshGitDirtyCache h hi none, Sound.refreshGitDirtyCache hi none⟩
    · exact ⟨h, hi⟩
  have hdel : ∀ p ∈ b.fileActions.keys, b.fileActions.lookup p = some .deleted →
      env.pathExists p = true → CarefulChange C env (afterDirtyRefresh D env a b) p := by
    intro p hp hlook
    have := hc p hp
    rwa [if_pos hlook] at this
  change P (if b.refreshAll = true then _ else _)
  split
  · obtain ⟨h1, h2⟩ := H.foldl_handleBeforeRefresh hdirty.1 hdirty.2 b hdel
    exact H.refreshAllBaselinesExcept h2 h1 _
  · next hall =>
    have hmem : ∀ {p}, p ∈ env.order b.fileActions.keys → p ∈ b.fileActions.keys :=
      (env.order_perm _).mem_iff.mp
    have hapart : ∀ p ∈ b.deletedPaths env, p ∉ b.changedPaths env := by
      intro p hp hq
      have h1 := (mem_filter.mp hp).2
      have h2 := (mem_filter.mp hq).2
      simp only [decide_eq_true_eq] at h1 h2
      exact h2 h1
    have hdeleted : ∀ p ∈ b.deletedPaths env, env.pathExists p = true →
        CarefulChange C env (afterDirtyRefresh D env a b) p := by
      intro p hp
      obtain ⟨h1, h2⟩ := mem_filter.mp hp
      exact hdel p (hmem h1) (by simpa using h2)
    have hchanged : ∀ p ∈ b.changedPaths env,
        CarefulChange C env (afterDirtyRefresh D env a b) p := by
      intro p hp
      obtain ⟨h1, h2⟩ := mem_filter.mp hp
      have := hc p (hmem h1)
      rw [if_neg (by simpa using h2)] at this
      exact this (by simpa using hall)
    obtain ⟨h1, h2, h3⟩ := H.foldl_handleFileDeleted hdirty.1 hdirty.2
      ((nodup_order env b).filter _) hapart hdeleted hchanged
    exact H.handleFileChangesBatch h2 h1 ((nodup_order env b).filter _) h3

theorem step (H : Preserved D C P) {a' : Actor} (h : P a) (hi : Sound D a) (hs : CarefulStep D C a a') :
    P a' ∧ Sound D a' := by
  cases hs with
  | command env _ cmd allowed careful =>
    exact ⟨H.handleCommand h hi allowed careful, Sound.handleCommand hi env allowed⟩
  | batch env _ queue allowed carefulFiles careful =>
    have hn := H.handleNotifications h hi _ carefulFiles
    have hin := Sound.handleNotifications hi env (.drainAndCoalesce queue)
    exact ⟨H.handleCommands _ hn hin allowed careful, Sound.handleCommands env _ hin allowed⟩

/-- **A run of careful turns** keeps every such assertion. -/
theorem run (H : Preserved D C P) {workingDir : PathBuf} {mode : TrackingMode}
    (hnew : P (Actor.new workingDir mode))
    (h : Relation.ReflTransGen (CarefulStep D C) (Actor.new workingDir mode) a) :
    P a ∧ Sound D a := by
  induction h with
  | refl => exact ⟨hnew, Sound.new workingDir mode⟩
  | tail _ hstep ih => exact H.step ih.1 ih.2 hstep

end Preserved

end GrokBuild.HunkTracker
