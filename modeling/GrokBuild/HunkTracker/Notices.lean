import GrokBuild.HunkTracker.Coalesce

/-!
# Hunk tracker: runs of notifications

What a notification does to its file, up to the hunks, depends on the file
and on a few things that notifications do not change (`SameView`). So a run
of notifications acts on each path separately (`trace`), and where the
notifications of a path are `Superseding` only the last one counts.
-/

namespace GrokBuild.HunkTracker

open TextLines Str EditScript List Option

/-- A file state up to its hunks. -/
def FileHunkState.bare (st : FileHunkState) : FileHunkState := { st with hunks := [] }

namespace Actor

def bareFile (a : Actor) (p : PathBuf) : Option FileHunkState := (a.file p).map (·.bare)

/-- What a client sees of a path: whether it is tracked, its content and who
owns it. -/
def observed (a : Actor) (p : PathBuf) : Option (FileContentState × Bool) :=
  (a.file p).map fun st => (st.currentContent, st.isAgentFile)

/-! ## One notification -/

/-- What a notification reads from the rest of the actor. -/
structure SameView (env : Env) (a b : Actor) : Prop where
  mode : b.mode = a.mode
  isDirty : ∀ q, b.isDirty q = a.isDirty q
  headContent : ∀ q, b.headContent env q = a.headContent env q

variable {env : Env} {p : PathBuf} {a b : Actor}

theorem Local.view (h : Local env p a b) : SameView env a b :=
  ⟨h.mode, h.isDirty, h.headContent⟩

def handleNotice (D : LineDiff) (env : Env) (a : Actor) (p : PathBuf) : Notice → Actor
  | .changed => a.handleFileChange D env p
  | .deleted => a.handleFileDeleted D env p

/-- A change, on the file state up to hunks. -/
def changedTo (env : Env) (a : Actor) (p : PathBuf) :
    Option FileHunkState → Option FileHunkState
  | none =>
    let current := readFileBounded (env.disk p)
    let head := a.headContent env p
    if a.mode = .agentOnly ∨ a.isIgnored env p head = true then none
    else some (externalFile head
      (if current.isDiffable = false ∧ head.isDiffable = true then .missing else current))
  | some st =>
    let current := readFileBounded (env.disk p)
    let head := a.headContent env p
    if st.baselineAccepted = true ∧ a.contentMatchesHead p current head = true then
      some { st with
        baseline := head, currentContent := head, baselineAccepted := false, hunks := [] }
    else some { st with currentContent := current, hunks := [] }

/-- A deletion, on the file state up to hunks. -/
def deletedTo (env : Env) (a : Actor) (p : PathBuf) :
    Option FileHunkState → Option FileHunkState
  | none =>
    if a.mode = .agentOnly ∨ env.pathExists p = true ∨ a.headContent env p = .missing then none
    else some (externalFile (a.headContent env p) .missing)
  | some st =>
    if env.pathExists p then a.changedTo env p (some st)
    else some { st with currentContent := .missing, hunks := [] }

def noticeTo (env : Env) (a : Actor) (p : PathBuf) (n : Notice) (f : Option FileHunkState) :
    Option FileHunkState :=
  match n with
  | .changed => a.changedTo env p f
  | .deleted => a.deletedTo env p f

/-- Does the notification look at the repository? -/
def noticeReads (env : Env) (a : Actor) (p : PathBuf) (n : Notice) (f : Option FileHunkState) :
    Bool :=
  match n, f with
  | .changed, none => a.mode != .agentOnly
  | .changed, some st => st.baselineAccepted
  | .deleted, none => a.mode != .agentOnly && !env.pathExists p
  | .deleted, some st => env.pathExists p && st.baselineAccepted

theorem Local.notice (D : LineDiff) (env : Env) (p : PathBuf) (a : Actor) (n : Notice) :
    Local env p a (a.handleNotice D env p n) := by
  cases n with
  | changed => exact Local.processFileChange D env p a none
  | deleted => exact Local.handleFileDeleted D env p a

theorem isIgnored_congr (h : SameView env a b) (p : PathBuf) (x : FileContentState) :
    b.isIgnored env p x = a.isIgnored env p x := by
  unfold isIgnored
  rw [h.mode, h.isDirty]

theorem contentMatchesHead_congr (h : SameView env a b) (p : PathBuf) (x y : FileContentState) :
    b.contentMatchesHead p x y = a.contentMatchesHead p x y := by
  unfold contentMatchesHead
  rw [h.isDirty]

theorem changedTo_congr (h : SameView env a b) (p : PathBuf) (f : Option FileHunkState) :
    b.changedTo env p f = a.changedTo env p f := by
  cases f with
  | none => simp only [changedTo, h.mode, h.headContent, isIgnored_congr h]
  | some st => simp only [changedTo, h.headContent, contentMatchesHead_congr h]

theorem noticeTo_congr (h : SameView env a b) (p : PathBuf) (n : Notice) (f : Option FileHunkState) :
    b.noticeTo env p n f = a.noticeTo env p n f := by
  cases n with
  | changed => exact changedTo_congr h p f
  | deleted =>
    cases f with
    | none => simp only [noticeTo, deletedTo, h.mode, h.headContent]
    | some st => simp only [noticeTo, deletedTo, changedTo_congr h]

theorem noticeReads_congr (h : SameView env a b) (p : PathBuf) (n : Notice) (f : Option FileHunkState) :
    b.noticeReads env p n f = a.noticeReads env p n f := by
  cases n <;> cases f <;> simp only [noticeReads, h.mode]

theorem bareFile_recomputeHunks (D : LineDiff) (env : Env) (a : Actor) (p : PathBuf)
    (current : Option FileContentState) (source : HunkSource) :
    (a.recomputeHunks D env p current source).bareFile p =
      (a.bareFile p).map fun st => { st with currentContent := current.getD .missing } := by
  cases hf : a.file p with
  | none =>
    have h : a.recomputeHunks D env p current source = a := by simp only [recomputeHunks, hf]
    rw [h]
    simp [bareFile, hf]
  | some st =>
    simp only [bareFile, file_recomputeHunks_self D env hf, hf, map_some]
    rfl

theorem bareFile_setFile (a : Actor) (p : PathBuf) (st : FileHunkState) :
    (a.setFile p st).bareFile p = some st.bare := by
  simp [bareFile]

theorem bareFile_trackFile (a : Actor) (p : PathBuf) (st : FileHunkState) :
    (a.trackFile p st).bareFile p = some st.bare :=
  bareFile_setFile a p st

theorem bareFile_discoverFile (D : LineDiff) (env : Env) (hf : a.file p = none)
    (hm : a.mode ≠ .agentOnly) : (a.discoverFile D env p none).bareFile p = a.changedTo env p none := by
  have hview : SameView env a (a.discover env) := (Local.discover env p a).view
  have hread : a.takeBaseline env p none = (a.headContent env p, a.discover env) := rfl
  rw [discoverFile, hread]
  simp only [isIgnored_congr hview, changedTo]
  by_cases hign : a.isIgnored env p (a.headContent env p) = true
  · rw [if_pos hign, if_pos (.inr hign), bareFile, file_discover, hf]
    rfl
  · have hkeep : ¬ (a.mode = .agentOnly ∨ a.isIgnored env p (a.headContent env p) = true) := by
      rw [not_or]
      exact ⟨hm, hign⟩
    rw [if_neg hign, if_neg hkeep]
    by_cases hcur : (readFileBounded (env.disk p)).isDiffable = false
    · rw [if_pos hcur]
      by_cases hhead : (a.headContent env p).isDiffable = true
      · rw [if_pos hhead, bareFile_recomputeHunks, bareFile_trackFile, if_pos ⟨hcur, hhead⟩]
        rfl
      · rw [if_neg hhead, bareFile_trackFile, if_neg (fun h => hhead h.2)]
        rfl
    · rw [if_neg hcur, bareFile_recomputeHunks, bareFile_trackFile, if_neg (fun h => hcur h.1)]
      rfl

theorem bareFile_handleFileChange (D : LineDiff) (env : Env) (a : Actor) (p : PathBuf) :
    (a.handleFileChange D env p).bareFile p = a.changedTo env p (a.bareFile p) := by
  rw [handleFileChange, processFileChange]
  cases hf : a.file p with
  | none =>
    have hbare : a.bareFile p = none := by rw [bareFile, hf]; rfl
    dsimp only
    by_cases hm : a.mode = .agentOnly
    · rw [if_pos hm, hbare, changedTo]
      simp [hm]
    · rw [if_neg hm, hbare, bareFile_discoverFile D env hf hm]
  | some st =>
    have hbare : a.bareFile p = some st.bare := by rw [bareFile, hf]; rfl
    have hview : SameView env a (a.discover env) := (Local.discover env p a).view
    have hread : a.takeBaseline env p none = (a.headContent env p, a.discover env) := rfl
    have hdisc : (a.discover env).bareFile p = some st.bare := by
      rw [bareFile, file_discover, hf]
      rfl
    simp only [hread, contentMatchesHead_congr hview, hbare, changedTo]
    by_cases hacc : st.baselineAccepted = true
    · have hacc' : st.bare.baselineAccepted = true := hacc
      rw [if_pos hacc]
      by_cases hhead : a.contentMatchesHead p (readFileBounded (env.disk p))
          (a.headContent env p) = true
      · rw [if_pos hhead, if_pos ⟨hacc', hhead⟩, restoreToHead, bareFile_setFile]
        rfl
      · rw [if_neg hhead, if_neg (fun h => hhead h.2), bareFile_recomputeHunks, hdisc]
        rfl
    · have hacc' : ¬ st.bare.baselineAccepted = true := hacc
      rw [if_neg hacc, if_neg (fun h => hacc' h.1), bareFile_recomputeHunks, hbare]
      rfl

theorem handleFileDeleted_untracked (D : LineDiff) (env : Env) (hf : a.file p = none)
    (h : ¬ (a.mode = .agentOnly ∨ env.pathExists p = true)) :
    a.handleFileDeleted D env p =
      if a.headContent env p = .missing then a.discover env
      else ((a.discover env).trackFile p
        (externalFile (a.headContent env p) .missing)).recomputeHunks D env p none .external := by
  rw [handleFileDeleted, hf]
  exact if_neg h

theorem handleFileDeleted_skipped (D : LineDiff) (env : Env) (hf : a.file p = none)
    (h : a.mode = .agentOnly ∨ env.pathExists p = true) : a.handleFileDeleted D env p = a := by
  rw [handleFileDeleted, hf]
  exact if_pos h

variable {st : FileHunkState}

theorem handleFileDeleted_tracked (D : LineDiff) (env : Env) (hf : a.file p = some st) :
    a.handleFileDeleted D env p =
      if env.pathExists p then a.handleFileChange D env p
      else a.recomputeHunks D env p none (externalSource st) := by
  rw [handleFileDeleted, hf]

theorem bareFile_handleNotice (D : LineDiff) (env : Env) (a : Actor) (p : PathBuf)
    (n : Notice) :
    (a.handleNotice D env p n).bareFile p = a.noticeTo env p n (a.bareFile p) := by
  cases n with
  | changed => exact bareFile_handleFileChange D env a p
  | deleted =>
    rw [handleNotice, noticeTo]
    cases hf : a.file p with
    | none =>
      have hbare : a.bareFile p = none := by rw [bareFile, hf]; rfl
      rw [hbare, deletedTo]
      by_cases h : a.mode = .agentOnly ∨ env.pathExists p = true
      · rw [handleFileDeleted_skipped D env hf h, hbare, if_pos (by tauto)]
      · rw [handleFileDeleted_untracked D env hf h]
        by_cases hmiss : a.headContent env p = .missing
        · rw [if_pos hmiss, if_pos (.inr (.inr hmiss)), bareFile, file_discover, hf]
          rfl
        · rw [if_neg hmiss, if_neg (by tauto), bareFile_recomputeHunks, bareFile_trackFile]
          rfl
    | some st =>
      have hbare : a.bareFile p = some st.bare := by rw [bareFile, hf]; rfl
      rw [hbare, deletedTo, handleFileDeleted_tracked D env hf]
      split
      · rw [bareFile_handleFileChange, hbare]
      · rw [bareFile_recomputeHunks, hbare]
        rfl

theorem gitRepoState_handleNotice (D : LineDiff) (env : Env) (a : Actor) (p : PathBuf)
    (n : Notice) :
    (a.handleNotice D env p n).gitRepoState =
      if a.noticeReads env p n (a.bareFile p) then (a.discover env).gitRepoState
      else a.gitRepoState := by
  have hneeds : a.needsBaseline p = a.noticeReads env p .changed (a.bareFile p) := by
    unfold needsBaseline bareFile
    cases a.file p <;> rfl
  cases n with
  | changed => rw [handleNotice, gitRepoState_handleFileChange, hneeds]
  | deleted =>
    rw [handleNotice]
    cases hf : a.file p with
    | none =>
      have hbare : a.bareFile p = none := by rw [bareFile, hf]; rfl
      rw [hbare]
      by_cases h : a.mode = .agentOnly ∨ env.pathExists p = true
      · have hread : a.noticeReads env p .deleted none = false := by
          rcases h with h | h <;> simp [noticeReads, h]
        rw [handleFileDeleted_skipped D env hf h, hread]
        rfl
      · have hread : a.noticeReads env p .deleted none = true := by
          simp only [not_or] at h
          simp [noticeReads, h.1, h.2]
        rw [handleFileDeleted_untracked D env hf h, hread, if_pos rfl]
        split
        · rfl
        · rw [gitRepoState_recomputeHunks, gitRepoState_trackFile]
    | some st =>
      have hbare : a.bareFile p = some st.bare := by rw [bareFile, hf]; rfl
      rw [hbare] at hneeds ⊢
      rw [handleFileDeleted_tracked D env hf]
      by_cases hx : env.pathExists p = true
      · have hread : a.noticeReads env p .deleted (some st.bare) =
            a.noticeReads env p .changed (some st.bare) := by simp [noticeReads, hx]
        rw [if_pos hx, gitRepoState_handleFileChange, hneeds, hread]
      · rw [if_neg hx, gitRepoState_recomputeHunks]
        simp [noticeReads, hx]

/-! ## A run of notifications -/

def runNotices (D : LineDiff) (env : Env) (a : Actor) (ns : List (PathBuf × Notice)) : Actor :=
  ns.foldl (fun a x => a.handleNotice D env x.1 x.2) a

/-- The file of a path and whether the repository was looked at for it. -/
def noticeStep (env : Env) (a : Actor) (p : PathBuf) (s : Option FileHunkState × Bool)
    (n : Notice) : Option FileHunkState × Bool :=
  (a.noticeTo env p n s.1, s.2 || a.noticeReads env p n s.1)

/-- The notifications of one path, as the actor `a` sees them. -/
def trace (env : Env) (a : Actor) (p : PathBuf) (ns : List Notice) : Option FileHunkState × Bool :=
  ns.foldl (a.noticeStep env p) (a.bareFile p, false)

/-- The notifications of `p` in a run. -/
def noticesAt (ns : List (PathBuf × Notice)) (p : PathBuf) : List Notice :=
  ns.filterMap fun x => if x.1 = p then some x.2 else none

theorem noticesAt_cons_self (p : PathBuf) (n : Notice) (ns : List (PathBuf × Notice)) :
    noticesAt ((p, n) :: ns) p = n :: noticesAt ns p := by
  simp [noticesAt]

theorem noticesAt_cons_ne {q : PathBuf} (h : q ≠ p) (n : Notice) (ns : List (PathBuf × Notice)) :
    noticesAt ((q, n) :: ns) p = noticesAt ns p := by
  simp [noticesAt, h]

theorem noticeStep_congr (h : SameView env a b) (p : PathBuf) :
    b.noticeStep env p = a.noticeStep env p := by
  funext s n
  rw [noticeStep, noticeStep, noticeTo_congr h, noticeReads_congr h]

theorem foldl_noticeStep_flag (env : Env) (a : Actor) (p : PathBuf) (ns : List Notice)
    (f : Option FileHunkState) (r : Bool) :
    ns.foldl (a.noticeStep env p) (f, r) =
      ((ns.foldl (a.noticeStep env p) (f, false)).1,
        r || (ns.foldl (a.noticeStep env p) (f, false)).2) := by
  induction ns generalizing f r with
  | nil => simp
  | cons n ns ih =>
    rw [foldl_cons, foldl_cons, noticeStep, noticeStep, ih, ih _ (false || _)]
    simp [Bool.or_assoc]

theorem trace_cons (D : LineDiff) (env : Env) (a : Actor) (p : PathBuf) (n : Notice)
    (ns : List Notice) :
    a.trace env p (n :: ns) = (((a.handleNotice D env p n).trace env p ns).1,
      a.noticeReads env p n (a.bareFile p) || ((a.handleNotice D env p n).trace env p ns).2) := by
  have hview := (Local.notice D env p a n).view
  rw [trace, trace, foldl_cons, noticeStep, foldl_noticeStep_flag, noticeStep_congr hview,
    bareFile_handleNotice, Bool.false_or]

theorem trace_other (D : LineDiff) (env : Env) (a : Actor) {q : PathBuf} (h : p ≠ q) (n : Notice)
    (ns : List Notice) : (a.handleNotice D env q n).trace env p ns = a.trace env p ns := by
  have hloc := Local.notice D env q a n
  rw [trace, trace, noticeStep_congr hloc.view, bareFile, hloc.file p h, bareFile]

theorem bareFile_runNotices (D : LineDiff) (env : Env) (ns : List (PathBuf × Notice))
    (p : PathBuf) : ∀ a : Actor,
    (a.runNotices D env ns).bareFile p = (a.trace env p (noticesAt ns p)).1 := by
  induction ns with
  | nil => exact fun _ => rfl
  | cons x ns ih =>
    intro a
    obtain ⟨q, n⟩ := x
    rw [runNotices, foldl_cons, ← runNotices, ih]
    by_cases hq : q = p
    · subst hq
      rw [noticesAt_cons_self, trace_cons D]
    · rw [noticesAt_cons_ne hq, trace_other D env a (Ne.symm hq)]

/-- A run looks at the repository if it does so for some path. -/
theorem gitRepoState_runNotices (D : LineDiff) (env : Env) (ns : List (PathBuf × Notice)) :
    ∀ a : Actor,
    ((∃ p, (a.trace env p (noticesAt ns p)).2 = true) →
      (a.runNotices D env ns).gitRepoState = (a.discover env).gitRepoState) ∧
    ((∀ p, (a.trace env p (noticesAt ns p)).2 = false) →
      (a.runNotices D env ns).gitRepoState = a.gitRepoState) := by
  induction ns with
  | nil =>
    intro a
    refine ⟨?_, fun _ => rfl⟩
    rintro ⟨p, hp⟩
    cases hp
  | cons x ns ih =>
    intro a
    obtain ⟨q, n⟩ := x
    have hloc := Local.notice D env q a n
    obtain ⟨ihsome, ihnone⟩ := ih (a.handleNotice D env q n)
    have hself : (a.trace env q (noticesAt ((q, n) :: ns) q)).2 =
        (a.noticeReads env q n (a.bareFile q) ||
          ((a.handleNotice D env q n).trace env q (noticesAt ns q)).2) := by
      rw [noticesAt_cons_self, trace_cons D]
    have hother : ∀ p, p ≠ q → (a.trace env p (noticesAt ((q, n) :: ns) p)).2 =
        ((a.handleNotice D env q n).trace env p (noticesAt ns p)).2 := by
      intro p hp
      rw [noticesAt_cons_ne (Ne.symm hp), trace_other D env a hp]
    have hgit := gitRepoState_handleNotice D env a q n
    rw [runNotices, foldl_cons, ← runNotices]
    constructor
    · rintro ⟨p, hp⟩
      by_cases hrest : ∃ p, ((a.handleNotice D env q n).trace env p (noticesAt ns p)).2 = true
      · rw [ihsome hrest, hloc.git]
      · simp only [not_exists, Bool.not_eq_true] at hrest
        have hpq : p = q := by
          by_contra hne
          rw [hother p hne, hrest p] at hp
          cases hp
        rw [hpq, hself, hrest q, Bool.or_false] at hp
        rw [ihnone hrest, hgit, if_pos hp]
    · intro hall
      have hq := hall q
      rw [hself, Bool.or_eq_false_iff] at hq
      have hrest : ∀ p, ((a.handleNotice D env q n).trace env p (noticesAt ns p)).2 = false := by
        intro p
        by_cases hp : p = q
        · rw [hp]
          exact hq.2
        · rw [← hother p hp]
          exact hall p
      rw [ihnone hrest, hgit, hq.1]
      rfl

/-! ## Only the last one counts -/

/-- A path whose notifications supersede each other: it is not tracked and
will not be, or it is tracked with its own baseline. -/
def Settled (a : Actor) (p : PathBuf) : Prop :=
  match a.file p with
  | none => a.mode = .agentOnly
  | some st => st.baselineAccepted = false

instance (a : Actor) (p : PathBuf) : Decidable (a.Settled p) :=
  match h : a.file p with
  | none => decidable_of_iff (a.mode = .agentOnly) (by rw [Settled, h])
  | some st => decidable_of_iff (st.baselineAccepted = false) (by rw [Settled, h])

/-- The content a notification leaves in a settled file. -/
def noticedContent (env : Env) (p : PathBuf) : Notice → FileContentState
  | .changed => readFileBounded (env.disk p)
  | .deleted => if env.pathExists p then readFileBounded (env.disk p) else .missing

theorem noticeStep_untracked (p : PathBuf) (n : Notice) (r : Bool) (h : a.mode = .agentOnly) :
    a.noticeStep env p (none, r) n = (none, r) := by
  cases n <;> simp [noticeStep, noticeTo, changedTo, deletedTo, noticeReads, h]

theorem noticeStep_tracked (p : PathBuf) (n : Notice) (r : Bool) (h : st.baselineAccepted = false) :
    a.noticeStep env p (some st, r) n =
      (some { st with currentContent := noticedContent env p n, hunks := [] }, r) := by
  cases n with
  | changed => simp [noticeStep, noticeTo, changedTo, noticeReads, noticedContent, h]
  | deleted =>
    by_cases hx : env.pathExists p = true <;>
      simp [noticeStep, noticeTo, changedTo, deletedTo, noticeReads, noticedContent, h, hx]

theorem foldl_noticeStep_tracked (p : PathBuf) (n : Notice) (ns : List Notice) (r : Bool)
    (h : st.baselineAccepted = false) :
    (ns ++ [n]).foldl (a.noticeStep env p) (some st, r) =
      (some { st with currentContent := noticedContent env p n, hunks := [] }, r) := by
  induction ns generalizing st with
  | nil => exact noticeStep_tracked p n r h
  | cons m ns ih =>
    rw [cons_append, foldl_cons, noticeStep_tracked p m r h]
    exact ih h

/-- In a settled path the notifications before the last leave no trace. -/
theorem trace_settled (h : a.Settled p) (n : Notice) (ns : List Notice) :
    a.trace env p (ns ++ [n]) = a.trace env p [n] := by
  unfold Settled at h
  cases hf : a.file p with
  | none =>
    rw [hf] at h
    have hall : ∀ l : List Notice, l.foldl (a.noticeStep env p) (none, false) = (none, false) := by
      intro l
      induction l with
      | nil => rfl
      | cons m l ih => rw [foldl_cons, noticeStep_untracked p m false h, ih]
    simp only [trace, bareFile, hf, map_none, hall]
  | some st =>
    rw [hf] at h
    have hbare : st.bare.baselineAccepted = false := h
    simp only [trace, bareFile, hf, map_some]
    rw [foldl_noticeStep_tracked p n ns false hbare]
    exact (noticeStep_tracked p n false hbare).symm

/-- Would a change reported twice leave what one leaves? A first report can
drop a content that cannot be diffed, or take the file back to HEAD; a
second one would bring the content on disk back. -/
def Repeatable (env : Env) (a : Actor) (p : PathBuf) : Prop :=
  let current := readFileBounded (env.disk p)
  let head := a.headContent env p
  match a.file p with
  | none => current.isDiffable = true ∨ head.isDiffable = false
  | some st => st.baselineAccepted = true → a.contentMatchesHead p current head = false

theorem changedTo_changedTo (h : a.Repeatable env p) :
    a.changedTo env p (a.changedTo env p (a.bareFile p)) = a.changedTo env p (a.bareFile p) := by
  unfold Repeatable at h
  dsimp only at h
  cases hf : a.file p with
  | none =>
    have hbare : a.bareFile p = none := by rw [bareFile, hf]; rfl
    rw [hf] at h
    by_cases hskip : a.mode = .agentOnly ∨ a.isIgnored env p (a.headContent env p) = true
    · have hnone : a.changedTo env p none = none := if_pos hskip
      rw [hbare, hnone, hnone]
    · have hkeep : ¬ ((readFileBounded (env.disk p)).isDiffable = false ∧
          (a.headContent env p).isDiffable = true) := by
        rintro ⟨h1, h2⟩
        rcases h with h | h
        · simp [h] at h1
        · simp [h] at h2
      have hsome : a.changedTo env p none =
          some (externalFile (a.headContent env p) (readFileBounded (env.disk p))) := by
        simp only [changedTo, if_neg hskip, if_neg hkeep]
      rw [hbare, hsome]
      rfl
  | some st =>
    have hbare : a.bareFile p = some st.bare := by rw [bareFile, hf]; rfl
    rw [hf] at h
    have hneg : ∀ st' : FileHunkState, st'.baselineAccepted = st.baselineAccepted →
        a.changedTo env p (some st') =
          some { st' with currentContent := readFileBounded (env.disk p), hunks := [] } := by
      intro st' hacc
      apply if_neg
      rintro ⟨h1, h2⟩
      rw [h (hacc.symm.trans h1)] at h2
      cases h2
    rw [hbare, hneg st.bare rfl]
    exact hneg _ rfl

theorem noticeReads_changedTo (env : Env) (a : Actor) (p : PathBuf) (f : Option FileHunkState)
    (h : a.noticeReads env p .changed f = false) :
    a.noticeReads env p .changed (a.changedTo env p f) = false := by
  cases f with
  | none =>
    have hm : a.mode = .agentOnly := by simpa [noticeReads] using h
    simp [changedTo, noticeReads, hm]
  | some st =>
    have hacc : st.baselineAccepted = false := h
    simp [changedTo, noticeReads, hacc]

theorem trace_changes (h : a.Repeatable env p) (k : Nat) :
    a.trace env p (List.replicate (k + 1) .changed) = a.trace env p [.changed] := by
  have hstep : ∀ k, (List.replicate k Notice.changed).foldl (a.noticeStep env p)
      (a.trace env p [.changed]) = a.trace env p [.changed] := by
    intro k
    induction k with
    | zero => rfl
    | succ k ih =>
      have honce : a.noticeStep env p (a.trace env p [.changed]) .changed =
          a.trace env p [.changed] := by
        simp only [trace, foldl_cons, foldl_nil, noticeStep, noticeTo, Bool.false_or,
          changedTo_changedTo h, Prod.mk.injEq, true_and]
        cases hr : a.noticeReads env p .changed (a.bareFile p) with
        | false => rw [noticeReads_changedTo env a p _ hr]; rfl
        | true => rfl
      rw [replicate_succ, foldl_cons, honce, ih]
  rw [replicate_succ, trace, foldl_cons]
  exact hstep k

/-- Notifications of a path of which only the last one counts. -/
def Superseding (env : Env) (a : Actor) (p : PathBuf) (ns : List Notice) : Prop :=
  ns.length ≤ 1 ∨ a.Settled p ∨ (∀ n ∈ ns, n = .changed) ∧ a.Repeatable env p

theorem trace_getLast {ns : List Notice} (h : a.Superseding env p ns) :
    a.trace env p ns.getLast?.toList = a.trace env p ns := by
  rcases eq_nil_or_concat ns with rfl | ⟨init, n, rfl⟩
  · rfl
  rw [concat_eq_append] at h ⊢
  rw [getLast?_concat, toList_some]
  rcases h with hlen | hset | ⟨hall, hrep⟩
  · have hnil : init = [] := by
      rw [length_append, length_singleton] at hlen
      exact eq_nil_of_length_eq_zero (by omega)
    rw [hnil, nil_append]
  · exact (trace_settled hset n init).symm
  · have hrepl : init ++ [n] = List.replicate (init.length + 1) .changed := by
      rw [eq_replicate_iff]
      exact ⟨by simp, hall⟩
    rw [hrepl, trace_changes hrep, hall n (by simp)]

end Actor

end GrokBuild.HunkTracker
