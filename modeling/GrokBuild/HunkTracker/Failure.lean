import GrokBuild.HunkTracker.Reachable
import GrokBuild.HunkTracker.TurnIndex

/-!
# Hunk tracker: failed actions

What is left of an action whose file operation failed. The hunks of the
failing file are counted and taken out of the turn index before the
operation is tried, and nothing undoes that, so the action is atomic only
when every operation it comes to succeeds (or when there was nothing to
count and nothing to take out). `Rejects` is that condition, file after
file; `AtomicOnFailure` is what a client would expect.
-/

namespace GrokBuild.HunkTracker

open TextLines Str EditScript List

/-! ## What a client expects -/

/-- The file an action failed on. -/
def HunkActionError.path : HunkActionError → Option PathBuf
  | hunkNotFound _ => none
  | writeError p => some p
  | deleteError p => some p
  | readError p => some p

/-- Count hunks one after the other. -/
def SessionStats.count (s : SessionStats) (hs : List Hunk) (action : HunkAction) : SessionStats :=
  hs.foldl (fun s h => s.update h.lineInfo action) s

/-- The hunks of an action that are gone. -/
def removedHunks (a' : Actor) (files : List (PathBuf × List Hunk)) : List Hunk :=
  files.flatMap fun f => f.2.filter fun h => decide (h.id ∉ (a'.hunksAt f.1).map (·.id))

/-- `a'` is left by an action on `files` that failed on `p`, and nothing
has happened to `p`. -/
structure FailsAtomically (a : Actor) (action : HunkAction)
    (files : List (PathBuf × List Hunk)) (p : PathBuf) (a' : Actor) : Prop where
  file : a'.file p = a.file p
  index : ∀ h ∈ a.hunksAt p, ∀ k, h.id ∈ a'.turnIndex k ↔ h.id ∈ a.turnIndex k
  stats : a'.sessionStats = a.sessionStats.count (removedHunks a' files) action
  listed : ∀ f ∈ files, ∀ h ∈ f.2, h.id ∈ (a'.hunksAt f.1).map (·.id) →
    ∀ k, h.source = .agentEdit k → h.id ∈ a.turnIndex k → h.id ∈ a'.turnIndex k

def AtomicOnFailure {α : Type} (a : Actor) (action : HunkAction)
    (files : List (PathBuf × List Hunk)) (r : Actor × Except HunkActionError α) : Prop :=
  ∀ e p, r.2 = .error e → e.path = some p → FailsAtomically a action files p r.1

/-! ## When that is so -/

/-- Counting these hunks as rejected does not move a counter any more. -/
def SessionStats.Saturated (s : SessionStats) (hs : List Hunk) : Prop :=
  saturatingAdd s.rejectedHunks hs.length = s.rejectedHunks
    ∧ saturatingAdd s.rejectedLinesAdded (hs.map (·.lineInfo.newCount)).sum
        = s.rejectedLinesAdded
    ∧ saturatingAdd s.rejectedLinesRemoved (hs.map (·.lineInfo.oldCount)).sum
        = s.rejectedLinesRemoved

/-- None of the hunks is listed under its turn. -/
def Unlisted (t : TurnIndex) (hs : List Hunk) : Prop :=
  ∀ h ∈ hs, ∀ k, h.source = .agentEdit k → h.id ∉ t k

/-- Rejecting hunks file after file: the file operations succeed, up to one
whose hunks are unlisted and can no longer be counted. -/
def Rejects (env : Env) (a : Actor) : SessionStats → List (PathBuf × List Hunk) → Prop
  | _, [] => True
  | s, (p, hs) :: files =>
    (RejectOk env a p hs → Rejects env a (s.count hs .reject) files)
      ∧ (¬ RejectOk env a p hs → s.Saturated hs ∧ Unlisted a.turnIndex hs)

section Counting

theorem foldl_saturatingAdd {α : Type} (f : α → Nat) (xs : List α) : ∀ n : Nat, xs ≠ [] →
    xs.foldl (fun m x => saturatingAdd m (f x)) n = saturatingAdd n (xs.map f).sum := by
  induction xs with
  | nil => exact fun _ h => absurd rfl h
  | cons x xs ih =>
    intro n _
    rw [foldl_cons, map_cons, sum_cons]
    by_cases hxs : xs = []
    · simp [hxs]
    · rw [ih _ hxs]
      simp only [saturatingAdd]
      omega

theorem SessionStats.count_append (s : SessionStats) (hs ks : List Hunk) (action : HunkAction) :
    s.count (hs ++ ks) action = (s.count hs action).count ks action :=
  foldl_append

theorem SessionStats.count_reject (hs : List Hunk) : ∀ s : SessionStats,
    s.count hs .reject
      = { s with
          rejectedHunks := hs.foldl (fun m _ => saturatingAdd m 1) s.rejectedHunks
          rejectedLinesAdded :=
            hs.foldl (fun m h => saturatingAdd m h.lineInfo.newCount) s.rejectedLinesAdded
          rejectedLinesRemoved :=
            hs.foldl (fun m h => saturatingAdd m h.lineInfo.oldCount) s.rejectedLinesRemoved } := by
  induction hs with
  | nil => exact fun _ => rfl
  | cons h hs ih => exact fun s => ih (s.update h.lineInfo .reject)

theorem SessionStats.count_eq_self {s : SessionStats} {hs : List Hunk} (hne : hs ≠ []) :
    s.count hs .reject = s ↔ s.Saturated hs := by
  rw [count_reject, foldl_saturatingAdd (fun _ => 1) hs _ hne,
    foldl_saturatingAdd (fun h : Hunk => h.lineInfo.newCount) hs _ hne,
    foldl_saturatingAdd (fun h : Hunk => h.lineInfo.oldCount) hs _ hne]
  have hlen : (hs.map fun _ => 1).sum = hs.length := by simp
  rw [hlen]
  constructor
  · intro h
    exact ⟨congrArg SessionStats.rejectedHunks h, congrArg SessionStats.rejectedLinesAdded h,
      congrArg SessionStats.rejectedLinesRemoved h⟩
  · rintro ⟨h1, h2, h3⟩
    rw [h1, h2, h3]

end Counting

/-! ## One file -/

namespace Actor

variable {D : LineDiff} {env : Env} {ex : PathBuf → Prop} {a : Actor} {p q : PathBuf}
  {st : FileHunkState} {hs : List Hunk}

theorem applyToFile_reject_error (h : ¬ RejectOk env a p hs) :
    ∃ e, a.applyToFile D env p hs .reject = (a.book hs .reject, .error e) ∧ e.path = some p := by
  simp only [RejectOk, not_forall] at h
  obtain ⟨st, hst, hne, hfail⟩ := h
  have hst' : (a.book hs .reject).file p = some st := hst
  simp only [applyToFile, rejectHunksBatch, hst', if_neg hne]
  revert hfail
  cases rejectAction st hs with
  | restoreDeleted b => exact fun hw => ⟨.writeError p, by simpa [succeeds] using hw, rfl⟩
  | deleteCreated => exact fun hw => ⟨.deleteError p, by simpa [succeeds] using hw, rfl⟩
  | revertChange c => exact fun hw => ⟨.writeError p, by simpa [succeeds] using hw, rfl⟩
  | noOp => exact fun hw => absurd rfl hw

theorem mem_turnIndex_recomputeHunks (hi : Inv D (fun r => ex r ∨ r = p) a) (hq : q ≠ p)
    {h : Hunk} (hh : h ∈ a.hunksAt q) (current : Option FileContentState) (source : HunkSource) (k : Nat) :
    h.id ∈ (a.recomputeHunks D env p current source).turnIndex k ↔ h.id ∈ a.turnIndex k := by
  cases hst : a.file p with
  | none => simp only [Actor.recomputeHunks, hst]
  | some st =>
    have hi' : Inv D ex (a.recomputeHunks D env p current source) :=
      Inv.recomputeHunks hi current source
    have hself := file_recomputeHunks_self D env hst current source
    have hframe : (a.recomputeHunks D env p current source).file q = a.file q :=
      file_recomputeHunks_ne D env hq current source
    have hold : ¬ InTurn k st.hunks h.id := by
      rintro ⟨l, hl, -, hid⟩
      exact hi.ids.disjoint p q (Ne.symm hq) l (by rw [hst]; exact hl) h hh hid
    have hnew : ¬ InTurn k (hunksOf ((a.recomputeHunks D env p current source).file p)) h.id := by
      rintro ⟨l, hl, -, hid⟩
      exact hi'.ids.disjoint p q (Ne.symm hq) l hl h (by rw [hframe]; exact hh) hid
    rw [hself] at hnew
    simp only [Actor.recomputeHunks, hst, TurnIndex.mem_insertAll, TurnIndex.mem_removeAll]
    exact ⟨fun hm => (hm.resolve_right hnew).1, fun hm => .inl ⟨hm, hold⟩⟩

theorem notMem_recomputeHunks (hi : Inv D (fun r => ex r ∨ r = p) a) (hst : a.file p = some st)
    {id : HunkId} (hid : id.val < a.nextId) (hout : id ∉ st.hunks.map (·.id))
    (current : Option FileContentState) (source : HunkSource) :
    id ∉ ((a.recomputeHunks D env p current source).hunksAt p).map (·.id) := by
  rw [hunksAt, file_recomputeHunks_self D env hst]
  intro hm
  obtain ⟨k, hk, hkid⟩ := List.mem_map.mp hm
  have hold : ∀ o ∈ st.hunks, o.id.val < a.nextId := fun o ho =>
    hi.ids.fresh p o (by rw [hst]; exact ho)
  rcases (table_preserveIds D env p source st.baseline (current.getD .missing) hold).2 k hk with
    ⟨o, ho, hoid⟩ | ⟨hfresh, -⟩
  · exact hout (List.mem_map.mpr ⟨o, ho, hoid.trans hkid⟩)
  · rw [hkid] at hfresh
    omega

theorem sessionStats_recomputeHunks (current : Option FileContentState) (source : HunkSource) :
    (a.recomputeHunks D env p current source).sessionStats = a.sessionStats := by
  unfold Actor.recomputeHunks
  split <;> rfl

theorem mem_turnIndex_book (hi : Sound D a) (hsub : ∀ k ∈ hs, k ∈ a.hunksAt p) (hq : q ≠ p)
    {h : Hunk} (hh : h ∈ a.hunksAt q) (action : HunkAction) (k : Nat) :
    h.id ∈ (a.book hs action).turnIndex k ↔ h.id ∈ a.turnIndex k := by
  have hout : ¬ InTurn k hs h.id := by
    rintro ⟨l, hl, -, hid⟩
    exact hi.ids.disjoint p q (Ne.symm hq) l (hsub l hl) h hh hid
  simp [book, unindex, TurnIndex.mem_removeAll, hout]

/-- What a rejection that got through has done: it counted its hunks and
removed them, and the index entries of other files are as they were. -/
structure Rejected (a : Actor) (p : PathBuf) (hs : List Hunk) (b : Actor) : Prop where
  stats : b.sessionStats = a.sessionStats.count hs .reject
  gone : ∀ h ∈ hs, h.id ∉ (b.hunksAt p).map (·.id)
  index : ∀ q, q ≠ p → ∀ h ∈ a.hunksAt q, ∀ k, h.id ∈ b.turnIndex k ↔ h.id ∈ a.turnIndex k

theorem notMem_without {id : HunkId} (h : id ∈ hs.map (·.id)) :
    id ∉ (without st hs).map (·.id) := by
  intro hm
  obtain ⟨k, hk, hkid⟩ := List.mem_map.mp hm
  have hnot := (mem_filter.mp hk).2
  rw [decide_eq_true_eq, hkid] at hnot
  exact hnot h

theorem Rejected.setFile (hi : Sound D a) (hsub : ∀ k ∈ hs, k ∈ a.hunksAt p) {st' : FileHunkState}
    (hst' : st'.hunks = without st hs) (e : FileEffect) (es : List HunkEvent) :
    Rejected a p hs ((((a.book hs .reject).did e).setFile p st').sendEvents es) where
  stats := rfl
  gone h hh := by
    rw [hunksAt, file_sendEvents, file_setFile_self]
    simp only [Option.elim_some, hst']
    exact notMem_without (List.mem_map_of_mem hh)
  index q hq h hh k := mem_turnIndex_book hi hsub hq hh .reject k

theorem Rejected.nil (a : Actor) (p : PathBuf) : Rejected a p [] (a.book [] .reject) :=
  ⟨rfl, fun _ hh => (not_mem_nil hh).elim, fun _ _ _ _ _ => Iff.rfl⟩

theorem Rejected.recomputeHunks {b : Actor} (h : Rejected a p hs b)
    (hib : Inv D (fun r => ex r ∨ r = p) b) (hst : b.file p = some st)
    (frame : ∀ q, q ≠ p → b.file q = a.file q) (hfresh : ∀ k ∈ hs, k.id.val < b.nextId)
    (current : Option FileContentState) (source : HunkSource) :
    Rejected a p hs (b.recomputeHunks D env p current source) where
  stats := (sessionStats_recomputeHunks current source).trans h.stats
  gone k hk := by
    have hout := h.gone k hk
    rw [hunksAt, hst] at hout
    exact notMem_recomputeHunks hib hst (hfresh k hk) hout current source
  index q hq k hk n := by
    have hk' : k ∈ b.hunksAt q := by
      rw [hunksAt, frame q hq]
      exact hk
    exact (mem_turnIndex_recomputeHunks hib hq hk' current source n).trans (h.index q hq k hk n)

theorem rejected_applyToFile (hi : Sound D a) (hsub : ∀ k ∈ hs, k ∈ a.hunksAt p)
    (hok : RejectOk env a p hs) : Rejected a p hs (a.applyToFile D env p hs .reject).1 := by
  simp only [applyToFile, rejectHunksBatch]
  split
  · next hnone =>
    have hnil : hs = [] := by
      refine eq_nil_iff_forall_not_mem.mpr fun k hk => ?_
      have := hsub k hk
      rw [hunksAt, show a.file p = none from hnone] at this
      cases this
    rw [hnil]
    exact .nil a p
  · next st hst =>
    have hst' : a.file p = some st := hst
    split
    · next hnil =>
      rw [hnil]
      exact .nil a p
    · next hne =>
      have hw := hok st hst' hne
      split
      · next b hact =>
        rw [hact] at hw
        rw [if_pos (show env.writeOk p = true from hw)]
        exact .setFile hi hsub (by rfl) _ _
      · next hact =>
        rw [hact] at hw
        rw [if_pos (show env.removeOk p = true from hw)]
        exact .setFile hi hsub (by rfl) _ _
      · next patched hact =>
        rw [hact] at hw
        rw [if_pos (show env.writeOk p = true from hw)]
        -- first the hunks leave, then the rest is recomputed
        refine (Rejected.setFile hi hsub (by rfl) _ _).recomputeHunks
          (Inv.sendEvents (Inv.setFile_exempt (Inv.did (Inv.book hi hs .reject) _)
            (Sound.without_sublist hst)) _)
          (by rw [file_sendEvents, file_setFile_self])
          (fun q hq => file_setFile_ne _ _ hq) (fun k hk => hi.ids.fresh p k (hsub k hk)) _ _
      · next hact =>
        rw [hunksAt, hst'] at hsub
        obtain ⟨k, hk⟩ := exists_mem_of_ne_nil _ hne
        have hne' : st.hunks ≠ [] := List.ne_nil_of_mem (hsub k hk)
        exact absurd hact (rejectAction_ne_noOp (hi.described p st id hst') hne')

/-! ## Several files -/

variable {action : HunkAction}

theorem applyActionBatch_cons_ok {files : List (PathBuf × List Hunk)}
    (h : (a.applyToFile D env p hs action).2 = .ok ()) (e : HunkActionError) :
    (a.applyActionBatch D env action ((p, hs) :: files)).1
        = ((a.applyToFile D env p hs action).1.applyActionBatch D env action files).1
      ∧ ((a.applyActionBatch D env action ((p, hs) :: files)).2 = .error e
        ↔ ((a.applyToFile D env p hs action).1.applyActionBatch D env action files).2
          = .error e) := by
  rw [applyActionBatch]
  revert h
  rcases a.applyToFile D env p hs action with ⟨b, e' | u⟩
  · intro h
    cases h
  · intro _
    dsimp only
    rcases b.applyActionBatch D env action files with ⟨c, e' | ids⟩ <;> simp

theorem applyActionBatch_cons_error {files : List (PathBuf × List Hunk)} {b : Actor}
    {e : HunkActionError} (h : a.applyToFile D env p hs action = (b, .error e)) :
    a.applyActionBatch D env action ((p, hs) :: files) = (b, .error e) := by
  rw [applyActionBatch, h]

theorem applyActionBatch_accept_ok (files : List (PathBuf × List Hunk)) : ∀ (a : Actor)
    (e : HunkActionError), (a.applyActionBatch D env .accept files).2 ≠ .error e := by
  induction files with
  | nil => exact fun _ _ h => by cases h
  | cons f files ih =>
    intro a e h
    obtain ⟨p, hs⟩ := f
    exact ih _ e ((applyActionBatch_cons_ok rfl e).2.mp h)

theorem file_applyActionBatch_ne (files : List (PathBuf × List Hunk)) :
    ∀ {a : Actor}, q ∉ files.map (·.1) →
    (a.applyActionBatch D env action files).1.file q = a.file q := by
  induction files with
  | nil => exact fun _ => rfl
  | cons f files ih =>
    intro a hq
    obtain ⟨p, hs⟩ := f
    rw [map_cons, mem_cons, not_or] at hq
    rw [fst_applyActionBatch_cons]
    split
    · exact file_applyToFile_ne hq.1 action
    · exact (ih hq.2).trans (file_applyToFile_ne hq.1 action)

theorem path_mem_of_applyActionBatch_error (files : List (PathBuf × List Hunk)) :
    ∀ {a : Actor} {e : HunkActionError}, (a.applyActionBatch D env .reject files).2 = .error e →
    e.path = some p → p ∈ files.map (·.1) := by
  induction files with
  | nil =>
    intro a e h
    cases h
  | cons f files ih =>
    intro a e h hp
    obtain ⟨q, hs⟩ := f
    rw [map_cons, mem_cons]
    by_cases hok : RejectOk env a q hs
    · have hone := (snd_applyToFile_reject_ok (D := D)).mpr hok
      exact .inr (ih ((applyActionBatch_cons_ok hone e).2.mp h) hp)
    · obtain ⟨e', he', hq⟩ := applyToFile_reject_error (D := D) hok
      rw [applyActionBatch_cons_error he'] at h
      cases h
      rw [hq] at hp
      exact .inl (Option.some.inj hp).symm

end Actor

/-! ## Atomicity -/

section Atomicity

variable {D : LineDiff} {env : Env} {a b : Actor} {p : PathBuf} {hs : List Hunk}
  {files : List (PathBuf × List Hunk)}

theorem rejects_congr (hfile : ∀ f ∈ files, b.file f.1 = a.file f.1)
    (hindex : ∀ f ∈ files, ∀ h ∈ f.2, ∀ k, h.id ∈ b.turnIndex k ↔ h.id ∈ a.turnIndex k) :
    ∀ s, Rejects env b s files ↔ Rejects env a s files := by
  induction files with
  | nil => exact fun _ => Iff.rfl
  | cons f files ih =>
    intro s
    obtain ⟨p, hs⟩ := f
    have hok : RejectOk env b p hs ↔ RejectOk env a p hs :=
      Actor.rejectOk_congr (hfile (p, hs) (by simp)) hs
    have hlist : Unlisted b.turnIndex hs ↔ Unlisted a.turnIndex hs := by
      refine forall_congr' fun h => forall_congr' fun hh => forall_congr' fun k => ?_
      rw [hindex (p, hs) (by simp) h hh k]
    rw [Rejects, Rejects, hok, hlist, ih (fun f hf => hfile f (by simp [hf]))
      (fun f hf => hindex f (by simp [hf]))]

theorem removedHunks_of_live (h : ∀ f ∈ files, ∀ k ∈ f.2, k ∈ b.hunksAt f.1) :
    removedHunks b files = [] := by
  rw [removedHunks, flatMap_eq_nil_iff]
  intro f hf
  rw [filter_eq_nil_iff]
  intro k hk
  simpa using ⟨k, h f hf k hk, rfl⟩

theorem failsAtomically_book (hne : hs ≠ [])
    (hsub : ∀ f ∈ (p, hs) :: files, ∀ k ∈ f.2, k ∈ a.hunksAt f.1) :
    FailsAtomically a .reject ((p, hs) :: files) p (a.book hs .reject)
      ↔ a.sessionStats.Saturated hs ∧ Unlisted a.turnIndex hs := by
  have hsub1 : ∀ k ∈ hs, k ∈ a.hunksAt p := hsub (p, hs) (by simp)
  have hremoved : removedHunks (a.book hs .reject) ((p, hs) :: files) = [] :=
    removedHunks_of_live hsub
  have hmem : ∀ (h : Hunk) (k : Nat), h.id ∈ (a.book hs .reject).turnIndex k
      ↔ h.id ∈ a.turnIndex k ∧ ¬ InTurn k hs h.id := by
    intro h k
    simp [Actor.book, Actor.unindex, TurnIndex.mem_removeAll]
  constructor
  · intro h
    refine ⟨(SessionStats.count_eq_self hne).mp ?_, fun l hl k hk hlisted => ?_⟩
    · have hstats := h.stats
      rw [hremoved] at hstats
      exact hstats
    · have hin := (h.index l (hsub1 l hl) k).mpr hlisted
      exact ((hmem l k).mp hin).2 ⟨l, hl, by rw [hk]; rfl, rfl⟩
  · rintro ⟨hsat, hun⟩
    -- the booked hunks were not listed to begin with
    have hindex : ∀ f ∈ (p, hs) :: files, ∀ l ∈ a.hunksAt f.1, ∀ k,
        l.id ∈ (a.book hs .reject).turnIndex k ↔ l.id ∈ a.turnIndex k := by
      intro f hf l hl k
      rw [hmem]
      refine and_iff_left_of_imp fun hlisted => ?_
      rintro ⟨m, hm, hmk, hmid⟩
      rw [← hmid] at hlisted
      exact hun m hm k (HunkSource.promptIndex_eq_some.mp hmk) hlisted
    exact ⟨rfl, hindex (p, hs) (by simp), by
      rw [hremoved]
      exact (SessionStats.count_eq_self hne).mpr hsat,
      fun f hf l hl _ k _ hlisted => (hindex f hf l (hsub f hf l hl) k).mpr hlisted⟩

theorem failsAtomically_cons {c : Actor} {q : PathBuf} (h : Actor.Rejected a p hs b)
    (frame : ∀ r, r ≠ p → b.file r = a.file r) (hcb : c.hunksAt p = b.hunksAt p)
    (hp : p ∉ files.map (·.1)) (hq : q ≠ p)
    (hsub : ∀ f ∈ files, ∀ k ∈ f.2, k ∈ a.hunksAt f.1) :
    FailsAtomically a .reject ((p, hs) :: files) q c ↔ FailsAtomically b .reject files q c := by
  have hat : b.hunksAt q = a.hunksAt q := by
    rw [Actor.hunksAt, frame q hq]
    rfl
  have hindex : ∀ f ∈ files, ∀ l ∈ f.2, ∀ k, l.id ∈ b.turnIndex k ↔ l.id ∈ a.turnIndex k := by
    intro f hf l hl k
    refine h.index f.1 ?_ l (hsub f hf l hl) k
    rintro rfl
    exact hp (List.mem_map_of_mem hf)
  have hgone : hs.filter (fun l => decide (l.id ∉ (c.hunksAt p).map (·.id))) = hs := by
    rw [filter_eq_self]
    intro l hl
    rw [hcb]
    exact decide_eq_true (h.gone l hl)
  have hstats : a.sessionStats.count (removedHunks c ((p, hs) :: files)) .reject
      = b.sessionStats.count (removedHunks c files) .reject := by
    rw [h.stats, ← SessionStats.count_append, removedHunks, flatMap_cons, hgone]
    rfl
  constructor
  · rintro ⟨h1, h2, h3, h4⟩
    refine ⟨by rw [h1, frame q hq], fun l hl k => ?_, by rw [h3, hstats],
      fun f hf l hl hlive k hk hlisted => ?_⟩
    · rw [hat] at hl
      rw [h2 l hl k, h.index q hq l hl k]
    · exact h4 f (by simp [hf]) l hl hlive k hk ((hindex f hf l hl k).mp hlisted)
  · rintro ⟨h1, h2, h3, h4⟩
    refine ⟨by rw [h1, frame q hq], fun l hl k => ?_, by rw [h3, hstats],
      fun f hf l hl hlive k hk hlisted => ?_⟩
    · rw [h2 l (by rw [hat]; exact hl) k, h.index q hq l hl k]
    · rcases mem_cons.mp hf with rfl | hf
      · rw [hcb] at hlive
        exact absurd hlive (h.gone l hl)
      · exact h4 f hf l hl hlive k hk ((hindex f hf l hl k).mpr hlisted)

theorem atomicOnFailure_reject (files : List (PathBuf × List Hunk)) : ∀ {a : Actor},
    Sound D a → (files.map (·.1)).Nodup → (∀ f ∈ files, ∀ k ∈ f.2, k ∈ a.hunksAt f.1) →
    (AtomicOnFailure a .reject files (a.applyActionBatch D env .reject files)
      ↔ Rejects env a a.sessionStats files) := by
  induction files with
  | nil =>
    intro a _ _ _
    exact ⟨fun _ => trivial, fun _ e p h => by cases h⟩
  | cons f files ih =>
    intro a hi hnodup hsub
    obtain ⟨p, hs⟩ := f
    have hsub1 : ∀ k ∈ hs, k ∈ a.hunksAt p := hsub (p, hs) (by simp)
    have hsubrest : ∀ f ∈ files, ∀ k ∈ f.2, k ∈ a.hunksAt f.1 := fun f hf => hsub f (by simp [hf])
    rw [map_cons, nodup_cons] at hnodup
    by_cases hok : RejectOk env a p hs
    · -- the batch goes on from the actor the first file leaves
      have hrej : Actor.Rejected a p hs (a.applyToFile D env p hs .reject).1 :=
        Actor.rejected_applyToFile hi hsub1 hok
      have hres := (Actor.snd_applyToFile_reject_ok (D := D)).mpr hok
      have hib : Sound D (a.applyToFile D env p hs .reject).1 :=
        Sound.applyToFile env hi hsub1 .reject
      have frame : ∀ r, r ≠ p → (a.applyToFile D env p hs .reject).1.file r = a.file r :=
        fun r hr => Actor.file_applyToFile_ne hr .reject
      have hother : ∀ f ∈ files, f.1 ≠ p := by
        rintro f hf rfl
        exact hnodup.1 (List.mem_map.mpr ⟨f, hf, rfl⟩)
      have hsubb : ∀ f ∈ files, ∀ k ∈ f.2,
          k ∈ (a.applyToFile D env p hs .reject).1.hunksAt f.1 := by
        intro f hf k hk
        rw [Actor.hunksAt, frame f.1 (hother f hf)]
        exact hsubrest f hf k hk
      have hrest := ih hib hnodup.2 hsubb
      have hcond : Rejects env (a.applyToFile D env p hs .reject).1
            (a.applyToFile D env p hs .reject).1.sessionStats files
          ↔ Rejects env a a.sessionStats ((p, hs) :: files) := by
        rw [hrej.stats, rejects_congr (fun f hf => frame f.1 (hother f hf))
          (fun f hf k hk n => hrej.index f.1 (hother f hf) k (hsubrest f hf k hk) n), Rejects]
        exact ⟨fun h => ⟨fun _ => h, fun hno => absurd hok hno⟩, fun h => h.1 hok⟩
      rw [← hcond, ← hrest]
      refine forall_congr' fun e => forall_congr' fun q => ?_
      obtain ⟨hfst, hsnd⟩ := Actor.applyActionBatch_cons_ok hres e
      rw [hsnd, hfst]
      refine forall_congr' fun herr => forall_congr' fun hq => ?_
      have hqp : q ≠ p := by
        rintro rfl
        exact hnodup.1 (Actor.path_mem_of_applyActionBatch_error files herr hq)
      refine failsAtomically_cons hrej frame ?_ hnodup.1 hqp hsubrest
      rw [Actor.hunksAt, Actor.file_applyActionBatch_ne files hnodup.1]
      rfl
    · -- the batch ends here
      have hne : hs ≠ [] := by
        rintro rfl
        exact hok fun _ _ hne => absurd rfl hne
      obtain ⟨e, he, hp⟩ := Actor.applyToFile_reject_error (D := D) hok
      have hone := failsAtomically_book hne hsub
      rw [AtomicOnFailure, Actor.applyActionBatch_cons_error he, Rejects]
      constructor
      · intro h
        exact ⟨fun h' => absurd h' hok, fun _ => hone.mp (h e p rfl hp)⟩
      · rintro ⟨-, h⟩ e' q he' hq
        cases he'
        rw [hp] at hq
        cases hq
        exact hone.mpr (h hok)

theorem atomicOnFailure_batch (hi : Sound D a) (hnodup : (files.map (·.1)).Nodup)
    (hsub : ∀ f ∈ files, ∀ k ∈ f.2, k ∈ a.hunksAt f.1) (action : HunkAction) :
    AtomicOnFailure a action files (a.applyActionBatch D env action files)
      ↔ (action = .reject → Rejects env a a.sessionStats files) := by
  cases action with
  | accept =>
    refine ⟨fun _ h => ?_, fun _ e p h => ?_⟩
    · cases h
    · exact absurd h (Actor.applyActionBatch_accept_ok files a e)
  | reject =>
    rw [atomicOnFailure_reject files hi hnodup hsub]
    exact ⟨fun h _ => h, fun h => h rfl⟩

theorem atomicOnFailure_applyToFile (action : HunkAction) :
    AtomicOnFailure a action [(p, hs)] (a.applyToFile D env p hs action)
      ↔ AtomicOnFailure a action [(p, hs)] (a.applyActionBatch D env action [(p, hs)]) := by
  rw [Actor.applyActionBatch]
  rcases a.applyToFile D env p hs action with ⟨b, e | u⟩
  · simp [AtomicOnFailure]
  · simp [AtomicOnFailure, Actor.applyActionBatch]

end Atomicity

/-- The files and hunks an action on one hunk is about. -/
def hunkFiles (env : Env) (a : Actor) (hunkId : HunkId) : List (PathBuf × List Hunk) :=
  (a.findHunk env hunkId).elim [] fun f => [(f.1, [f.2])]

/-- **When a failed action changes nothing.** For an action on one hunk, on
a file, on all files and on a turn: exactly when it does not fail, or fails
on a file whose hunks are unlisted and can no longer be counted. -/
theorem action_atomic_iff (D : LineDiff) (env : Env) (a : Actor) (h : Actor.Reachable D a)
    (action : HunkAction) :
    (∀ id, AtomicOnFailure a action (hunkFiles env a id) (a.applyHunkAction D env id action)
        ↔ (action = .reject → Rejects env a a.sessionStats (hunkFiles env a id)))
      ∧ (∀ p, AtomicOnFailure a action [(p, a.hunksAt p)] (a.applyFileAction D env p action)
        ↔ (action = .reject → Rejects env a a.sessionStats [(p, a.hunksAt p)]))
      ∧ (AtomicOnFailure a action (a.filesWithHunks env fun _ => true)
          (a.applyAllAction D env action)
        ↔ (action = .reject →
            Rejects env a a.sessionStats (a.filesWithHunks env fun _ => true)))
      ∧ ∀ k, AtomicOnFailure a action
          (a.filesWithHunks env fun h => h.source.promptIndex == some k)
          (a.applyTurnAction D env k action)
        ↔ (action = .reject → Rejects env a a.sessionStats
            (a.filesWithHunks env fun h => h.source.promptIndex == some k)) := by
  have hi := Sound.of_reachable h
  refine ⟨fun id => ?_, fun p => ?_, ?_, fun k => ?_⟩
  · simp only [hunkFiles, Actor.applyHunkAction]
    split
    · next hnone =>
      rw [hnone]
      refine ⟨fun _ _ => trivial, fun _ e q he hq => ?_⟩
      cases he
      cases hq
    · next p l hfind =>
      rw [hfind]
      refine (atomicOnFailure_applyToFile action).trans
        (atomicOnFailure_batch hi (by simp) (fun f hf m hm => ?_) action)
      rw [mem_singleton.mp hf] at hm ⊢
      rw [mem_singleton.mp hm]
      exact (Actor.mem_findHunk hfind).1
  · -- nothing happens to a file without hunks
    have hempty : a.hunksAt p = [] →
        (AtomicOnFailure a action [(p, a.hunksAt p)]
            ((a, .ok []) : Actor × Except HunkActionError (List HunkId))
          ↔ (action = .reject → Rejects env a a.sessionStats [(p, a.hunksAt p)])) := by
      intro hnil
      refine ⟨fun _ _ => ⟨fun _ => trivial, fun hno => ?_⟩, fun _ e q he => by cases he⟩
      exact absurd (fun _ _ hne => absurd hnil hne) hno
    simp only [Actor.applyFileAction]
    split
    · next hnone => exact hempty (by rw [Actor.hunksAt, hnone]; rfl)
    · next st hst =>
      have hat : a.hunksAt p = st.hunks := by
        rw [Actor.hunksAt, hst]
        rfl
      split
      · next hnil => exact hempty (hat.trans hnil)
      · rw [← hat]
        refine atomicOnFailure_batch hi (by simp) (fun f hf m hm => ?_) action
        rw [mem_singleton.mp hf] at hm ⊢
        exact hm
  · obtain ⟨h1, h2⟩ := Actor.filesWithHunks_spec env a fun _ => true
    exact atomicOnFailure_batch hi h1 (fun f hf m hm => (h2 f hf).subset hm) action
  · obtain ⟨h1, h2⟩ := Actor.filesWithHunks_spec env a fun h => h.source.promptIndex == some k
    exact atomicOnFailure_batch hi h1 (fun f hf m hm => (h2 f hf).subset hm) action

/-- A world in which no write gets through. -/
def Env.readOnly : Env := { Env.quiet with writeOk := fun _ => false }

/-- A rejection that succeeds, and one whose write fails: its hunk can be counted. -/
theorem action_atomic_iff_writes :
    AtomicOnFailure writtenOnce .reject [(["f"], writtenOnce.hunksAt ["f"])]
        (writtenOnce.applyFileAction .lcs .quiet ["f"] .reject)
      ∧ ¬ AtomicOnFailure writtenOnce .reject [(["f"], writtenOnce.hunksAt ["f"])]
        (writtenOnce.applyFileAction .lcs .readOnly ["f"] .reject) := by
  have hreach : Actor.Reachable .lcs writtenOnce := reachable_write _ _
  constructor
  · refine ((action_atomic_iff .lcs .quiet writtenOnce hreach .reject).2.1 ["f"]).mpr fun _ => ?_
    refine ⟨fun _ => trivial, fun hno => absurd (fun st _ _ => ?_) hno⟩
    cases Actor.rejectAction st (writtenOnce.hunksAt ["f"]) <;> rfl
  · intro hatomic
    obtain ⟨-, hfails⟩ :=
      ((action_atomic_iff .lcs .readOnly writtenOnce hreach .reject).2.1 ["f"]).mp hatomic rfl
    have hfile : ∃ st, writtenOnce.file ["f"] = some st ∧
        succeeds .readOnly ["f"] (Actor.rejectAction st (writtenOnce.hunksAt ["f"])) = false :=
      ⟨_, rfl, by decide⟩
    have hwrites : ¬ RejectOk .readOnly writtenOnce ["f"] (writtenOnce.hunksAt ["f"]) := by
      obtain ⟨st, hst, hfalse⟩ := hfile
      intro hok
      have htrue := hok st hst (by decide)
      rw [hfalse] at htrue
      cases htrue
    have hfull := (hfails hwrites).1.1
    revert hfull
    decide

/-- The rejection fails, and is counted and unlisted all the same. -/
theorem failedReject_counted :
    Actor.Reachable .lcs writtenOnce
      ∧ (writtenOnce.applyHunkAction .lcs .readOnly ⟨0⟩ .reject).2 = .error (.writeError ["f"])
      ∧ ¬ AtomicOnFailure writtenOnce .reject (hunkFiles .readOnly writtenOnce ⟨0⟩)
        (writtenOnce.applyHunkAction .lcs .readOnly ⟨0⟩ .reject) := by
  have herr : (writtenOnce.applyHunkAction .lcs .readOnly ⟨0⟩ .reject).2
      = .error (.writeError ["f"]) := by decide
  refine ⟨reachable_write _ _, herr, fun h => ?_⟩
  have hstats := (h _ ["f"] herr rfl).stats
  revert hstats
  decide

end GrokBuild.HunkTracker
