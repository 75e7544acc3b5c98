import GrokBuild.HunkTracker.Commands

/-!
# Hunk tracker: ids and descriptions

Two invariants of every run. Live hunks have different ids (`nodup`,
`disjoint`), all issued before (`fresh`); and the hunks of a file are those
of its baseline and current content (`described`). Snapshots that were
handed out keep both, so restoring one keeps them too.

Between a change of the two texts and the recomputation that follows, the
description of that one file is out of date. `Inv D ex` is the invariant
with the files of `ex` exempt from `described`; `Sound D` exempts none.
-/

namespace GrokBuild.HunkTracker

open TextLines Str EditScript List Option

/-! ## What the hunks of a file are -/

/-- A file without hunks, or with those of the case table (up to id,
source, timestamp and patch). -/
def Described (D : LineDiff) (p : PathBuf) (st : FileHunkState) : Prop :=
  st.hunks = [] ∨ ∀ (env : Env) (n : Nat) (source : HunkSource),
    (∀ b c, env.timedOut b c = false) →
    st.hunks.map Hunk.bare
      = (hunkTable D env n p source st.baseline st.currentContent).map Hunk.bare

/-- The table says the same in any environment in which the diff runs to
its end; in the others it is empty. -/
theorem hunkTable_map_bare (D : LineDiff) (env env' : Env) (n n' : Nat) (p : PathBuf)
    (source source' : HunkSource) (b c : FileContentState)
    (ht : ∀ b c, env'.timedOut b c = false) :
    hunkTable D env n p source b c = []
      ∨ (hunkTable D env n p source b c).map Hunk.bare
        = (hunkTable D env' n' p source' b c).map Hunk.bare := by
  cases b with
  | full b =>
    cases c with
    | full c =>
      simp only [hunkTable]
      by_cases hd : b = c ∨ ¬ (byteLen b ≤ maxDiffFileSize ∧ byteLen c ≤ maxDiffFileSize)
          ∨ env.timedOut b c = true
      · exact .inl (computeHunks_of_not_diffed hd)
      · simp only [not_or, not_not, Bool.not_eq_true] at hd
        obtain ⟨hbc, hsize, ht'⟩ := hd
        right
        rw [computeHunks_map_bare D n p source hbc hsize ht',
          computeHunks_map_bare D n' p source' hbc hsize (ht b c)]
    | missing =>
      simp only [hunkTable]
      split
      · exact .inl rfl
      · exact .inr rfl
    | _ => exact .inl rfl
  | missing =>
    cases c with
    | full c =>
      simp only [hunkTable]
      split
      · exact .inl rfl
      · exact .inr rfl
    | _ => exact .inl rfl
  | _ => exact .inl rfl

variable {D : LineDiff} {n : Nat} {p : PathBuf}

theorem of_mem_hunkTable {env : Env} {source : HunkSource} {b c : FileContentState} {h : Hunk}
    (hh : h ∈ hunkTable D env n p source b c) : h.path = p ∧ h.source = source := by
  unfold hunkTable at hh
  split at hh
  · unfold computeHunks at hh
    split at hh
    · cases hh
    · split at hh
      · cases hh
      · split at hh
        · cases hh
        · obtain ⟨r, -, rfl⟩ := List.mem_map.mp hh
          exact ⟨rfl, rfl⟩
  · split at hh
    · cases hh
    · obtain rfl := mem_singleton.mp hh
      exact ⟨rfl, rfl⟩
  · split at hh
    · cases hh
    · obtain rfl := mem_singleton.mp hh
      exact ⟨rfl, rfl⟩
  · cases hh

theorem described_preserveIds (D : LineDiff) (env : Env) (n : Nat) (p : PathBuf)
    (source : HunkSource) (oldHunks : List Hunk) (st : FileHunkState)
    (h : st.hunks
      = preserveIds oldHunks [] (hunkTable D env n p source st.baseline st.currentContent)) :
    Described D p st := by
  by_cases h0 : hunkTable D env n p source st.baseline st.currentContent = []
  · left
    rw [h, h0]
    rfl
  · right
    intro env' n' source' ht
    rw [h, preserveIds_map_bare]
    exact (hunkTable_map_bare D env env' n n' p source source' _ _ ht).resolve_left h0

theorem Described.length_le_one {st : FileHunkState} (h : Described D p st)
    (hm : st.baseline = .missing ∨ st.currentContent = .missing) : st.hunks.length ≤ 1 := by
  rcases h with h | h
  · simp [h]
  · have hlen := congrArg List.length (h .quiet 0 .external (fun _ _ => rfl))
    simp only [length_map] at hlen
    rw [hlen]
    rcases hm with hm | hm
    · rw [hm]
      cases st.currentContent <;> simp only [hunkTable, length_nil, Nat.zero_le]
      split <;> simp
    · rw [hm]
      cases st.baseline <;> simp only [hunkTable, length_nil, Nat.zero_le]
      split <;> simp

theorem without_eq_nil {st : FileHunkState} {hs : List Hunk} (h : Described D p st)
    (hm : st.baseline = .missing ∨ st.currentContent = .missing) (hne : hs ≠ [])
    (hsub : ∀ k ∈ hs, k ∈ st.hunks) : Actor.without st hs = [] := by
  obtain ⟨k, hk⟩ := exists_mem_of_ne_nil _ hne
  have hlen := h.length_le_one hm
  have hone : st.hunks = [k] := by
    match hst : st.hunks, hsub k hk with
    | [x], hmem => rw [mem_singleton.mp hmem]
    | x :: y :: l, _ => simp [hst] at hlen
  have : k.id ∈ hs.map (·.id) := List.mem_map_of_mem hk
  simp only [Actor.without, hone, filter_cons, filter_nil]
  simp [this]

/-! ## Handing ids on -/

theorem hunkTable_ids (D : LineDiff) (env : Env) (n : Nat) (p : PathBuf)
    (source : HunkSource) (b c : FileContentState) :
    (hunkTable D env n p source b c).map (·.id)
      = (List.range' n (hunkTable D env n p source b c).length).map HunkId.mk := by
  have hcompute : ∀ b c, (computeHunks D env n p b c source).map (·.id)
      = (List.range' n (computeHunks D env n p b c source).length).map HunkId.mk := by
    intro b c
    rw [computeHunks]
    split
    · rfl
    split
    · rfl
    split
    · rfl
    · rw [List.map_map, length_map, length_zipIdx, ← zipIdx_map_snd n,
        List.map_map]
      rfl
  cases b <;> cases c <;> simp only [hunkTable] <;> first | exact hcompute _ _ | rfl | skip
  all_goals
    split <;> rfl

/-- **No id is handed on twice.** The ids after `preserveIds` are pairwise
different, and each is an old id that was not claimed before, or the fresh
one. -/
theorem preserveIds_ids (oldHunks : List Hunk) (hs : List Hunk) : ∀ claimed : List HunkId,
    (∀ h ∈ hs, ∀ o ∈ oldHunks, h.id ≠ o.id) → (hs.map (·.id)).Nodup →
    ((preserveIds oldHunks claimed hs).map (·.id)).Nodup
      ∧ ∀ k ∈ preserveIds oldHunks claimed hs,
        (∃ o ∈ oldHunks, o.id = k.id ∧ k.id ∉ claimed) ∨ ∃ h ∈ hs, h.id = k.id := by
  induction hs with
  | nil => exact fun _ _ _ => ⟨nodup_nil, by simp [preserveIds]⟩
  | cons h hs ih =>
    intro claimed hfresh hnodup
    have hfresh' : ∀ k ∈ hs, ∀ o ∈ oldHunks, k.id ≠ o.id := fun k hk => hfresh k (by simp [hk])
    rw [map_cons, nodup_cons] at hnodup
    -- the hunk keeps its fresh id
    have hkeep : ((h :: preserveIds oldHunks claimed hs).map (·.id)).Nodup
        ∧ ∀ k ∈ h :: preserveIds oldHunks claimed hs,
          (∃ o ∈ oldHunks, o.id = k.id ∧ k.id ∉ claimed) ∨ ∃ h' ∈ h :: hs, h'.id = k.id := by
      obtain ⟨ih1, ih2⟩ := ih claimed hfresh' hnodup.2
      refine ⟨nodup_cons.mpr ⟨?_, ih1⟩, fun k hk => ?_⟩
      · intro hm
        obtain ⟨k, hk, hkid⟩ := List.mem_map.mp hm
        rcases ih2 k hk with ⟨o, ho, hoid, -⟩ | ⟨h', hh', hid⟩
        · exact hfresh h (by simp) o ho (hkid.symm.trans hoid.symm)
        · exact hnodup.1 (List.mem_map.mpr ⟨h', hh', hid.trans hkid⟩)
      · rcases mem_cons.mp hk with rfl | hk
        · exact .inr ⟨k, by simp, rfl⟩
        · rcases ih2 k hk with hold | ⟨h', hh', hid⟩
          · exact .inl hold
          · exact .inr ⟨h', by simp [hh'], hid⟩
    rw [preserveIds]
    split
    · exact hkeep
    · next o ho =>
      split
      · exact hkeep
      · next hnc =>
        -- the hunk takes the id of its match, which nobody claims after it
        have homem := (findMatchingOldHunk_spec ho).1
        obtain ⟨ih1, ih2⟩ := ih (o.id :: claimed) hfresh' hnodup.2
        refine ⟨nodup_cons.mpr ⟨?_, ih1⟩, fun k hk => ?_⟩
        · intro hm
          obtain ⟨k, hk, hkid⟩ := List.mem_map.mp hm
          rcases ih2 k hk with ⟨-, -, -, hkc⟩ | ⟨h', hh', hid⟩
          · exact hkc (by simp [hkid])
          · exact hfresh' h' hh' o homem (hid.trans hkid)
        · rcases mem_cons.mp hk with rfl | hk
          · exact .inl ⟨o, homem, rfl, hnc⟩
          · rcases ih2 k hk with ⟨o', ho', hoid, hkc⟩ | ⟨h', hh', hid⟩
            · exact .inl ⟨o', ho', hoid, fun hc => hkc (by simp [hc])⟩
            · exact .inr ⟨h', by simp [hh'], hid⟩

theorem hunkTable_fresh (D : LineDiff) (env : Env) (p : PathBuf) (source : HunkSource)
    (b c : FileContentState) : ∀ h ∈ hunkTable D env n p source b c,
      n ≤ h.id.val ∧ h.id.val < n + (hunkTable D env n p source b c).length := by
  intro h hh
  have hm : h.id ∈ (hunkTable D env n p source b c).map (·.id) := List.mem_map_of_mem hh
  rw [hunkTable_ids D env n p source b c] at hm
  obtain ⟨i, hi, hid⟩ := List.mem_map.mp hm
  rw [← hid]
  exact mem_range'_1.mp hi

/-- The ids of the table are none of those issued before. -/
theorem fresh_hunkTable (D : LineDiff) (env : Env) (p : PathBuf) (source : HunkSource)
    (b c : FileContentState) {oldHunks : List Hunk} (hold : ∀ o ∈ oldHunks, o.id.val < n) :
    ∀ h ∈ hunkTable D env n p source b c, ∀ o ∈ oldHunks, h.id ≠ o.id := by
  intro h hh o ho hid
  have hge := (hunkTable_fresh D env p source b c h hh).1
  have hlt := hold o ho
  rw [hid] at hge
  omega

/-- What a recomputation makes of the table, when the old ids are below the
fresh ones. -/
theorem table_preserveIds (D : LineDiff) (env : Env) (p : PathBuf) (source : HunkSource)
    (b c : FileContentState) {oldHunks : List Hunk} (hold : ∀ o ∈ oldHunks, o.id.val < n) :
    ((preserveIds oldHunks [] (hunkTable D env n p source b c)).map (·.id)).Nodup
      ∧ ∀ k ∈ preserveIds oldHunks [] (hunkTable D env n p source b c),
        (∃ o ∈ oldHunks, o.id = k.id)
          ∨ n ≤ k.id.val ∧ k.id.val < n + (hunkTable D env n p source b c).length := by
  have hids := hunkTable_ids D env n p source b c
  have hrange := hunkTable_fresh D env (n := n) p source b c
  have hnodup : ((hunkTable D env n p source b c).map (·.id)).Nodup := by
    rw [hids]
    exact List.Nodup.map (fun i j hij => HunkId.mk.inj hij) nodup_range'
  obtain ⟨h1, h2⟩ := preserveIds_ids oldHunks _ [] (fresh_hunkTable D env p source b c hold) hnodup
  refine ⟨h1, fun k hk => ?_⟩
  rcases h2 k hk with ⟨o, ho, hoid, -⟩ | ⟨h, hh, hid⟩
  · exact .inl ⟨o, ho, hoid⟩
  · rw [← hid]
    exact .inr (hrange h hh)

/-! ## The invariant -/

/-- The hunks of a file entry. -/
def hunksOf (f : Option FileHunkState) : List Hunk := f.elim [] (·.hunks)

/-- Different ids in one file and across files, all issued below `n`. -/
structure DistinctIds (f : PathBuf → Option FileHunkState) (n : Nat) : Prop where
  nodup : ∀ p, ((hunksOf (f p)).map (·.id)).Nodup
  disjoint : ∀ p q, p ≠ q → ∀ h ∈ hunksOf (f p), ∀ k ∈ hunksOf (f q), h.id ≠ k.id
  fresh : ∀ p, ∀ h ∈ hunksOf (f p), h.id.val < n

/-- A snapshot that can be restored. -/
structure SnapshotOk (D : LineDiff) (n : Nat) (s : HunkTrackerSnapshot) : Prop where
  ids : DistinctIds s.fileStates.lookup n
  described : ∀ p st, s.fileStates.lookup p = some st → Described D p st

structure Inv (D : LineDiff) (ex : PathBuf → Prop) (a : Actor) : Prop where
  ids : DistinctIds a.file a.nextId
  described : ∀ p st, ¬ ex p → a.file p = some st → Described D p st
  snapshots : ∀ s ∈ a.snapshots, SnapshotOk D a.nextId s

/-- The invariant of the tracker between two commands. -/
abbrev Sound (D : LineDiff) (a : Actor) : Prop := Inv D (fun _ => False) a

variable {f : PathBuf → Option FileHunkState}

theorem DistinctIds.mono {m : Nat} (h : DistinctIds f n) (hle : n ≤ m) : DistinctIds f m where
  nodup := h.nodup
  disjoint := h.disjoint
  fresh p k hk := Nat.lt_of_lt_of_le (h.fresh p k hk) hle

theorem SnapshotOk.mono {s : HunkTrackerSnapshot} {m : Nat} (h : SnapshotOk D n s) (hle : n ≤ m) :
    SnapshotOk D m s :=
  ⟨h.ids.mono hle, h.described⟩

theorem DistinctIds.update {g : PathBuf → Option FileHunkState} {m : Nat} (h : DistinctIds f n)
    (hle : n ≤ m) (frame : ∀ q, q ≠ p → g q = f q) (hnodup : ((hunksOf (g p)).map (·.id)).Nodup)
    (horigin : ∀ k ∈ hunksOf (g p), (∃ o ∈ hunksOf (f p), o.id = k.id) ∨ n ≤ k.id.val ∧ k.id.val < m) :
    DistinctIds g m := by
  -- an id of the rewritten file is not one of another file
  have hother : ∀ q, q ≠ p → ∀ k ∈ hunksOf (g p), ∀ l ∈ hunksOf (g q), k.id ≠ l.id := by
    intro q hq k hk l hl hid
    rw [frame q hq] at hl
    rcases horigin k hk with ⟨o, ho, hoid⟩ | ⟨hn, -⟩
    · exact h.disjoint p q (Ne.symm hq) o ho l hl (hoid.trans hid)
    · have := h.fresh q l hl
      rw [← hid] at this
      omega
  refine ⟨fun q => ?_, fun q r hqr k hk l hl => ?_, fun q k hk => ?_⟩
  · by_cases hq : q = p
    · exact hq ▸ hnodup
    · rw [frame q hq]
      exact h.nodup q
  · by_cases hq : q = p
    · subst hq
      exact hother r (Ne.symm hqr) k hk l hl
    · by_cases hr : r = p
      · subst hr
        exact (hother q hq l hl k hk).symm
      · rw [frame q hq] at hk
        rw [frame r hr] at hl
        exact h.disjoint q r hqr k hk l hl
  · by_cases hq : q = p
    · subst hq
      rcases horigin k hk with ⟨o, ho, hoid⟩ | ⟨-, hm⟩
      · rw [← hoid]
        exact Nat.lt_of_lt_of_le (h.fresh q o ho) hle
      · exact hm
    · rw [frame q hq] at hk
      exact Nat.lt_of_lt_of_le (h.fresh q k hk) hle

theorem DistinctIds.shrink {g : PathBuf → Option FileHunkState} (h : DistinctIds f n)
    (frame : ∀ q, q ≠ p → g q = f q) (hsub : (hunksOf (g p)).Sublist (hunksOf (f p))) :
    DistinctIds g n :=
  h.update (Nat.le_refl n) frame ((h.nodup p).sublist (hsub.map _))
    fun k hk => .inl ⟨k, hsub.subset hk, rfl⟩

namespace Inv

variable {D : LineDiff} {env : Env} {ex : PathBuf → Prop} {a a' : Actor} {p : PathBuf}
  {st st' : FileHunkState}

theorem congr (h : Inv D ex a) (hf : a'.file = a.file) (hn : a'.nextId = a.nextId)
    (hs : a'.snapshots = a.snapshots) : Inv D ex a' where
  ids := by rw [hf, hn]; exact h.ids
  described q st hq hst := h.described q st hq (by rw [← hf]; exact hst)
  snapshots s hs' := by rw [hn]; exact h.snapshots s (by rw [← hs]; exact hs')

theorem sendEvents (h : Inv D ex a) (es : List HunkEvent) : Inv D ex (a.sendEvents es) :=
  h.congr rfl rfl rfl

theorem unindex (h : Inv D ex a) (hs : List Hunk) : Inv D ex (a.unindex hs) :=
  h.congr rfl rfl rfl

theorem did (h : Inv D ex a) (e : FileEffect) : Inv D ex (a.did e) := h.congr rfl rfl rfl

theorem book (h : Inv D ex a) (hs : List Hunk) (action : HunkAction) :
    Inv D ex (a.book hs action) := h.congr rfl rfl rfl

theorem discover (h : Inv D ex a) (env : Env) : Inv D ex (a.discover env) := by
  obtain ⟨g, hg⟩ := a.discover_eq env
  rw [hg]
  exact h.congr rfl rfl rfl

theorem setFile_exempt (h : Inv D ex a) (hsub : st.hunks.Sublist (a.hunksAt p)) :
    Inv D (fun q => ex q ∨ q = p) (a.setFile p st) where
  ids := by
    refine h.ids.shrink (fun q hq => Actor.file_setFile_ne a st hq) ?_
    rw [Actor.file_setFile_self]
    exact hsub
  described q st' hq hst' := by
    simp only [not_or] at hq
    rw [Actor.file_setFile_ne a st hq.2] at hst'
    exact h.described q st' hq.1 hst'
  snapshots := h.snapshots

theorem setFile (h : Inv D ex a) (hsub : st.hunks.Sublist (a.hunksAt p))
    (hd : Described D p st) : Inv D ex (a.setFile p st) where
  ids := (h.setFile_exempt hsub).ids
  described q st' hq hst' := by
    by_cases hqp : q = p
    · subst hqp
      rw [Actor.file_setFile_self] at hst'
      cases hst'
      exact hd
    · rw [Actor.file_setFile_ne a st hqp] at hst'
      exact h.described q st' hq hst'
  snapshots := h.snapshots

theorem setFile_nil (h : Inv D ex a) (hnil : st.hunks = []) : Inv D ex (a.setFile p st) :=
  h.setFile (by rw [hnil]; exact nil_sublist _) (.inl hnil)

theorem eraseFile (h : Inv D ex a) : Inv D ex (a.eraseFile p) where
  ids := by
    refine h.ids.shrink (fun q hq => Actor.file_eraseFile_ne a hq) ?_
    rw [Actor.file_eraseFile_self]
    exact nil_sublist _
  described q st hq hst := by
    by_cases hqp : q = p
    · subst hqp
      simp at hst
    · rw [Actor.file_eraseFile_ne a hqp] at hst
      exact h.described q st hq hst
  snapshots := h.snapshots

theorem trackFile (h : Inv D ex a) (hnil : st.hunks = []) : Inv D ex (a.trackFile p st) :=
  (h.setFile_nil hnil).sendEvents _

/-- **Recomputation** restores the description of its file and keeps the
ids apart, whatever the texts were changed to before. -/
theorem recomputeHunks (h : Inv D (fun q => ex q ∨ q = p) a)
    (current : Option FileContentState) (source : HunkSource) :
    Inv D ex (a.recomputeHunks D env p current source) := by
  cases hst : a.file p with
  | none =>
    simp only [Actor.recomputeHunks, hst]
    refine ⟨h.ids, fun q st hq hq' => ?_, h.snapshots⟩
    refine h.described q st ?_ hq'
    rintro (hex | rfl)
    · exact hq hex
    · rw [hst] at hq'
      cases hq'
  | some st =>
    have hself := Actor.file_recomputeHunks_self D env hst current source
    have hnext : (a.recomputeHunks D env p current source).nextId
        = a.nextId + (hunkTable D env a.nextId p source st.baseline
          (current.getD .missing)).length := by
      simp only [Actor.recomputeHunks, hst]
    have hsnap : (a.recomputeHunks D env p current source).snapshots = a.snapshots := by
      simp only [Actor.recomputeHunks, hst]
      rfl
    have hframe : ∀ q, q ≠ p → (a.recomputeHunks D env p current source).file q = a.file q :=
      fun q hq => Actor.file_recomputeHunks_ne D env hq current source
    have hle : a.nextId ≤ (a.recomputeHunks D env p current source).nextId := by omega
    have hold : ∀ o ∈ st.hunks, o.id.val < a.nextId := by
      intro o ho
      exact h.ids.fresh p o (by rw [hst]; exact ho)
    refine ⟨?_, fun q st' hq hst' => ?_, fun s hs => ?_⟩
    · obtain ⟨hnodup, horigin⟩ := table_preserveIds D env p source st.baseline
        (current.getD .missing) hold
      refine h.ids.update hle hframe ?_ fun k hk => ?_
      · rw [hself]
        exact hnodup
      · rw [hself] at hk
        rw [hst, hnext]
        exact horigin k hk
    · by_cases hqp : q = p
      · subst hqp
        rw [hself] at hst'
        cases hst'
        exact described_preserveIds D env a.nextId q source st.hunks _ rfl
      · rw [hframe q hqp] at hst'
        refine h.described q st' ?_ hst'
        rintro (hex | rfl)
        · exact hq hex
        · exact hqp rfl
    · rw [hsnap] at hs
      exact (h.snapshots s hs).mono hle

theorem weaken (h : Inv D ex a) (p : PathBuf) : Inv D (fun q => ex q ∨ q = p) a where
  ids := h.ids
  described q st hq hst := h.described q st (fun hex => hq (.inl hex)) hst
  snapshots := h.snapshots

end Inv

/-! ## File changes -/

namespace Sound

variable {D : LineDiff} {env : Env} {a : Actor} {p : PathBuf} {st : FileHunkState}

theorem recomputeHunks (h : Sound D a) (current : Option FileContentState)
    (source : HunkSource) : Sound D (a.recomputeHunks D env p current source) :=
  (Inv.weaken h p).recomputeHunks current source

theorem takeBaseline (h : Sound D a) (env : Env) (p : PathBuf)
    (preloaded : Option FileContentState) :
    Sound D (a.takeBaseline env p preloaded).2 := by
  cases preloaded with
  | none => exact Inv.discover h env
  | some b => exact h

theorem setFlags (h : Sound D a) (hst : a.file p = some st) {agent accepted : Bool} :
    Sound D (a.setFile p { st with isAgentFile := agent, baselineAccepted := accepted }) := by
  refine Inv.setFile h ?_ ?_
  · rw [Actor.hunksAt, hst]
    exact List.Sublist.refl _
  · exact h.described p st id hst

theorem recordAgentWrite (h : Sound D a) (content : Text) (promptIndex : Nat)
    (previousContent : Option Text) :
    Sound D (a.recordAgentWrite D env p content promptIndex previousContent) := by
  unfold Actor.recordAgentWrite
  dsimp only
  split
  · -- the content cannot be diffed
    unfold Actor.recordOpaqueWrite
    split
    · exact Inv.trackFile (h.takeBaseline _ _ _) (by rfl)
    · exact Inv.setFile_nil h (by rfl)
  · split
    · exact recomputeHunks (Inv.trackFile (Inv.discover h env) (by rfl)) _ _
    · next st _ hst => exact recomputeHunks (h.setFlags hst) _ _

theorem discoverFile (h : Sound D a) (preloaded : Option FileContentState) :
    Sound D (a.discoverFile D env p preloaded) := by
  have hread := h.takeBaseline env p preloaded
  unfold Actor.discoverFile
  dsimp only
  split
  · exact hread
  · split
    · split
      · exact recomputeHunks (Inv.trackFile hread (by rfl)) _ _
      · exact Inv.trackFile hread (by rfl)
    · exact recomputeHunks (Inv.trackFile hread (by rfl)) _ _

theorem processFileChange (h : Sound D a) (preloaded : Option FileContentState) :
    Sound D (a.processFileChange D env p preloaded) := by
  unfold Actor.processFileChange
  split
  · split
    · exact h
    · exact h.discoverFile preloaded
  · dsimp only
    split
    · split
      · exact Inv.setFile_nil (h.takeBaseline _ _ _) (by rfl)
      · exact recomputeHunks (h.takeBaseline _ _ _) _ _
    · exact recomputeHunks h _ _

theorem handleFileDeleted (h : Sound D a) : Sound D (a.handleFileDeleted D env p) := by
  unfold Actor.handleFileDeleted
  split
  · split
    · exact h
    · dsimp only
      split
      · exact Inv.discover h env
      · exact recomputeHunks (Inv.trackFile (Inv.discover h env) (by rfl)) _ _
  · split
    · exact h.processFileChange none
    · exact recomputeHunks h _ _

theorem foldl {α : Type} {f : Actor → α → Actor} (hf : ∀ a x, Sound D a → Sound D (f a x)) :
    ∀ (xs : List α) {a : Actor}, Sound D a → Sound D (xs.foldl f a)
  | [], _, h => h
  | x :: xs, a, h => foldl hf xs (hf a x h)

theorem handleFileChangesBatch (h : Sound D a) (paths : List PathBuf) :
    Sound D (a.handleFileChangesBatch D env paths) := by
  unfold Actor.handleFileChangesBatch
  dsimp only
  split
  · exact foldl (fun b q hb => hb.processFileChange none) paths h
  · exact foldl (fun b q hb => hb.processFileChange _) paths (Inv.discover h env)

theorem resetBaseline (h : Sound D a) : Sound D (a.resetBaseline p) := by
  unfold Actor.resetBaseline
  split
  · exact h
  · exact Inv.sendEvents (Inv.unindex (Inv.setFile_nil h (by rfl)) _) _

theorem refreshGitDirtyCache (h : Sound D a) (scope : Option (List PathBuf)) :
    Sound D (a.refreshGitDirtyCache D env scope) := by
  unfold Actor.refreshGitDirtyCache
  split
  · exact h
  · have hcache : ∀ dirty staged, Sound D
        { a.discover env with gitDirtyCache := dirty, gitStagedCache := staged } :=
      fun _ _ => Inv.congr (Inv.discover h env) rfl rfl rfl
    dsimp only
    split
    · exact foldl (fun b q hb => hb.processFileChange none) _ (hcache _ _)
    · exact hcache _ _

theorem refreshFile (h : Sound D a) (baseline : FileContentState) :
    Sound D (a.refreshFile D env p baseline) := by
  unfold Actor.refreshFile
  split
  · exact h
  · next st hst =>
    dsimp only
    split
    · split
      · exact Inv.sendEvents (Inv.unindex (Inv.setFile_nil h (by rfl)) _) _
      · exact Inv.sendEvents (Inv.unindex (Inv.eraseFile h) _) _
    · refine Inv.sendEvents (Inv.recomputeHunks (Inv.setFile_exempt h ?_) _ _) _
      rw [Actor.hunksAt, hst]
      exact List.Sublist.refl _

theorem refreshAllBaselinesExcept (h : Sound D a) (skip : List PathBuf) :
    Sound D (a.refreshAllBaselinesExcept D env skip) := by
  have htracked : ∀ {b : Actor}, Sound D b → Sound D (b.refreshTracked D env skip) := by
    intro b hb
    have hscope : Sound D (b.refreshScopedCache D env) := by
      unfold Actor.refreshScopedCache
      split
      · exact hb.refreshGitDirtyCache none
      · dsimp only
        split
        · exact Inv.congr hb rfl rfl rfl
        · exact hb.refreshGitDirtyCache _
    unfold Actor.refreshTracked
    dsimp only
    split
    · exact hscope
    · exact foldl (fun c q hc => hc.refreshFile _) _ (Inv.discover hscope env)
  have hread : Sound D (a.readRepoSyncState env).2 := by
    unfold Actor.readRepoSyncState
    split <;> exact Inv.discover h env
  unfold Actor.refreshAllBaselinesExcept
  split
  · exact h
  · dsimp only
    split
    · split
      · exact hread
      · exact htracked (Inv.congr hread rfl rfl rfl)
    · exact htracked hread

theorem setMode (h : Sound D a) (mode : TrackingMode) : Sound D (a.setMode D env mode) := by
  have hb : Sound D { a with mode := mode } := Inv.congr h rfl rfl rfl
  unfold Actor.setMode
  dsimp only
  split
  · exact hb.refreshGitDirtyCache none
  · refine foldl (fun c q hc => ?_) _ hb
    unfold Actor.untrack
    split
    · exact hc
    · exact Inv.sendEvents (Inv.unindex (Inv.eraseFile hc) _) _
  · exact hb

end Sound

/-! ## Actions -/

namespace Actor

variable {D : LineDiff} {env : Env} {a : Actor} {p q : PathBuf} {hs : List Hunk}

theorem file_acceptHunksBatch_ne (hq : q ≠ p) :
    (a.acceptHunksBatch D env p hs).file q = a.file q := by
  unfold acceptHunksBatch
  split
  · rfl
  · split
    · rfl
    · dsimp only
      split
      · exact file_setFile_ne a _ hq
      · rw [file_recomputeHunks_ne D env hq]
        exact file_setFile_ne a _ hq

theorem file_rejectHunksBatch_ne (hq : q ≠ p) :
    (a.rejectHunksBatch D env p hs).1.file q = a.file q := by
  unfold rejectHunksBatch
  split
  · rfl
  · split
    · rfl
    · dsimp only
      split
      · split
        · exact file_setFile_ne _ _ hq
        · rfl
      · split
        · exact file_setFile_ne _ _ hq
        · rfl
      · split
        · dsimp only
          rw [file_recomputeHunks_ne D env hq]
          exact file_setFile_ne _ _ hq
        · rfl
      · rfl

theorem file_applyToFile_ne (hq : q ≠ p) (action : HunkAction) :
    (a.applyToFile D env p hs action).1.file q = a.file q := by
  cases action with
  | accept => exact file_acceptHunksBatch_ne hq
  | reject => exact file_rejectHunksBatch_ne hq

theorem mem_findHunk {id : HunkId} {h : Hunk} (hf : a.findHunk env id = some (p, h)) :
    h ∈ a.hunksAt p ∧ h.id = id := by
  obtain ⟨q, -, hq⟩ := exists_of_findSome?_eq_some hf
  obtain ⟨st, hst, hm⟩ := bind_eq_some_iff.mp hq
  obtain ⟨k, hk, heq⟩ := map_eq_some_iff.mp hm
  cases heq
  refine ⟨?_, by simpa using find?_some hk⟩
  rw [hunksAt, hst]
  exact mem_of_find?_eq_some hk

/-- The files of a batch are different, and their hunks are live. -/
theorem filesWithHunks_spec (env : Env) (a : Actor) (sel : Hunk → Bool) :
    ((a.filesWithHunks env sel).map (·.1)).Nodup
      ∧ ∀ f ∈ a.filesWithHunks env sel, f.2.Sublist (a.hunksAt f.1) := by
  constructor
  · have hkeys : (env.order a.fileStates.keys).Nodup :=
      (env.order_perm _).nodup_iff.mpr a.fileStates.nodupKeys
    refine hkeys.sublist ?_
    unfold filesWithHunks
    generalize env.order a.fileStates.keys = ps
    induction ps with
    | nil => exact List.Sublist.refl _
    | cons p ps ih =>
      rw [filterMap_cons]
      split
      · exact ih.trans (sublist_cons_self p ps)
      · next f hf =>
        obtain ⟨st, -, hst⟩ := bind_eq_some_iff.mp hf
        split at hst
        · cases hst
        · cases hst
          exact ih.cons_cons p
  · intro f hf
    obtain ⟨p, -, hp⟩ := mem_filterMap.mp hf
    obtain ⟨st, hst, hsel⟩ := bind_eq_some_iff.mp hp
    split at hsel
    · cases hsel
    · cases hsel
      rw [hunksAt, hst]
      exact filter_sublist

end Actor

namespace Sound

variable {D : LineDiff} {env : Env} {a : Actor} {p : PathBuf} {st : FileHunkState}
  {hs : List Hunk}

theorem without_sublist (hst : a.file p = some st) :
    (Actor.without st hs).Sublist (a.hunksAt p) := by
  rw [Actor.hunksAt, hst]
  exact filter_sublist

theorem acceptHunksBatch (h : Sound D a) (hsub : ∀ k ∈ hs, k ∈ a.hunksAt p) :
    Sound D (a.acceptHunksBatch D env p hs) := by
  unfold Actor.acceptHunksBatch
  split
  · exact h
  · next st hst =>
    rw [Actor.hunksAt, hst] at hsub
    split
    · exact h
    · next hne =>
      dsimp only
      split
      · next hmissing =>
        have hnil := without_eq_nil (h.described p st id hst) (.inl hmissing) hne hsub
        exact Inv.sendEvents (Inv.setFile_nil h (by exact hnil)) _
      · exact Inv.recomputeHunks
          (Inv.sendEvents (Inv.setFile_exempt h (without_sublist hst)) _) _ _

theorem rejectHunksBatch (h : Sound D a) (hsub : ∀ k ∈ hs, k ∈ a.hunksAt p) :
    Sound D (a.rejectHunksBatch D env p hs).1 := by
  unfold Actor.rejectHunksBatch
  split
  · exact h
  · next st hst =>
    rw [Actor.hunksAt, hst] at hsub
    split
    · exact h
    · next hne =>
      have hgone : st.baseline = .missing ∨ st.currentContent = .missing →
          Actor.without st hs = [] :=
        fun hm => without_eq_nil (h.described p st id hst) hm hne hsub
      dsimp only
      split
      · next b hact =>
        have hcur : st.currentContent = .missing := by
          revert hact
          unfold Actor.rejectAction
          cases st.baseline <;> cases st.currentContent <;> simp
        split
        · exact Inv.sendEvents (Inv.setFile_nil (Inv.did h _) (by exact hgone (.inr hcur))) _
        · exact h
      · next hact =>
        have hbase : st.baseline = .missing := by
          revert hact
          unfold Actor.rejectAction
          cases st.baseline <;> cases st.currentContent <;> simp
        split
        · exact Inv.sendEvents (Inv.setFile_nil (Inv.did h _) (by exact hgone (.inl hbase))) _
        · exact h
      · split
        · exact Inv.recomputeHunks
            (Inv.sendEvents (Inv.setFile_exempt (Inv.did h _) (without_sublist hst)) _) _ _
        · exact h
      · exact h

theorem applyToFile (env : Env) (h : Sound D a) (hsub : ∀ k ∈ hs, k ∈ a.hunksAt p)
    (action : HunkAction) :
    Sound D (a.applyToFile D env p hs action).1 := by
  cases action with
  | accept => exact acceptHunksBatch (Inv.book h hs .accept) hsub
  | reject => exact rejectHunksBatch (Inv.book h hs .reject) hsub

theorem applyActionBatch (action : HunkAction) (files : List (PathBuf × List Hunk)) :
    ∀ {a : Actor}, Sound D a → (files.map (·.1)).Nodup →
    (∀ f ∈ files, ∀ h ∈ f.2, h ∈ a.hunksAt f.1) →
    Sound D (a.applyActionBatch D env action files).1 := by
  induction files with
  | nil => exact fun h _ _ => h
  | cons f files ih =>
    intro a h hnodup hsub
    obtain ⟨p, hs⟩ := f
    rw [map_cons, nodup_cons] at hnodup
    have hone := applyToFile env h (hsub (p, hs) (by simp)) action
    have hrest : ∀ f ∈ files, ∀ k ∈ f.2,
        k ∈ (a.applyToFile D env p hs action).1.hunksAt f.1 := by
      intro f hf k hk
      have hne : f.1 ≠ p := by
        rintro rfl
        exact hnodup.1 (List.mem_map.mpr ⟨f, hf, rfl⟩)
      rw [Actor.hunksAt, Actor.file_applyToFile_ne hne]
      exact hsub f (by simp [hf]) k hk
    rw [Actor.fst_applyActionBatch_cons]
    split
    · exact hone
    · exact ih hone hnodup.2 hrest

/-! ## Runs -/

theorem restoreSnapshot (h : Sound D a) {s : HunkTrackerSnapshot} (hs : s ∈ a.snapshots) :
    Sound D (a.restoreSnapshot s) where
  ids := (h.snapshots s hs).ids
  described p st _ hst := (h.snapshots s hs).described p st hst
  snapshots := h.snapshots

theorem handleQuery (h : Sound D a) (q : Query) : Sound D (a.handleQuery q) := by
  cases q with
  | snapshotState =>
    refine ⟨h.ids, h.described, fun s hs => ?_⟩
    rcases mem_append.mp hs with hs | hs
    · exact h.snapshots s hs
    · rw [mem_singleton.mp hs]
      exact ⟨h.ids, fun p st hst => h.described p st id hst⟩
  | _ => exact h

/-- **Every command** keeps the invariant. -/
theorem handleCommand (h : Sound D a) (env : Env) {cmd : HunkTrackerCommand}
    (hcmd : a.Allowed cmd) : Sound D (a.handleCommand D env cmd) := by
  cases cmd with
  | recordAgentWrite p content k prev => exact h.recordAgentWrite content k prev
  | handleFileChange p => exact h.processFileChange none
  | handleFileDeleted p => exact h.handleFileDeleted
  | refreshGitDirtyCache => exact h.refreshGitDirtyCache none
  | resetBaseline p => exact h.resetBaseline
  | setMode mode => exact h.setMode mode
  | hunkAction id action =>
    simp only [Actor.handleCommand, Actor.applyHunkAction]
    split
    · exact h
    · next p k hfind =>
      refine applyToFile env h (fun l hl => ?_) action
      rw [mem_singleton.mp hl]
      exact (Actor.mem_findHunk hfind).1
  | fileAction p action =>
    simp only [Actor.handleCommand, Actor.applyFileAction]
    split
    · exact h
    · next st hst =>
      split
      · exact h
      · refine applyActionBatch action _ h (by simp) (fun f hf k hk => ?_)
        rw [mem_singleton.mp hf] at hk ⊢
        rw [Actor.hunksAt, hst]
        exact hk
  | allAction action =>
    obtain ⟨h1, h2⟩ := Actor.filesWithHunks_spec env a fun _ => true
    exact applyActionBatch action _ h h1 fun f hf k hk => (h2 f hf).subset hk
  | turnAction k action =>
    obtain ⟨h1, h2⟩ := Actor.filesWithHunks_spec env a fun h => h.source.promptIndex == some k
    exact applyActionBatch action _ h h1 fun f hf k hk => (h2 f hf).subset hk
  | query q => exact h.handleQuery q
  | resetStats => exact Inv.congr h rfl rfl rfl
  | refreshAllBaselines => exact h.refreshAllBaselinesExcept []
  | restoreState s => exact h.restoreSnapshot hcmd

theorem handleCommands (env : Env) (cmds : List HunkTrackerCommand) : ∀ {a : Actor},
    Sound D a → Actor.AllowedSeq D env a cmds → Sound D (a.handleCommands D env cmds) := by
  induction cmds with
  | nil => exact fun h _ => h
  | cons cmd cmds ih => exact fun h hc => ih (h.handleCommand env hc.1) hc.2

theorem handleNotifications (h : Sound D a) (env : Env) (b : CoalescedBatch) :
    Sound D (a.handleNotifications D env b) := by
  have hdirty : Sound D (if b.refreshDirty = true ∧ b.refreshAll = false then
      a.refreshGitDirtyCache D env none else a) := by
    split
    · exact h.refreshGitDirtyCache none
    · exact h
  unfold Actor.handleNotifications
  dsimp only
  split
  · -- each notification first, then the refresh
    have hfold : ∀ (ps : List PathBuf) (s : Actor × List PathBuf), Sound D s.1 →
        Sound D (ps.foldl (Actor.handleBeforeRefresh D env b) s).1 := by
      intro ps
      induction ps with
      | nil => exact fun s hs => hs
      | cons p ps ih =>
        intro s hs
        refine ih _ ?_
        unfold Actor.handleBeforeRefresh
        split
        · split
          · exact hs
          · exact hs.handleFileDeleted
        · split
          · exact hs.processFileChange none
          · exact hs
    exact (hfold _ _ hdirty).refreshAllBaselinesExcept _
  · exact (foldl (fun c q hc => hc.handleFileDeleted) _ hdirty).handleFileChangesBatch _

theorem step {a' : Actor} (h : Sound D a) (hs : Actor.Step D a a') : Sound D a' := by
  cases hs with
  | command env _ cmd allowed => exact h.handleCommand env allowed
  | batch env _ queue allowed =>
    exact handleCommands env _ (h.handleNotifications env _) allowed

theorem new (workingDir : PathBuf) (mode : TrackingMode) :
    Sound D (Actor.new workingDir mode) where
  ids := by
    have hnil : ∀ p, hunksOf ((Actor.new workingDir mode).file p) = [] := fun p => rfl
    exact ⟨fun p => by simp [hnil], fun p q _ h hh => by simp [hnil] at hh,
      fun p h hh => by simp [hnil] at hh⟩
  described p st _ hst := by cases hst
  snapshots s hs := by cases hs

theorem handed (h : Sound D a) {s : HunkTrackerSnapshot} {n : Nat} (hs : SnapshotOk D n s) :
    Sound D (a.handed s n) where
  ids := h.ids.mono (le_max_left _ _)
  described := h.described
  snapshots t ht := by
    rcases mem_append.mp ht with ht | ht
    · exact (h.snapshots t ht).mono (le_max_left _ _)
    · rw [mem_singleton.mp ht]
      exact hs.mono (le_max_right _ _)

/-- **The invariant of every run.** -/
theorem of_reachableAcross (h : Actor.ReachableAcross D a) : Sound D a := by
  induction h with
  | new workingDir mode => exact new workingDir mode
  | step _ hs ih => exact ih.step hs
  | handed _ _ hs ih ihb => exact ih.handed (ihb.snapshots _ hs)

theorem of_reachable (h : Actor.Reachable D a) : Sound D a := by
  obtain ⟨workingDir, mode, hrun⟩ := h
  induction hrun with
  | refl => exact new workingDir mode
  | tail _ hstep ih => exact ih.step hstep

end Sound

end GrokBuild.HunkTracker
