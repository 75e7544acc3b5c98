import GrokBuild.HunkTracker.Reachable

/-!
# Hunk tracker: what is believed of the disk

`process_file_change` stores what it has read, or HEAD where that is the same.
A file it sees for the first time is the exception: where HEAD has a text and
the disk something that cannot be diffed, the file is taken for deleted.
-/

namespace GrokBuild.HunkTracker

open TextLines Str EditScript

/-- A hunk of `Hunk::file_deleted`. -/
def Hunk.IsFileDeleted (h : Hunk) : Prop :=
  ∃ content, h.bare = (Hunk.fileDeleted ⟨0⟩ 0 h.path content .external).bare

variable {h : Hunk}

theorem Hunk.IsFileDeleted.newStart (hdeleted : h.IsFileDeleted) : h.lineInfo.newStart = 0 := by
  obtain ⟨content, hbare⟩ := hdeleted
  have hinfo : h.bare.lineInfo = _ := congrArg Hunk.lineInfo hbare
  exact congrArg HunkLineInfo.newStart hinfo

theorem newStart_of_mem_hunkTable {D : LineDiff} {env : Env} {n : Nat} {p : PathBuf}
    {source : HunkSource} {b c : FileContentState} (hh : h ∈ hunkTable D env n p source b c)
    (hc : c ≠ .missing) : 0 < h.lineInfo.newStart := by
  unfold hunkTable at hh
  split at hh
  · unfold computeHunks at hh
    split at hh
    · cases hh
    · split at hh
      · cases hh
      · split at hh
        · cases hh
        · obtain ⟨⟨r, k⟩, hr, rfl⟩ := List.mem_map.mp hh
          have hmem : r ∈ diffRegions D _ _ := List.fst_mem_of_mem_zipIdx hr
          exact (regions_start_le _ 1 1 r hmem).2
  · exact absurd rfl hc
  · split at hh
    · cases hh
    · obtain rfl := List.mem_singleton.mp hh
      exact Nat.one_pos
  · cases hh

theorem eq_missing_of_isFileDeleted {D : LineDiff} {env : Env} {n : Nat} {p : PathBuf}
    {source : HunkSource} {b c : FileContentState} {oldHunks : List Hunk}
    (hh : h ∈ preserveIds oldHunks [] (hunkTable D env n p source b c)) (hdeleted : h.IsFileDeleted) :
    c = .missing := by
  by_contra hc
  have hmem : h.bare ∈ (preserveIds oldHunks [] (hunkTable D env n p source b c)).map Hunk.bare :=
    List.mem_map_of_mem hh
  rw [preserveIds_map_bare] at hmem
  obtain ⟨k, hk, hbare⟩ := List.mem_map.mp hmem
  have hinfo : k.bare.lineInfo = h.bare.lineInfo := congrArg Hunk.lineInfo hbare
  have hstart : k.lineInfo.newStart = h.lineInfo.newStart := congrArg HunkLineInfo.newStart hinfo
  have hpos := newStart_of_mem_hunkTable hk hc
  rw [hstart, hdeleted.newStart] at hpos
  exact Nat.lt_irrefl 0 hpos

namespace Actor

/-- The content on disk was found to be that of HEAD. -/
def JudgedClean (env : Env) (a : Actor) (path : PathBuf) (preloaded : Option FileContentState) : Prop :=
  ∃ st, a.file path = some st ∧ st.baselineAccepted = true ∧
    (a.takeBaseline env path preloaded).2.contentMatchesHead path (readFileBounded (env.disk path))
      (a.takeBaseline env path preloaded).1 = true

/-- What is stored of a file behind a change is what the disk has. -/
structure Believes (env : Env) (a : Actor) (path : PathBuf) (preloaded : Option FileContentState)
    (st : FileHunkState) : Prop where
  content : st.currentContent = readFileBounded (env.disk path) ∨
    a.JudgedClean env path preloaded ∧ st.currentContent = (a.takeBaseline env path preloaded).1
  deleted : ∀ h ∈ st.hunks, h.IsFileDeleted → readFileBounded (env.disk path) = .missing

/-- Of a file that is seen for the first time and cannot be diffed, HEAD has no text. -/
def Sighted (env : Env) (a : Actor) (path : PathBuf) (preloaded : Option FileContentState) : Prop :=
  a.file path = none → a.mode = .allDirty →
    (readFileBounded (env.disk path)).isDiffable = false →
    readFileBounded (env.disk path) ≠ .missing →
    (a.takeBaseline env path preloaded).1.isDiffable = false

section Believes

variable {D : LineDiff} {env : Env} {a : Actor} {path : PathBuf}
  {preloaded : Option FileContentState} {st : FileHunkState}

theorem believes_recomputeHunks {b : Actor} {source : HunkSource} (hst : b.file path = some st)
    {st' : FileHunkState}
    (hst' : (b.recomputeHunks D env path (some (readFileBounded (env.disk path))) source).file path
      = some st') : Believes env a path preloaded st' := by
  rw [file_recomputeHunks_self D env hst] at hst'
  cases hst'
  exact ⟨.inl rfl, fun h hh hdeleted => eq_missing_of_isFileDeleted hh hdeleted⟩

theorem believes_tracked (hst : a.file path = some st) {st' : FileHunkState}
    (hst' : (a.processFileChange D env path preloaded).file path = some st') :
    Believes env a path preloaded st' := by
  unfold processFileChange at hst'
  rw [hst] at hst'
  dsimp only at hst'
  by_cases haccepted : st.baselineAccepted = true
  · rw [if_pos haccepted] at hst'
    split at hst'
    next hclean =>
      rw [restoreToHead, file_setFile_self] at hst'
      cases hst'
      exact ⟨.inr ⟨⟨st, hst, haccepted, hclean⟩, rfl⟩, fun h hh => by cases hh⟩
    · exact believes_recomputeHunks (by rw [file_takeBaseline, hst]) hst'
  · rw [if_neg haccepted] at hst'
    exact believes_recomputeHunks hst hst'

theorem file_trackFile (b : Actor) (path : PathBuf) (st : FileHunkState) :
    (b.trackFile path st).file path = some st := by
  rw [trackFile, file_sendEvents, file_setFile_self]

/-- **The tracker never believes a file is deleted while it exists**, exactly
where it does not see a text of HEAD become something else at first sight. -/
theorem processFileChange_believes_iff (D : LineDiff) (env : Env) (a : Actor) (path : PathBuf)
    (preloaded : Option FileContentState) :
    (∀ st, (a.processFileChange D env path preloaded).file path = some st →
      Believes env a path preloaded st) ↔ Sighted env a path preloaded := by
  cases hst : a.file path with
  | some st =>
    refine iff_of_true (fun st' hst' => believes_tracked hst hst') fun hnone => ?_
    rw [hst] at hnone
    cases hnone
  | none =>
    have hfresh : (a.takeBaseline env path preloaded).2.file path = none := by
      rw [file_takeBaseline, hst]
    unfold processFileChange Sighted
    rw [hst]
    dsimp only
    cases hmode : a.mode with
    | agentOnly =>
      refine iff_of_true (fun st' hst' => ?_) fun _ hall => by cases hall
      rw [if_pos rfl, hst] at hst'
      cases hst'
    | allDirty =>
      rw [if_neg (by decide)]
      unfold discoverFile
      dsimp only
      by_cases hignored : (a.takeBaseline env path preloaded).2.isIgnored env path
          (a.takeBaseline env path preloaded).1 = true
      · rw [if_pos hignored]
        refine iff_of_true (fun st' hst' => ?_) fun _ _ _ _ => ?_
        · rw [hfresh] at hst'
          cases hst'
        · unfold isIgnored at hignored
          simp only [Bool.and_eq_true, beq_iff_eq] at hignored
          rw [hignored.1.1.2]
          rfl
      rw [if_neg hignored]
      cases hdisk : (readFileBounded (env.disk path)).isDiffable with
      | true =>
        rw [if_neg (by decide)]
        refine iff_of_true (fun st' hst' => ?_) fun _ _ hnot => by cases hnot
        exact believes_recomputeHunks (file_trackFile _ _ _) hst'
      | false =>
        rw [if_pos rfl]
        cases hhead : (a.takeBaseline env path preloaded).1.isDiffable with
        | false =>
          refine iff_of_true (fun st' hst' => ?_) fun _ _ _ _ => rfl
          rw [if_neg (by decide), file_trackFile] at hst'
          cases hst'
          exact ⟨.inl rfl, fun h hh => by cases hh⟩
        | true =>
          rw [if_pos rfl]
          constructor
          · intro hbelieves _ _ _ hpresent
            have hfile := file_recomputeHunks_self D env (file_trackFile
              (a.takeBaseline env path preloaded).2 path (externalFile
                (a.takeBaseline env path preloaded).1 (readFileBounded (env.disk path))))
              none .external
            obtain hread | ⟨⟨st, hsome, -⟩, -⟩ := (hbelieves _ hfile).content
            · exact absurd hread.symm hpresent
            · rw [hst] at hsome
              cases hsome
          · intro hsighted st' hst'
            have hmissing : readFileBounded (env.disk path) = .missing := by
              by_contra hpresent
              cases hsighted rfl rfl rfl hpresent
            rw [file_recomputeHunks_self D env (file_trackFile _ _ _)] at hst'
            cases hst'
            exact ⟨.inl hmissing.symm, fun _ _ _ => hmissing⟩

end Believes

/-- A file whose text in HEAD was replaced by a NUL. -/
def nulOnDisk : Env := { Env.quiet with disk := fun _ => .file [0] }

/-- It is there, and taken for deleted. -/
theorem not_believes_nulOnDisk :
    ¬ ∀ st, ((Actor.new [] .allDirty).processFileChange .lcs nulOnDisk ["f"]
        (some (.full ['a']))).file ["f"] = some st →
      Believes nulOnDisk (Actor.new [] .allDirty) ["f"] (some (.full ['a'])) st := by
  intro h
  have hfile : ((Actor.new [] .allDirty).processFileChange .lcs nulOnDisk ["f"]
      (some (.full ['a']))).file ["f"] = some ⟨.full ['a'], .missing,
        [.fileDeleted ⟨0⟩ 0 ["f"] ['a'] .external], false, false⟩ := by decide
  have hmissing : readFileBounded (nulOnDisk.disk ["f"]) = .missing :=
    (h _ hfile).deleted _ List.mem_cons_self ⟨['a'], rfl⟩
  exact absurd hmissing (by decide)

end Actor

end GrokBuild.HunkTracker
