import GrokBuild.HunkTracker.Invariant

/-!
# Hunk tracker: what holds in every run

The invariant of `Invariant.lean` in the words of the tracker's clients:
hunks can be told apart by their ids, and the hunks of a file can be
applied to its two texts, because they are the hunks of these texts.
-/

namespace GrokBuild.HunkTracker

open TextLines Str EditScript List

/-- A hunk names lines of both texts by their position, and the line behind
it is the same in both. -/
structure LinesAt (b c : Text) (h : Hunk) : Prop where
  oldText : h.oldText.getD []
    = (((tokenizeLines b).drop (h.lineInfo.oldStart - 1)).take h.lineInfo.oldCount).flatten
  newText : h.newText
    = (((tokenizeLines c).drop (h.lineInfo.newStart - 1)).take h.lineInfo.newCount).flatten
  oldRange : 1 ≤ h.lineInfo.oldStart
    ∧ h.lineInfo.oldStart - 1 + h.lineInfo.oldCount ≤ (tokenizeLines b).length
  newRange : 1 ≤ h.lineInfo.newStart
    ∧ h.lineInfo.newStart - 1 + h.lineInfo.newCount ≤ (tokenizeLines c).length
  next : (tokenizeLines b)[h.lineInfo.oldStart - 1 + h.lineInfo.oldCount]?
    = (tokenizeLines c)[h.lineInfo.newStart - 1 + h.lineInfo.newCount]?

/-- The contents of a file with hunks: two texts, a deleted text or a new
text. -/
def HunkTexts (st : FileHunkState) : Prop :=
  (∃ b c, st.baseline = .full b ∧ st.currentContent = .full c ∧ ∀ h ∈ st.hunks, LinesAt b c h)
  ∨ (∃ b h, st.baseline = .full b ∧ st.currentContent = .missing ∧ st.hunks = [h]
      ∧ h.oldText = some b ∧ h.newText = []
      ∧ h.lineInfo = ⟨1, max (lines b).length 1, 0, 0⟩)
  ∨ (∃ c h, st.baseline = .missing ∧ st.currentContent = .full c ∧ st.hunks = [h]
      ∧ h.oldText = none ∧ h.newText = c
      ∧ h.lineInfo = ⟨0, 0, 1, max (lines c).length 1⟩)

/-- In ascending order, at least one line apart in both texts. -/
def Separated (hs : List Hunk) : Prop :=
  hs.Pairwise fun h k =>
    h.lineInfo.oldStart + h.lineInfo.oldCount < k.lineInfo.oldStart
      ∧ h.lineInfo.newStart + h.lineInfo.newCount < k.lineInfo.newStart

/-- The hunks of a file are exactly those of its two contents: the table of
`recompute_hunks`, up to id, source, timestamp and patch. -/
structure DescribesTexts (D : LineDiff) (p : PathBuf) (st : FileHunkState) : Prop where
  table : ∀ (env : Env) (n : Nat) (source : HunkSource),
    (∀ b c, env.timedOut b c = false) →
    st.hunks.map Hunk.bare
      = (hunkTable D env n p source st.baseline st.currentContent).map Hunk.bare
  texts : HunkTexts st
  separated : Separated st.hunks

section Description

variable {D : LineDiff} {p : PathBuf} {st : FileHunkState} {b c : Text}

theorem linesAt_of_bare {h : Hunk} {g : Region Text} (hg : g ∈ diffRegions D b c)
    (hbare : h.bare = buildHunk p .external 0 ⟨0⟩ g) : LinesAt b c h := by
  obtain ⟨hcor1, hcor2⟩ := diffLines_correct D b c
  obtain ⟨hc1, hc2⟩ := regions_content _ 1 1 g hg
  obtain ⟨hr1, hr2, hnext⟩ := regions_next _ 1 1 g hg
  have hle := regions_start_le _ 1 1 g hg
  rw [hcor1] at hc1 hr1 hnext
  rw [hcor2] at hc2 hr2 hnext
  have hinfo : h.lineInfo = ⟨g.oldStart, g.removed.length, g.newStart, g.added.length⟩ :=
    congrArg Hunk.lineInfo hbare
  have hold : h.oldText = if g.removed.isEmpty then none else some g.removed.flatten :=
    congrArg Hunk.oldText hbare
  have hnew : h.newText = g.added.flatten := congrArg Hunk.newText hbare
  refine ⟨?_, ?_, ?_, ?_, ?_⟩ <;> simp only [hinfo]
  · rw [hc1, hold]
    split
    · next hnil => simp [List.isEmpty_iff.mp hnil]
    · rfl
  · rw [hc2, hnew]
  · omega
  · omega
  · exact hnext

theorem single_of_map_bare {hs : List Hunk} {k : Hunk} (h : hs.map Hunk.bare = [k]) :
    ∃ l, hs = [l] ∧ l.bare = k := by
  match hs, h with
  | [l], h => exact ⟨l, rfl, (List.cons.inj h).1⟩

theorem Described.describesTexts (h : Described D p st) (hne : st.hunks ≠ []) :
    DescribesTexts D p st := by
  have htable := h.resolve_left hne
  have ht := htable .quiet 0 .external (fun _ _ => rfl)
  have hne' : hunkTable D .quiet 0 p .external st.baseline st.currentContent ≠ [] := by
    intro h0
    rw [h0, map_nil, map_eq_nil_iff] at ht
    exact hne ht
  have htexts : HunkTexts st ∧ Separated st.hunks := by
    unfold HunkTexts
    cases hb : st.baseline with
    | full b =>
      cases hc : st.currentContent with
      | full c =>
        rw [hb, hc] at ht hne'
        simp only [hunkTable] at ht hne'
        have hdiff : ¬ (b = c ∨ ¬ (byteLen b ≤ maxDiffFileSize ∧ byteLen c ≤ maxDiffFileSize)
            ∨ Env.quiet.timedOut b c = true) := fun hd => hne' (computeHunks_of_not_diffed hd)
        simp only [not_or, not_not, Bool.not_eq_true] at hdiff
        rw [computeHunks_map_bare D 0 p .external hdiff.1 hdiff.2.1 hdiff.2.2] at ht
        refine ⟨.inl ⟨b, c, rfl, rfl, fun h hh => ?_⟩, ?_⟩
        · have hm : h.bare ∈ st.hunks.map Hunk.bare := List.mem_map_of_mem hh
          rw [ht] at hm
          obtain ⟨g, hg, hgb⟩ := List.mem_map.mp hm
          exact linesAt_of_bare hg hgb.symm
        · have hpair := regions_pairwise (diffLines D b c) 1 1
          have hbuilt : Separated ((diffRegions D b c).map (buildHunk p .external 0 ⟨0⟩)) :=
            pairwise_map.mpr hpair
          rw [← ht, Separated, pairwise_map] at hbuilt
          exact hbuilt
      | missing =>
        rw [hb, hc] at ht hne'
        simp only [hunkTable] at ht hne'
        split at ht
        · next h0 => simp [h0] at hne'
        · obtain ⟨l, hl, hlb⟩ := single_of_map_bare ht
          refine ⟨.inr (.inl ⟨b, l, rfl, rfl, hl, congrArg Hunk.oldText hlb,
            congrArg Hunk.newText hlb, congrArg Hunk.lineInfo hlb⟩), ?_⟩
          rw [hl]
          exact pairwise_singleton _ _
      | _ => rw [hb, hc] at hne'; exact absurd rfl hne'
    | missing =>
      cases hc : st.currentContent with
      | full c =>
        rw [hb, hc] at ht hne'
        simp only [hunkTable] at ht hne'
        split at ht
        · next h0 => simp [h0] at hne'
        · obtain ⟨l, hl, hlb⟩ := single_of_map_bare ht
          refine ⟨.inr (.inr ⟨c, l, rfl, rfl, hl, congrArg Hunk.oldText hlb,
            congrArg Hunk.newText hlb, congrArg Hunk.lineInfo hlb⟩), ?_⟩
          rw [hl]
          exact pairwise_singleton _ _
      | _ => rw [hb, hc] at hne'; exact absurd rfl hne'
    | _ => rw [hb] at hne'; exact absurd rfl hne'
  exact ⟨htable, htexts.1, htexts.2⟩

end Description

/-! ## In every reachable state -/

/-- **Stored hunks describe the stored texts.** A tracked file that has a
hunk has exactly the hunks of its baseline and current content. -/
theorem reachable_describesTexts (D : LineDiff) (a : Actor) (p : PathBuf)
    (st : FileHunkState) (h : Actor.ReachableAcross D a) (hst : a.file p = some st)
    (hne : st.hunks ≠ []) : DescribesTexts D p st :=
  ((Sound.of_reachableAcross h).described p st id hst).describesTexts hne

/-- **Ids are never shared.** No two live hunks have the same id, in one
file or in two; and whatever hunks of a file a recomputation starts from,
it gives each old id to one new hunk at most. -/
theorem reachable_ids_distinct (D : LineDiff) (a : Actor) (h : Actor.Reachable D a) :
    (∀ p, ((a.hunksAt p).map (·.id)).Nodup)
      ∧ (∀ p q, p ≠ q → ∀ h ∈ a.hunksAt p, ∀ k ∈ a.hunksAt q, h.id ≠ k.id)
      ∧ ∀ (env : Env) (p : PathBuf) (source : HunkSource) (b c : FileContentState) (n : Nat)
        (oldHunks : List Hunk), (∀ o ∈ oldHunks, o.id.val < n) →
        ((preserveIds oldHunks [] (hunkTable D env n p source b c)).map (·.id)).Nodup := by
  have hs := Sound.of_reachable h
  exact ⟨hs.ids.nodup, hs.ids.disjoint, fun env p source b c n oldHunks hold =>
    (table_preserveIds D env p source b c hold).1⟩

theorem reachable_write (content : Text) (previous : Option Text) :
    Actor.Reachable .lcs ((Actor.new [] .agentOnly).handleCommand .lcs .quiet
      (.recordAgentWrite ["f"] content 0 previous)) :=
  ⟨[], .agentOnly, .single (.command _ _ _ trivial)⟩

/-- One changed line, in a file the agent has written once. -/
def oneLineChanged : FileHunkState where
  baseline := .full "a\nb\nc\n".toList
  currentContent := .full "a\nX\nc\n".toList
  hunks := [⟨⟨0⟩, ["f"], ⟨2, 1, 2, 1⟩, .agentEdit 0, some "b\n".toList, "X\n".toList, none, 0, false⟩]
  isAgentFile := true
  baselineAccepted := false

/-- The tracker after that write. -/
def beforeReload : Actor :=
  (Actor.new [] .agentOnly).handleCommand .lcs .quiet
    (.recordAgentWrite ["f"] "a\nX\nc\n".toList 0 (some "a\nb\nc\n".toList))

/-- A new tracker that restores the snapshot of that one. -/
def afterReload : Actor :=
  ((Actor.new [] .agentOnly).handed beforeReload.takeSnapshot beforeReload.nextId).handleCommand .lcs
    .quiet (.restoreState beforeReload.takeSnapshot)

theorem reachable_describesTexts_reload : afterReload.file ["f"] = some oneLineChanged ∧
    DescribesTexts .lcs ["f"] oneLineChanged := by
  have hst : afterReload.file ["f"] = some oneLineChanged := by decide
  have hbefore : Actor.ReachableAcross .lcs (beforeReload.handleQuery .snapshotState) :=
    .step (.step (.new _ _) (.command _ _ (.recordAgentWrite _ _ _ _) trivial))
      (.command .quiet _ (.query .snapshotState) trivial)
  have hreload : Actor.ReachableAcross .lcs afterReload :=
    .step (.handed (.new _ _) hbefore (by simp [Actor.handleQuery]))
      (.command _ _ _ (by simp [Actor.Allowed, Actor.handed]))
  exact ⟨hst, reachable_describesTexts _ _ _ _ hreload hst (by decide)⟩

/-- Two lines changed, far enough apart for two hunks. -/
def twoLinesChanged : Actor :=
  (Actor.new [] .agentOnly).handleCommand .lcs .quiet
    (.recordAgentWrite ["f"] "X\nb\nZ\n".toList 0 (some "a\nb\nc\n".toList))

theorem reachable_ids_distinct_write :
    (twoLinesChanged.hunksAt ["f"]).length = 2 ∧
      ((twoLinesChanged.hunksAt ["f"]).map (·.id)).Nodup :=
  ⟨by decide, (reachable_ids_distinct .lcs twoLinesChanged (reachable_write _ _)).1 ["f"]⟩

end GrokBuild.HunkTracker
