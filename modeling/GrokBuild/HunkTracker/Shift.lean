import GrokBuild.HunkTracker.Reachable

/-!
# Hunk tracker: shifts

After an external change elsewhere in a file the old hunks are still there, in
order, and start further on. A new hunk takes the id of the nearest old hunk of
its content (`findMatchingOldHunk_eq_iff`), the first that asks for it. So all
of them keep their ids, and the agent its hunks, exactly when each is nearest
to where it stands now and no hunk in front of it asks for the same one.
-/

namespace GrokBuild.HunkTracker

open TextLines Str EditScript List

/-- The same change of the baseline, wherever it starts in the current text. -/
structure Alike (o h : Hunk) : Prop where
  oldStart : h.lineInfo.oldStart = o.lineInfo.oldStart
  oldCount : h.lineInfo.oldCount = o.lineInfo.oldCount
  oldText : h.oldText = o.oldText
  newText : h.newText = o.newText

/-- The old hunks stand in their order among the new ones, the `i`-th at `place i`. -/
structure Shifted (os ns : List Hunk) (place : Nat → Nat) : Prop where
  increasing : ∀ i j, i < j → j < os.length → place i < place j
  alike : ∀ i o, os[i]? = some o → ∃ h, ns[place i]? = some h ∧ Alike o h

/-- What a hunk hands on. -/
def HandedOn (o h : Hunk) : Prop :=
  h.id = o.id ∧ (o.source.isAgentEdit = true → h.source = o.source)

/-- Every old hunk hands on to the one at its place. -/
def KeepsHunks (os hunks : List Hunk) (place : Nat → Nat) : Prop :=
  ∀ i o, os[i]? = some o → ∃ h, hunks[place i]? = some h ∧ HandedOn o h

/-- Of the old hunks with the content of `h`, `o` starts nearest to it, the first of those. -/
def Nearest (os : List Hunk) (o h : Hunk) : Prop :=
  ∃ before after, os.filter (hunksMatchContent · h) = before ++ o :: after ∧
    (∀ k ∈ before, absDiff o.lineInfo.newStart h.lineInfo.newStart <
      absDiff k.lineInfo.newStart h.lineInfo.newStart) ∧
    ∀ k ∈ after, absDiff o.lineInfo.newStart h.lineInfo.newStart ≤
      absDiff k.lineInfo.newStart h.lineInfo.newStart

/-- Every old hunk is nearest to its place, and to no hunk in front of its place. -/
def StaysNearest (os ns : List Hunk) (place : Nat → Nat) : Prop :=
  ∀ i o h, os[i]? = some o → ns[place i]? = some h →
    Nearest os o h ∧ ∀ x ∈ ns.take (place i), ¬ Nearest os o x

/-! ## The nearest match -/

variable {α : Type}

theorem minByKey_le (key : α → Nat) {xs : List α} {y : α} (h : minByKey key xs = some y) :
    ∀ x ∈ xs, key y ≤ key x := by
  induction xs generalizing y with
  | nil => cases h
  | cons a as ih =>
    intro x hx
    rw [minByKey] at h
    split at h
    · next hnone =>
      cases h
      rw [(minByKey_eq_none key).mp hnone] at hx
      rw [mem_singleton.mp hx]
    · next z hz =>
      have hrest := ih hz
      obtain rfl | hx := mem_cons.mp hx
      · split at h
        · cases h
          exact Nat.le_refl _
        · next hlt =>
          cases h
          omega
      · have hzx := hrest x hx
        split at h
        · next hle =>
          cases h
          exact Nat.le_trans hle hzx
        · cases h
          exact hzx

theorem minByKey_eq_some (key : α → Nat) {xs : List α} {y : α} : minByKey key xs = some y ↔
    ∃ before after, xs = before ++ y :: after ∧ (∀ x ∈ before, key y < key x) ∧
      ∀ x ∈ after, key y ≤ key x := by
  constructor
  · intro h
    induction xs with
    | nil => cases h
    | cons a as ih =>
      have hle := minByKey_le key h
      rw [minByKey] at h
      split at h
      · cases h
        exact ⟨[], as, rfl, forall_mem_nil _, fun x hx => hle x (mem_cons_of_mem _ hx)⟩
      · next z hz =>
        split at h
        · cases h
          exact ⟨[], as, rfl, forall_mem_nil _, fun x hx => hle x (mem_cons_of_mem _ hx)⟩
        · next hlt =>
          cases h
          obtain ⟨before, after, rfl, hbefore, hafter⟩ := ih hz
          exact ⟨a :: before, after, rfl, forall_mem_cons.mpr ⟨Nat.lt_of_not_le hlt, hbefore⟩, hafter⟩
  · rintro ⟨before, after, rfl, hbefore, hafter⟩
    induction before with
    | nil =>
      rw [nil_append, minByKey]
      split
      · rfl
      · next z hz => rw [if_pos (hafter z (minByKey_mem key hz))]
    | cons b before ih =>
      obtain ⟨hb, hbefore⟩ := forall_mem_cons.mp hbefore
      rw [cons_append, minByKey, ih hbefore]
      exact if_neg (Nat.not_le_of_lt hb)

variable {os ns : List Hunk} {o h x : Hunk} {p : PathBuf}

/-- A match that does not overlap is the nearest of its content. -/
theorem findMatchingOldHunk_eq_iff (happart : hunksMatchContent o h = true ∨ hunksOverlap o h = false) :
    findMatchingOldHunk h os = some o ↔ Nearest os o h := by
  rw [findMatchingOldHunk]
  split
  · exact minByKey_eq_some _
  · next hnone =>
    rw [ne_eq, not_not] at hnone
    constructor
    · intro hmax
      obtain ⟨ho, hoverlap⟩ := mem_filter.mp (maxByKey_mem _ hmax)
      obtain hmatch | happart := happart
      · exact absurd (mem_filter.mpr ⟨ho, hmatch⟩) (hnone ▸ not_mem_nil)
      · rw [happart] at hoverlap
        cases hoverlap
    · rintro ⟨before, after, hfilter, -, -⟩
      rw [hnone] at hfilter
      simp at hfilter

theorem Alike.match (halike : Alike o h) (hpath : o.path = h.path) : hunksMatchContent o h = true := by
  simp [hunksMatchContent, hpath, halike.oldText, halike.newText]

/-- A hunk that ends in front of `h` does not overlap what is like `h`. -/
theorem Alike.not_overlap (halike : Alike o h)
    (hbefore : x.lineInfo.oldStart + x.lineInfo.oldCount < h.lineInfo.oldStart) :
    hunksOverlap o x = false := by
  have hstart := halike.oldStart
  have hend : saturatingAdd x.lineInfo.oldStart x.lineInfo.oldCount < o.lineInfo.oldStart := by
    have hle : saturatingAdd x.lineInfo.oldStart x.lineInfo.oldCount ≤
        x.lineInfo.oldStart + x.lineInfo.oldCount := min_le_left _ _
    omega
  unfold hunksOverlap
  split
  · rfl
  · dsimp only
    split
    · exact beq_false_of_ne (by omega)
    · split
      · exact decide_eq_false (by omega)
      · split
        · exact decide_eq_false (by omega)
        · rw [decide_eq_true (Or.inr hend)]
          rfl

/-! ## Handing on -/

/-- A new hunk gets the id of an old one when that is its match and neither claimed before nor the
match of a hunk in front; an external edit then leaves it to the agent. -/
theorem preserveIds_handsOn (ho : o ∈ os) (hids : (os.map (·.id)).Nodup)
    (hfresh : ∀ k ∈ ns, ∀ o ∈ os, k.id ≠ o.id) (claimed : List HunkId) {n : Nat}
    (hn : ns[n]? = some h) : ∃ h', (preserveIds os claimed ns)[n]? = some h' ∧
      (h'.id = o.id ↔ findMatchingOldHunk h os = some o ∧ o.id ∉ claimed ∧
        ∀ x ∈ ns.take n, findMatchingOldHunk x os ≠ some o) ∧
      (h'.id = o.id → h.source.isExternal = true → o.source.isAgentEdit = true →
        h'.source = o.source) := by
  have heq : ∀ k ∈ os, k.id = o.id → k = o := fun k hk hid => inj_on_of_nodup_map hids hk ho hid
  induction ns generalizing claimed n with
  | nil => cases hn
  | cons y ys ih =>
    obtain ⟨hy, hys⟩ := forall_mem_cons.mp hfresh
    rw [preserveIds]
    cases n with
    | zero =>
      obtain rfl : y = h := Option.some.inj hn
      cases hfind : findMatchingOldHunk y os with
      | none => exact ⟨y, rfl, by simp [hy o ho], fun hid => absurd hid (hy o ho)⟩
      | some k =>
        have hk := (findMatchingOldHunk_spec hfind).1
        dsimp only
        split
        · next hclaimed =>
          refine ⟨y, rfl, ⟨fun hid => absurd hid (hy o ho), ?_⟩, fun hid => absurd hid (hy o ho)⟩
          rintro ⟨hko, hnot, -⟩
          exact absurd (Option.some.inj hko ▸ hclaimed) hnot
        · next hclaimed =>
          refine ⟨_, rfl, ⟨fun hid => ?_, ?_⟩, fun hid hexternal hagent => ?_⟩
          · obtain rfl := heq k hk hid
            exact ⟨rfl, hclaimed, by simp⟩
          · rintro ⟨hko, -, -⟩
            obtain rfl := Option.some.inj hko
            rfl
          · obtain rfl := heq k hk hid
            simp [hexternal, hagent]
    | succ n =>
      rw [getElem?_cons_succ] at hn
      rw [take_succ_cons]
      cases hfind : findMatchingOldHunk y os with
      | none =>
        obtain ⟨h', hh', hiff, hsource⟩ := ih hys claimed hn
        exact ⟨h', hh', by simpa [hfind] using hiff, hsource⟩
      | some k =>
        have hk := (findMatchingOldHunk_spec hfind).1
        dsimp only
        split
        · next hclaimed =>
          obtain ⟨h', hh', hiff, hsource⟩ := ih hys claimed hn
          have hother : o.id ∉ claimed → k ≠ o := fun hnot hko => hnot (hko ▸ hclaimed)
          refine ⟨h', hh', ?_, hsource⟩
          rw [hiff, forall_mem_cons, hfind, ne_eq, Option.some.injEq]
          tauto
        · obtain ⟨h', hh', hiff, hsource⟩ := ih hys (k.id :: claimed) hn
          have hother : o.id = k.id ↔ k = o := ⟨fun hid => heq k hk hid.symm, fun hko => hko ▸ rfl⟩
          refine ⟨h', hh', ?_, hsource⟩
          rw [hiff, forall_mem_cons, hfind, ne_eq, Option.some.injEq, mem_cons, hother]
          tauto

/-! ## A shift -/

theorem Described.path {D : LineDiff} {st : FileHunkState} (h : Described D p st) :
    ∀ o ∈ st.hunks, o.path = p := by
  intro o ho
  have hne : st.hunks ≠ [] := List.ne_nil_of_mem ho
  have hold := h.resolve_left hne .quiet 0 .external fun _ _ => rfl
  have hmem : o.bare ∈ st.hunks.map Hunk.bare := List.mem_map_of_mem ho
  rw [hold] at hmem
  obtain ⟨h', hh', hbare⟩ := List.mem_map.mp hmem
  exact (congrArg Hunk.path hbare).symm.trans (of_mem_hunkTable hh').1

/-- The hunks that are handed on to are apart. -/
theorem separated_hunkTable (D : LineDiff) (env : Env) (n : Nat) (source : HunkSource)
    (b c : FileContentState) : Separated (hunkTable D env n p source b c) := by
  by_cases hnil : hunkTable D env n p source b c = []
  · rw [hnil]
    exact .nil
  let st : FileHunkState := ⟨b, c, preserveIds [] [] (hunkTable D env n p source b c), false, false⟩
  have hbare : st.hunks.map Hunk.bare = (hunkTable D env n p source b c).map Hunk.bare :=
    preserveIds_map_bare _ _ _
  have hdescribed : Described D p st := described_preserveIds D env n p source [] st rfl
  have hseparated := (hdescribed.describesTexts fun hnone => hnil ?_).separated
  · have hmap : ∀ hs : List Hunk, Separated hs ↔ Separated (hs.map Hunk.bare) := fun hs => by
      rw [Separated, Separated, pairwise_map]
      rfl
    rwa [hmap, hbare, ← hmap] at hseparated
  · rw [hnone] at hbare
    exact map_eq_nil_iff.mp hbare.symm

/-- What stands in front of a place ends in front of it. -/
theorem Separated.front (h : Separated ns) {n : Nat} {y : Hunk} (hy : ns[n]? = some y)
    (hx : x ∈ ns.take n) : x.lineInfo.oldStart + x.lineInfo.oldCount < y.lineInfo.oldStart := by
  have hsplit := take_append_drop n ns
  rw [Separated, ← hsplit, pairwise_append] at h
  exact (h.2.2 x hx y (mem_of_getElem? (i := 0) (by rw [getElem?_drop]; exact hy))).1

/-- After an external change that shifts the hunks, all of them keep their ids, and the agent its
hunks, exactly when each stays nearest to its place. -/
theorem shift_keeps_hunks_iff (D : LineDiff) (a : Actor) (ha : Actor.Reachable D a) (p : PathBuf)
    (st : FileHunkState) (hst : a.file p = some st) (env : Env)
    (current : Option FileContentState) (source : HunkSource) (hsource : source.isExternal = true)
    (place : Nat → Nat) (hshift : Shifted st.hunks
      (hunkTable D env a.nextId p source st.baseline (current.getD .missing)) place) :
    (∃ st', (a.recomputeHunks D env p current source).file p = some st' ∧
      KeepsHunks st.hunks st'.hunks place) ↔
    StaysNearest st.hunks
      (hunkTable D env a.nextId p source st.baseline (current.getD .missing)) place := by
  have hsound := Sound.of_reachable ha
  have hdescribed := hsound.described p st id hst
  have hids : (st.hunks.map (·.id)).Nodup := by
    have hnodup := hsound.ids.nodup p
    rwa [hst] at hnodup
  have hfresh := fresh_hunkTable D env p source st.baseline (current.getD .missing)
    (fun o ho => hsound.ids.fresh p o (by rw [hst]; exact ho))
  have hseparated := separated_hunkTable (p := p) D env a.nextId source st.baseline
    (current.getD .missing)
  have hpath : ∀ k ∈ hunkTable D env a.nextId p source st.baseline (current.getD .missing),
      k.path = p ∧ k.source = source := fun k hk => of_mem_hunkTable hk
  rw [Actor.file_recomputeHunks_self D env hst]
  generalize hunkTable D env a.nextId p source st.baseline (current.getD .missing) = ns at *
  have hone : ∀ i o h, st.hunks[i]? = some o → ns[place i]? = some h →
      ((∃ h', (preserveIds st.hunks [] ns)[place i]? = some h' ∧ HandedOn o h') ↔
        Nearest st.hunks o h ∧ ∀ x ∈ ns.take (place i), ¬ Nearest st.hunks o x) := by
    intro i o h hi hplace
    have ho := mem_of_getElem? hi
    obtain ⟨h', hh', hiff, hkept⟩ := preserveIds_handsOn ho hids hfresh [] hplace
    obtain ⟨k, hk, halike⟩ := hshift.alike i o hi
    obtain rfl := Option.some.inj (hplace.symm.trans hk)
    obtain ⟨hpathh, hsourceh⟩ := hpath h (mem_of_getElem? hplace)
    have hmatch := halike.match ((hdescribed.path o ho).trans hpathh.symm)
    have hfront : ∀ x ∈ ns.take (place i), findMatchingOldHunk x st.hunks ≠ some o ↔
        ¬ Nearest st.hunks o x := fun x hx =>
      not_congr (findMatchingOldHunk_eq_iff (.inr (halike.not_overlap (hseparated.front hplace hx))))
    rw [findMatchingOldHunk_eq_iff (.inl hmatch), forall₂_congr hfront] at hiff
    simp only [hh', Option.some.injEq, exists_eq_left', HandedOn, hiff, not_mem_nil, not_false_eq_true,
      true_and, and_iff_left_iff_imp]
    intro hnear
    exact hkept (hiff.mpr ⟨hnear.1, not_mem_nil, hnear.2⟩) (hsourceh ▸ hsource)
  constructor
  · rintro ⟨st', hst', hkeeps⟩
    obtain rfl := Option.some.inj hst'
    exact fun i o h hi hplace => (hone i o h hi hplace).mp (hkeeps i o hi)
  · intro hstays
    refine ⟨_, rfl, fun i o hi => ?_⟩
    obtain ⟨h, hplace, -⟩ := hshift.alike i o hi
    exact (hone i o h hi hplace).mpr (hstays i o h hi hplace)

/-! ## Two equal changes -/

/-- The agent has changed two lines in the same way. -/
def equalLines : Actor :=
  (Actor.new [] .agentOnly).handleCommand .lcs .quiet
    (.recordAgentWrite ["f"] "p\nX\nq\nX\n".toList 0 (some "p\na\nq\na\n".toList))

/-- One of the two hunks. -/
def equalHunk (id oldStart newStart : Nat) (source : HunkSource) : Hunk :=
  ⟨⟨id⟩, ["f"], ⟨oldStart, 1, newStart, 1⟩, source, some "a\n".toList, "X\n".toList, none, 0, false⟩

def equalHunks : List Hunk := [equalHunk 0 2 2 (.agentEdit 0), equalHunk 1 4 4 (.agentEdit 0)]

def equalState : FileHunkState :=
  ⟨.full "p\na\nq\na\n".toList, .full "p\nX\nq\nX\n".toList, equalHunks, true, false⟩

/-- The hunks behind `count` lines that are put on top of the file. -/
def toppedHunks (count : Nat) (top : Text) : List Hunk :=
  [⟨⟨2⟩, ["f"], ⟨1, 0, 1, count⟩, .external, none, top, none, 0, false⟩,
    equalHunk 3 2 (2 + count) .external, equalHunk 4 4 (4 + count) .external]

theorem shifted_toppedHunks (count : Nat) (top : Text) :
    Shifted equalHunks (toppedHunks count top) (· + 1) where
  increasing i j hij _ := Nat.succ_lt_succ hij
  alike i o hi := by
    rcases i with _ | _ | i
    · cases hi
      exact ⟨_, rfl, rfl, rfl, rfl, rfl⟩
    · cases hi
      exact ⟨_, rfl, rfl, rfl, rfl, rfl⟩
    · cases hi

/-- One line on top: both hunks keep their ids. -/
theorem shift_keeps_hunks_iff_oneLine :
    ∃ st', (equalLines.recomputeHunks .lcs .quiet ["f"]
        (some (.full "n\np\nX\nq\nX\n".toList)) .external).file ["f"] = some st' ∧
      KeepsHunks equalHunks st'.hunks (· + 1) := by
  have htable : hunkTable .lcs .quiet equalLines.nextId ["f"] .external
      (.full "p\na\nq\na\n".toList) (.full "n\np\nX\nq\nX\n".toList) =
        toppedHunks 1 "n\n".toList := by decide
  refine (shift_keeps_hunks_iff .lcs equalLines (reachable_write _ _) ["f"] equalState (by decide)
    .quiet _ .external rfl (· + 1) ?_).mpr ?_
  · exact htable ▸ shifted_toppedHunks 1 "n\n".toList
  · show StaysNearest equalHunks (hunkTable _ _ _ _ _ (.full _) (.full _)) _
    rw [htable]
    intro i o h hi hplace
    rcases i with _ | _ | i
    · cases hi
      cases hplace
      rw [← findMatchingOldHunk_eq_iff (.inl (by decide))]
      refine ⟨by decide, fun x hx => ?_⟩
      obtain rfl := mem_singleton.mp hx
      rw [← findMatchingOldHunk_eq_iff (.inr (by decide))]
      decide
    · cases hi
      cases hplace
      rw [← findMatchingOldHunk_eq_iff (.inl (by decide))]
      refine ⟨by decide, fun x hx => ?_⟩
      obtain rfl | hx := mem_cons.mp hx
      · rw [← findMatchingOldHunk_eq_iff (.inr (by decide))]
        decide
      · obtain rfl := mem_singleton.mp hx
        rw [← findMatchingOldHunk_eq_iff (.inl (by decide))]
        decide
    · cases hi

/-- Two lines on top: the first hunk takes the id of the second, and the second is new and no
longer the agent's. -/
theorem shift_loses_hunk :
    Actor.Reachable .lcs equalLines ∧ equalLines.file ["f"] = some equalState ∧
      Shifted equalState.hunks (hunkTable .lcs .quiet equalLines.nextId ["f"] .external
        equalState.baseline (.full "n\nn\np\nX\nq\nX\n".toList)) (· + 1) ∧
      ¬ ∃ st', (equalLines.recomputeHunks .lcs .quiet ["f"]
          (some (.full "n\nn\np\nX\nq\nX\n".toList)) .external).file ["f"] = some st' ∧
        KeepsHunks equalState.hunks st'.hunks (· + 1) := by
  have htable : hunkTable .lcs .quiet equalLines.nextId ["f"] .external equalState.baseline
      (.full "n\nn\np\nX\nq\nX\n".toList) = toppedHunks 2 "n\nn\n".toList := by decide
  refine ⟨reachable_write _ _, by decide, htable ▸ shifted_toppedHunks 2 _, ?_⟩
  rintro ⟨st', hst', hkeeps⟩
  have hids : ((equalLines.recomputeHunks .lcs .quiet ["f"]
      (some (.full "n\nn\np\nX\nq\nX\n".toList)) .external).file ["f"]).map
        (fun st => st.hunks.map (·.id)) = some [⟨2⟩, ⟨1⟩, ⟨4⟩] := by decide
  rw [hst'] at hids
  obtain ⟨h, hh, hid, -⟩ := hkeeps 0 _ rfl
  have hids : st'.hunks.map (·.id) = [⟨2⟩, ⟨1⟩, ⟨4⟩] := Option.some.inj hids
  have hsecond : (st'.hunks.map (·.id))[1]? = some h.id := by
    rw [getElem?_map, hh]
    rfl
  rw [hids, hid] at hsecond
  cases hsecond

end GrokBuild.HunkTracker
