import GrokBuild.HunkTracker.RoundTrip
import GrokBuild.Lib.RegionEdits

/-!
# Hunk tracker: accepting and rejecting some of the hunks

For texts without carriage returns that end in a newline, a patch is an edit
of the list of lines, unless it leaves a single blank line, which the join
loses. A line that the diff keeps and that is not blank stands outside every
hunk, so no part of the hunks meets that case, and patching from the last hunk
to the first replaces exactly the ranges of the chosen hunks.
-/

namespace GrokBuild.HunkTracker

open TextLines Str EditScript Splice Actor List

/-! ## Patches of lines -/

/-- A line with its newline. -/
structure IsLine (t : Text) : Prop where
  token : LineToken t
  ends : endsNl t = true

variable {T : List Text}

theorem lined_of_isLine (h : ∀ t ∈ T, IsLine t) : Lined T [] where
  token t ht := (h t ht).token
  inner t ht := (h t (dropLast_subset _ ht)).ends
  outer hR := absurd rfl hR

theorem endsNl_flatten (h : ∀ t ∈ T, IsLine t) (hne : T ≠ []) : endsNl T.flatten = true := by
  rw [← dropLast_append_getLast hne, flatten_append, flatten_singleton]
  have hlast := h _ (getLast_mem hne)
  rw [endsNl_append hlast.token.1]
  exact hlast.ends

/-- The tokens of a text without carriage returns that ends in a newline. -/
theorem isLine_tokenizeLines {b : Text} (hcr : '\r' ∉ b) (hends : endsNl b = true) :
    ∀ t ∈ tokenizeLines b, IsLine t := by
  intro t ht
  have hlined : Lined (tokenizeLines b) [] := lined_tokenizeLines hcr
  refine ⟨hlined.token t ht, ?_⟩
  have hne : tokenizeLines b ≠ [] := List.ne_nil_of_mem ht
  have hsplit := dropLast_append_getLast hne
  rw [← hsplit, mem_append, mem_singleton] at ht
  rcases ht with ht | rfl
  · exact hlined.inner t ht
  · rw [← flatten_tokenizeLines b, ← hsplit, flatten_append, flatten_singleton,
      endsNl_append (hlined.token _ (getLast_mem hne)).1] at hends
    exact hends

theorem tokenizeLines_line {l : Text} (hnl : '\n' ∉ l) (hcr : '\r' ∉ l) (rest : Text) :
    tokenizeLines (l ++ '\n' :: rest) = (l ++ ['\n']) :: tokenizeLines rest := by
  induction l with
  | nil => rfl
  | cons c l ih =>
    rw [mem_cons, not_or] at hnl hcr
    have hc : endsToken c (l ++ '\n' :: rest) = false := by
      simp [endsToken, Ne.symm hnl.1, Ne.symm hcr.1]
    rw [cons_append, tokenizeLines, hc, ih hnl.2 hcr.2]
    rfl

theorem tokenizeLines_flatten (h : ∀ t ∈ T, IsLine t) : tokenizeLines T.flatten = T := by
  induction T with
  | nil => rfl
  | cons t T ih =>
    have ht := h t mem_cons_self
    have hsplit := eq_append_newline ht.ends
    have hcr : '\r' ∉ t.dropLast := fun hc => ht.token.2.2 (dropLast_subset _ hc)
    have htail := ih fun u hu => h u (mem_cons_of_mem _ hu)
    rw [flatten_cons]
    conv_lhs => rw [hsplit]
    rw [append_assoc, singleton_append, tokenizeLines_line ht.token.2.1 hcr, htail,
      ← hsplit]

theorem patchLines_flatten {ins : List Text} {n k : Nat} (hT : ∀ t ∈ T, IsLine t)
    (hins : ∀ t ∈ ins, IsLine t) (hne : T ≠ [])
    (hkeep : ∃ t ∈ T.take (n - 1) ++ ins ++ T.drop (n - 1 + k), t ≠ ['\n']) :
    patchLines T.flatten n k ins.flatten =
      (T.take (n - 1) ++ ins ++ T.drop (n - 1 + k)).flatten := by
  have hall : ∀ t ∈ T.take (n - 1) ++ ins ++ T.drop (n - 1 + k), IsLine t := by
    intro t ht
    rw [mem_append, mem_append] at ht
    rcases ht with (ht | ht) | ht
    · exact hT t (mem_of_mem_take ht)
    · exact hins t ht
    · exact hT t (mem_of_mem_drop ht)
  have hlines : ∀ Q : List Text, (∀ t ∈ Q, IsLine t) → lines Q.flatten = Q.map lineBody := by
    intro Q hQ
    simpa using lines_lined (lined_of_isLine hQ)
  obtain ⟨t, ht, hblank⟩ := hkeep
  have hres : T.take (n - 1) ++ ins ++ T.drop (n - 1 + k) ≠ [] := List.ne_nil_of_mem ht
  have hone : (T.take (n - 1) ++ ins ++ T.drop (n - 1 + k)).flatten ≠ ['\n'] := by
    intro hflat
    have htokens := tokenizeLines_flatten hall
    rw [hflat] at htokens
    rw [← htokens] at ht
    exact hblank (mem_singleton.mp ht)
  have hjoin := withFinalNl_join
    (.of_cr_notMem (lined_of_isLine hall).cr_notMem) hone
  rw [hlines _ hall, endsNl_flatten hall hres] at hjoin
  rw [patchLines_eq, endsNl_flatten hT hne, hlines T hT, hlines ins hins, ← map_take,
    ← map_drop, ← map_append, ← map_append]
  exact hjoin

/-- Patch a text where an edit of its lines says. -/
def patchWith (t : Text) (e : Edit Text) : Text :=
  patchLines t (e.start + 1) (e.stop - e.start) e.new.flatten

/-- Patches from the bottom up, around a line that none of them covers and
that is not blank, are the edits of the lines. -/
theorem foldr_patchWith {es : List (Edit Text)} {i : Nat} {t : Text} (h : Stacked es)
    (hstop : ∀ e ∈ es, e.stop ≤ T.length) (hT : ∀ t ∈ T, IsLine t)
    (hnew : ∀ e ∈ es, ∀ t ∈ e.new, IsLine t) (ht : T[i]? = some t) (hout : ¬ Covered es i)
    (hblank : t ≠ ['\n']) :
    es.foldr (fun e text => patchWith text e) T.flatten = (walk es T).flatten := by
  induction es with
  | nil => rw [foldr_nil, walk, walkFrom_nil]
  | cons e es ih =>
    have hrest : ¬ Covered es i := fun hc => hout (covered_cons.mpr (Or.inr hc))
    have hstop' : ∀ f ∈ es, f.stop ≤ T.length := fun f hf => hstop f (mem_cons_of_mem _ hf)
    have hnew' : ∀ f ∈ es, ∀ t ∈ f.new, IsLine t := fun f hf => hnew f (mem_cons_of_mem _ hf)
    have hstep : walk (e :: es) T = e.apply (walk es T) := by
      rw [← foldr_apply h hstop, foldr_cons, foldr_apply h.tail hstop']
    have hlines : ∀ u ∈ walk es T, IsLine u := by
      intro u hu
      rcases mem_walk hu with hu | ⟨f, hf, hu⟩
      · exact hT u hu
      · exact hnew' f hf u hu
    have hbelow : walk es T ≠ [] := List.ne_nil_of_mem (mem_of_getElem? (getElem?_walk ht hrest))
    have hkept : t ∈ e.apply (walk es T) := by
      rw [← hstep]
      exact mem_of_getElem? (getElem?_walk ht hout)
    have hwidth : e.start + (e.stop - e.start) = e.stop := by
      have hord := h.ordered e mem_cons_self
      omega
    have happly : e.apply (walk es T) = (walk es T).take (e.start + 1 - 1) ++ e.new ++
        (walk es T).drop (e.start + 1 - 1 + (e.stop - e.start)) := by
      rw [Nat.add_sub_cancel, hwidth, Edit.apply]
    rw [foldr_cons, ih h.tail hstop' hnew' hrest, hstep, patchWith,
      patchLines_flatten hlines (hnew e mem_cons_self) hbelow ⟨t, happly ▸ hkept, hblank⟩,
      ← happly]

/-! ## Hunks as edits -/

/-- What accepting a hunk does to the lines of the baseline. -/
def acceptEdit (h : Hunk) : Edit Text :=
  ⟨h.lineInfo.oldStart - 1, h.lineInfo.oldStart - 1 + h.lineInfo.oldCount, tokenizeLines h.newText⟩

/-- What rejecting a hunk does to the lines of the current text. -/
def rejectEdit (h : Hunk) : Edit Text :=
  ⟨h.lineInfo.newStart - 1, h.lineInfo.newStart - 1 + h.lineInfo.newCount,
    tokenizeLines (h.oldText.getD [])⟩

theorem acceptInto_full {h : Hunk} (hpos : 1 ≤ h.lineInfo.oldStart) (t : Text) :
    acceptInto (.full t) h = .full (patchWith t (acceptEdit h)) := by
  simp only [acceptInto, patchWith, acceptEdit, flatten_tokenizeLines, Nat.sub_add_cancel hpos,
    Nat.add_sub_cancel_left]

theorem revertFrom_eq {h : Hunk} (hpos : 1 ≤ h.lineInfo.newStart) (t : Text) :
    revertFrom t h = patchWith t (rejectEdit h) := by
  simp only [revertFrom, patchWith, rejectEdit, flatten_tokenizeLines, Nat.sub_add_cancel hpos,
    Nat.add_sub_cancel_left]

variable {hs : List Hunk}

theorem foldr_acceptInto (hpos : ∀ h ∈ hs, 1 ≤ h.lineInfo.oldStart) (t : Text) :
    hs.foldr (fun h s => acceptInto s h) (.full t) =
      .full (hs.foldr (fun h u => patchWith u (acceptEdit h)) t) := by
  induction hs with
  | nil => rfl
  | cons h hs ih =>
    rw [foldr_cons, ih fun k hk => hpos k (mem_cons_of_mem _ hk),
      acceptInto_full (hpos h mem_cons_self), foldr_cons]

theorem foldr_revertFrom (hpos : ∀ h ∈ hs, 1 ≤ h.lineInfo.newStart) (t : Text) :
    hs.foldr (fun h u => revertFrom u h) t = hs.foldr (fun h u => patchWith u (rejectEdit h)) t := by
  induction hs with
  | nil => rfl
  | cons h hs ih =>
    rw [foldr_cons, ih fun k hk => hpos k (mem_cons_of_mem _ hk),
      revertFrom_eq (hpos h mem_cons_self), foldr_cons]

theorem insertionSort_part {key : Hunk → Nat} {S : List Hunk}
    (hlt : hs.Pairwise fun h k => key h < key k) (hS : S.Nodup) (hsub : S ⊆ hs) :
    S.insertionSort (fun h k => key k ≤ key h) = (hs.filter (· ∈ S)).reverse := by
  have hnodup : hs.Nodup := hlt.imp fun h heq => absurd (congrArg key heq) h.ne
  have hperm : S.Perm (hs.filter (· ∈ S)) := by
    refine (perm_ext_iff_of_nodup hS (hnodup.filter _)).mpr fun h => ?_
    rw [mem_filter, decide_eq_true_eq]
    exact ⟨fun hh => ⟨hsub hh, hh⟩, fun hh => hh.2⟩
  have hpart : (hs.filter (· ∈ S)).Pairwise fun h k => key h < key k := hlt.sublist filter_sublist
  have hdesc : (hs.filter (· ∈ S)).reverse.Pairwise fun h k => key k ≤ key h :=
    pairwise_reverse.mpr (hpart.imp fun h => h.le)
  have hsorted : (S.insertionSort fun h k => key k ≤ key h).Pairwise fun h k => key k ≤ key h :=
    pairwise_insertionSort _ _
  have hall := (perm_insertionSort (fun h k => key k ≤ key h) S).trans
    (hperm.trans (reverse_perm _).symm)
  refine List.Perm.eq_of_pairwise (fun h k hh hk hkh hhk => ?_) hsorted hdesc hall
  have hkeys : (hs.map key).Nodup := pairwise_map.mpr (hlt.imp fun h => h.ne)
  have hmem : h ∈ hs := hsub ((perm_insertionSort _ S).mem_iff.mp hh)
  have hmem' : k ∈ hs := (mem_filter.mp (mem_reverse.mp hk)).1
  exact inj_on_of_nodup_map hkeys hmem hmem' (le_antisymm hhk hkh)

/-! ## The hunks of a diff -/

section Diffs

variable {D : LineDiff} {env : Env} {fresh : Nat} {p : PathBuf} {b c : Text}
  {source : HunkSource}

variable (D b c) in
/-- Texts without carriage returns that end in newlines, and a diff that keeps
a line that is not blank. -/
structure KeepsLine : Prop where
  oldCr : '\r' ∉ b
  newCr : '\r' ∉ c
  oldEnds : endsNl b = true
  newEnds : endsNl c = true
  kept : ∃ t, .equal t ∈ diffLines D b c ∧ t ≠ ['\n']

variable (env b c) in
/-- `compute_hunks` runs the diff. -/
structure Diffed : Prop where
  ne : b ≠ c
  oldSize : byteLen b ≤ maxDiffFileSize
  newSize : byteLen c ≤ maxDiffFileSize
  inTime : env.timedOut b c = false

theorem computeHunks_of_diffed (h : Diffed env b c) :
    computeHunks D env fresh p b c source =
      ((diffRegions D b c).zipIdx fresh).map fun r => buildHunk p source env.now ⟨r.2⟩ r.1 := by
  have hsize : ¬ (byteLen b > maxDiffFileSize ∨ byteLen c > maxDiffFileSize) := by
    have hold := h.oldSize
    have hnew := h.newSize
    omega
  rw [computeHunks, if_neg h.ne, if_neg hsize, h.inTime, if_neg Bool.false_ne_true]

theorem computeHunks_of_undiffed (h : ¬ Diffed env b c) :
    computeHunks D env fresh p b c source = [] := by
  refine computeHunks_of_not_diffed ?_
  by_contra hnone
  rw [not_or, not_or, not_not, Bool.not_eq_true] at hnone
  exact h ⟨hnone.1, hnone.2.1.1, hnone.2.1.2, hnone.2.2⟩

theorem map_computeHunks {β : Type} {f : Hunk → β} {g : Region Text → β} (hdiff : Diffed env b c)
    (h : ∀ r ∈ diffRegions D b c, ∀ n, f (buildHunk p source env.now n r) = g r) :
    (computeHunks D env fresh p b c source).map f = (diffRegions D b c).map g := by
  rw [computeHunks_of_diffed hdiff, List.map_map]
  conv_rhs => rw [← zipIdx_map_fst fresh (diffRegions D b c), List.map_map]
  refine map_congr_left fun r hr => h r.1 ?_ _
  rw [← zipIdx_map_fst fresh (diffRegions D b c)]
  exact List.mem_map_of_mem hr

variable {r : Region Text}

theorem isLine_region (h : KeepsLine D b c) (hr : r ∈ diffRegions D b c) :
    (∀ t ∈ r.removed, IsLine t) ∧ ∀ t ∈ r.added, IsLine t := by
  obtain ⟨hold, hnew⟩ := regions_content (diffLines D b c) 1 1 r hr
  obtain ⟨hb, hc⟩ := diffLines_correct D b c
  constructor
  · intro t ht
    rw [← hold] at ht
    have hmem := mem_of_mem_drop (mem_of_mem_take ht)
    rw [hb] at hmem
    exact isLine_tokenizeLines h.oldCr h.oldEnds t hmem
  · intro t ht
    rw [← hnew] at ht
    have hmem := mem_of_mem_drop (mem_of_mem_take ht)
    rw [hc] at hmem
    exact isLine_tokenizeLines h.newCr h.newEnds t hmem

theorem acceptEdit_buildHunk (h : KeepsLine D b c) (hr : r ∈ diffRegions D b c) (now : Nat)
    (n : HunkId) : acceptEdit (buildHunk p source now n r) = r.edit := by
  simp only [acceptEdit, buildHunk, Region.edit, tokenizeLines_flatten (isLine_region h hr).2]

theorem rejectEdit_buildHunk (h : KeepsLine D b c) (hr : r ∈ diffRegions D b c) (now : Nat)
    (n : HunkId) : rejectEdit (buildHunk p source now n r) = r.undo.edit := by
  have htext : tokenizeLines ((if r.removed.isEmpty then none else some r.removed.flatten).getD []) =
      r.removed := by
    split
    · next hnil => rw [List.isEmpty_iff.mp hnil]; rfl
    · exact tokenizeLines_flatten (isLine_region h hr).1
  simp only [rejectEdit, buildHunk, Region.edit, Region.undo, htext]

theorem acceptEdits (h : KeepsLine D b c) (hdiff : Diffed env b c) :
    (computeHunks D env fresh p b c source).map acceptEdit = edits (diffLines D b c) :=
  map_computeHunks hdiff fun _ hr n => acceptEdit_buildHunk h hr env.now n

theorem rejectEdits (h : KeepsLine D b c) (hdiff : Diffed env b c) :
    (computeHunks D env fresh p b c source).map rejectEdit = edits (undo (diffLines D b c)) := by
  rw [map_computeHunks hdiff fun _ hr n => rejectEdit_buildHunk h hr env.now n, edits, regions_undo,
    List.map_map]
  rfl

theorem computeHunks_ordered :
    (computeHunks D env fresh p b c source).Pairwise fun h k =>
      h.lineInfo.oldStart < k.lineInfo.oldStart ∧ h.lineInfo.newStart < k.lineInfo.newStart := by
  by_cases hdiff : Diffed env b c
  · have hregions := regions_pairwise (diffLines D b c) 1 1
    rw [← zipIdx_map_fst fresh (regions 1 1 none (diffLines D b c)), pairwise_map]
      at hregions
    rw [computeHunks_of_diffed hdiff, pairwise_map]
    refine hregions.imp fun hlt => ?_
    simp only [buildHunk]
    omega
  · rw [computeHunks_of_undiffed hdiff]
    exact List.Pairwise.nil

theorem computeHunks_start_pos :
    ∀ h ∈ computeHunks D env fresh p b c source,
      1 ≤ h.lineInfo.oldStart ∧ 1 ≤ h.lineInfo.newStart := by
  by_cases hdiff : Diffed env b c
  · rw [computeHunks_of_diffed hdiff]
    intro h hh
    obtain ⟨⟨r, n⟩, hr, rfl⟩ := List.mem_map.mp hh
    exact regions_start_le (diffLines D b c) 1 1 r (fst_mem_of_mem_zipIdx hr)
  · rw [computeHunks_of_undiffed hdiff]
    exact fun h hh => absurd hh not_mem_nil

/-! ## Any part of the hunks -/

theorem foldr_part {s : List (Change Text)} {x y : Text}
    (hs : Correct (tokenizeLines x) (tokenizeLines y) s) (hx : ∀ t ∈ tokenizeLines x, IsLine t)
    (hy : ∀ t ∈ tokenizeLines y, IsLine t) {t : Text} (hkept : .equal t ∈ s) (hblank : t ≠ ['\n'])
    {es : List (Edit Text)} (hes : es.Sublist (edits s)) :
    es.foldr (fun e text => patchWith text e) x = (walk es (tokenizeLines x)).flatten := by
  obtain ⟨i, hi, hout⟩ := exists_kept hkept
  rw [hs.1] at hi
  conv_lhs => rw [← flatten_tokenizeLines x]
  refine foldr_patchWith ((stacked_edits s).sublist hes) ?_ hx ?_ hi ?_ hblank
  · intro e he
    rw [← hs.1]
    exact edit_stop_le s e (hes.subset he)
  · intro e he u hu
    refine hy u ?_
    rw [← hs.2]
    exact mem_of_mem_edit (hes.subset he) hu
  · rintro ⟨e, he, hcov⟩
    exact hout ⟨e, hes.subset he, hcov⟩

theorem walk_edits_flatten {s : List (Change Text)} {x y : Text}
    (hs : Correct (tokenizeLines x) (tokenizeLines y) s) :
    (walk (edits s) (tokenizeLines x)).flatten = y := by
  rw [← hs.1, walk_edits, hs.2, flatten_tokenizeLines]

variable (D env fresh p b c source) in
/-- The chosen hunks, in the order of the diff. -/
def chosen (S : List Hunk) : List Hunk := (computeHunks D env fresh p b c source).filter (· ∈ S)

theorem foldl_acceptInto {S : List Hunk} (hS : S.Nodup)
    (hsub : S ⊆ computeHunks D env fresh p b c source) (t : Text) :
    (S.insertionSort fun h k => k.lineInfo.oldStart ≤ h.lineInfo.oldStart).foldl acceptInto
        (.full t) =
      .full (((chosen D env fresh p b c source S).map acceptEdit).foldr
        (fun e text => patchWith text e) t) := by
  rw [insertionSort_part (computeHunks_ordered.imp fun h => h.1) hS hsub, foldl_reverse,
    foldr_map]
  exact foldr_acceptInto (fun h hh => (computeHunks_start_pos h (mem_filter.mp hh).1).1) t

theorem foldl_revertFrom {S : List Hunk} (hS : S.Nodup)
    (hsub : S ⊆ computeHunks D env fresh p b c source) (t : Text) :
    (S.insertionSort fun h k => k.lineInfo.newStart ≤ h.lineInfo.newStart).foldl revertFrom t =
      ((chosen D env fresh p b c source S).map rejectEdit).foldr
        (fun e text => patchWith text e) t := by
  rw [insertionSort_part (computeHunks_ordered.imp fun h => h.2) hS hsub, foldl_reverse,
    foldr_map]
  exact foldr_revertFrom (fun h hh => (computeHunks_start_pos h (mem_filter.mp hh).1).2) t

theorem accept_chosen (h : KeepsLine D b c) (S : List Hunk) :
    ((chosen D env fresh p b c source S).map acceptEdit).foldr (fun e text => patchWith text e) b =
      (walk ((chosen D env fresh p b c source S).map acceptEdit) (tokenizeLines b)).flatten := by
  by_cases hdiff : Diffed env b c
  · obtain ⟨t, hkept, hblank⟩ := h.kept
    refine foldr_part (diffLines_correct D b c) (isLine_tokenizeLines h.oldCr h.oldEnds)
      (isLine_tokenizeLines h.newCr h.newEnds) hkept hblank ?_
    rw [← acceptEdits h hdiff]
    exact filter_sublist.map acceptEdit
  · rw [chosen, computeHunks_of_undiffed hdiff, filter_nil, map_nil, walk, walkFrom_nil,
      flatten_tokenizeLines]
    rfl

theorem reject_chosen (h : KeepsLine D b c) (S : List Hunk) :
    ((chosen D env fresh p b c source S).map rejectEdit).foldr (fun e text => patchWith text e) c =
      (walk ((chosen D env fresh p b c source S).map rejectEdit) (tokenizeLines c)).flatten := by
  by_cases hdiff : Diffed env b c
  · obtain ⟨t, hkept, hblank⟩ := h.kept
    have hkept' : .equal t ∈ undo (diffLines D b c) := List.mem_map.mpr ⟨.equal t, hkept, rfl⟩
    refine foldr_part (diffLines_undo D b c) (isLine_tokenizeLines h.newCr h.newEnds)
      (isLine_tokenizeLines h.oldCr h.oldEnds) hkept' hblank ?_
    rw [← rejectEdits h hdiff]
    exact filter_sublist.map rejectEdit
  · rw [chosen, computeHunks_of_undiffed hdiff, filter_nil, map_nil, walk, walkFrom_nil,
      flatten_tokenizeLines]
    rfl

/-- Accepting any of the hunks replaces exactly their lines of the baseline,
and rejecting them exactly their lines of the current text. All of them give
the current text and the baseline. -/
theorem chosen_hunks (h : KeepsLine D b c) {S : List Hunk} (hS : S.Nodup)
    (hsub : S ⊆ computeHunks D env fresh p b c source) :
    (S.insertionSort fun h k => k.lineInfo.oldStart ≤ h.lineInfo.oldStart).foldl acceptInto
        (.full b) =
      .full (walk ((chosen D env fresh p b c source S).map acceptEdit) (tokenizeLines b)).flatten ∧
    (S.insertionSort fun h k => k.lineInfo.newStart ≤ h.lineInfo.newStart).foldl revertFrom c =
      (walk ((chosen D env fresh p b c source S).map rejectEdit) (tokenizeLines c)).flatten ∧
    (computeHunks D env fresh p b c source ⊆ S → b = c ∨ Diffed env b c →
      (S.insertionSort fun h k => k.lineInfo.oldStart ≤ h.lineInfo.oldStart).foldl acceptInto
          (.full b) = .full c ∧
        (S.insertionSort fun h k => k.lineInfo.newStart ≤ h.lineInfo.newStart).foldl revertFrom c =
          b) := by
  have haccept : (S.insertionSort fun h k => k.lineInfo.oldStart ≤ h.lineInfo.oldStart).foldl
      acceptInto (.full b) = .full
        (walk ((chosen D env fresh p b c source S).map acceptEdit) (tokenizeLines b)).flatten := by
    rw [foldl_acceptInto hS hsub, accept_chosen h]
  have hreject : (S.insertionSort fun h k => k.lineInfo.newStart ≤ h.lineInfo.newStart).foldl
      revertFrom c =
        (walk ((chosen D env fresh p b c source S).map rejectEdit) (tokenizeLines c)).flatten := by
    rw [foldl_revertFrom hS hsub, reject_chosen h]
  refine ⟨haccept, hreject, fun hall hmade => ?_⟩
  have hchosen : chosen D env fresh p b c source S = computeHunks D env fresh p b c source :=
    filter_eq_self.mpr fun k hk => by simpa using hall hk
  rw [haccept, hreject, hchosen]
  by_cases hdiff : Diffed env b c
  · rw [acceptEdits h hdiff, rejectEdits h hdiff, walk_edits_flatten (diffLines_correct D b c),
      walk_edits_flatten (diffLines_undo D b c)]
    exact ⟨rfl, rfl⟩
  · obtain rfl := hmade.resolve_right hdiff
    rw [computeHunks_of_undiffed hdiff, map_nil, map_nil, walk, walkFrom_nil,
      flatten_tokenizeLines]
    exact ⟨rfl, rfl⟩

end Diffs

def threeLines : Text := "a\nb\nc\n".toList

def twoChanged : Text := "x\nb\ny\nc\n".toList

theorem keepsLine_twoChanged : KeepsLine .lcs threeLines twoChanged where
  oldCr := by decide
  newCr := by decide
  oldEnds := by decide
  newEnds := by decide
  kept := ⟨"b\n".toList, by decide, by decide⟩

/-- The second of two hunks. -/
theorem chosen_hunks_second :
    let hunks := computeHunks .lcs .quiet 0 ["f"] threeLines twoChanged .external
    let S := hunks.drop 1
    (S.insertionSort fun h k => k.lineInfo.oldStart ≤ h.lineInfo.oldStart).foldl acceptInto
        (.full threeLines) =
      .full (walk ((chosen .lcs .quiet 0 ["f"] threeLines twoChanged .external S).map acceptEdit)
        (tokenizeLines threeLines)).flatten ∧
    (S.insertionSort fun h k => k.lineInfo.newStart ≤ h.lineInfo.newStart).foldl revertFrom
        twoChanged =
      (walk ((chosen .lcs .quiet 0 ["f"] threeLines twoChanged .external S).map rejectEdit)
        (tokenizeLines twoChanged)).flatten := by
  intro hunks S
  have h := chosen_hunks keepsLine_twoChanged (S := S) (by decide) (drop_subset 1 hunks)
  exact ⟨h.1, h.2.1⟩

end GrokBuild.HunkTracker
