import GrokBuild.Lib.Splice
import GrokBuild.Hashline.Anchors

/-!
# Hashline batches are simultaneous substitutions

An operation of a batch, resolved against the lines of the file, is an edit
of that list of lines (`targetOf`). What `apply_edits` does with a batch it
accepts is what `Splice.walk` says about these edits: the overlap check
accepts exactly the batches whose edits do not clash, the bottom-up splices
give the walk, and the top-down pass with its running shift finds each
edit's own lines in it.
-/

namespace GrokBuild.Hashline

open TextLines Str Splice List

/-! ## Lines and pieces -/

/-- The pieces of a text without the carriage return of a CRLF: every piece
but the last loses a final one. -/
def stripInit : List Text → List Text
  | [] => []
  | [p] => [p]
  | p :: q :: ps => stripCr p :: stripInit (q :: ps)

theorem stripInit_cons (p : Text) {ps : List Text} (h : ps ≠ []) :
    stripInit (p :: ps) = stripCr p :: stripInit ps := by
  cases ps with
  | nil => exact absurd rfl h
  | cons q ps => rfl

theorem splitLines_eq (content : Text) : splitLines content = stripInit (content.splitOn '\n') := by
  induction content using lineInduction with
  | nil => rfl
  | last a ha hne =>
    rw [splitLines, if_neg hne, endsNl_of_notMem ha, lines_last ha hne,
      splitOn_eq_singleton ha]
    rfl
  | cons a t ha ih =>
    have hne : a ++ '\n' :: t ≠ [] := by simp
    rw [splitOn_line ha, stripInit_cons a (splitOn_ne_nil _ _), ← ih, splitLines, splitLines,
      if_neg hne, endsNl_line, lines_cons ha]
    cases t with
    | nil => rfl
    | cons c t =>
      rw [if_neg (cons_ne_nil c t), isEmpty_cons, Bool.false_or]
      split <;> rfl

theorem stripInit_eq_self {ps : List Text} (h : ∀ p ∈ ps, '\r' ∉ p) : stripInit ps = ps := by
  induction ps with
  | nil => rfl
  | cons p ps ih =>
    cases ps with
    | nil => rfl
    | cons q ps =>
      have hp : stripCr p = p := by
        rw [stripCr, if_neg]
        intro hlast
        exact h p mem_cons_self (mem_of_getLast? hlast)
      rw [stripInit, hp, ih fun r hr => h r (mem_cons_of_mem _ hr)]

variable {content : Text}

theorem mem_of_mem_splitOn {l : Text} {c : Char} (hl : l ∈ content.splitOn '\n') (hc : c ∈ l) :
    c ∈ content := by
  induction content using lineInduction with
  | nil =>
    rw [splitOn_nil, mem_singleton] at hl
    exact absurd (hl ▸ hc) not_mem_nil
  | last a ha hne =>
    rw [splitOn_eq_singleton ha, mem_singleton] at hl
    exact hl ▸ hc
  | cons a t ha ih =>
    rw [splitOn_line ha] at hl
    rcases mem_cons.mp hl with rfl | hl
    · exact mem_append_left _ hc
    · exact mem_append_right _ (mem_cons_of_mem _ (ih hl))

theorem splitLines_eq_splitOn (h : '\r' ∉ content) : splitLines content = content.splitOn '\n' := by
  rw [splitLines_eq]
  exact stripInit_eq_self fun p hp hr => h (mem_of_mem_splitOn hp hr)

theorem newline_notMem_splitLines (content : Text) : ∀ l ∈ splitLines content, '\n' ∉ l := by
  intro l hl
  rw [splitLines] at hl
  split at hl
  · simp_all
  · split at hl
    · rcases mem_append.mp hl with hl | hl
      · exact newline_notMem_lines content l hl
      · simp_all
    · exact newline_notMem_lines content l hl

/-! ## Resolved operations -/

def ResolvedOp.edit (r : ResolvedOp) : Edit Text :=
  { start := r.start, stop := r.stop, new := r.newLines }

@[simp] theorem ResolvedOp.edit_start (r : ResolvedOp) : r.edit.start = r.start := rfl

@[simp] theorem ResolvedOp.edit_stop (r : ResolvedOp) : r.edit.stop = r.stop := rfl

@[simp] theorem ResolvedOp.edit_new (r : ResolvedOp) : r.edit.new = r.newLines := rfl

/-- The lines that an operation puts in: an insertion of nothing is an empty
line. -/
def insertedLines : HashlineOp → List Text
  | .insertAfter _ [] => [[]]
  | op => lines op.content

/-- The lines that an operation's anchors name, empty for an insertion. A
`write` names none. -/
def namedLines (ls : List Text) (scheme : AnchorScheme) : HashlineOp → Option (Nat × Nat)
  | .replace anchor endAnchor _ => (resolveRange anchor endAnchor ls scheme).toOption
  | .insertAfter anchor _ => (resolveInsert anchor ls scheme).toOption.map fun at' => (at', at')
  | .write _ => none

/-- The edit of the lines that an operation asks for. A content that repeats
an anchor asks for none. -/
def targetOf (ls : List Text) (scheme : AnchorScheme) (op : HashlineOp) : Option (Edit Text) :=
  match detectAnchorPrefixInContent op.content with
  | some _ => none
  | none => (namedLines ls scheme op).map fun (start, stop) => { start, stop, new := insertedLines op }

/-- An edit within a file of `n` lines that inserts lines. -/
structure Fits (n : Nat) (e : Edit Text) : Prop where
  ordered : e.start ≤ e.stop
  inside : e.stop ≤ n
  isLines : ∀ l ∈ e.new, '\n' ∉ l

variable {ls : List Text} {scheme : AnchorScheme}

theorem validateAnchor_lt {s : Text} {i : Nat} (h : validateAnchor s ls scheme = .ok i) :
    i < ls.length := by
  obtain ⟨p, -, hi, hv⟩ := validateAnchor_ok h
  obtain ⟨line, hl, -⟩ := validate_eq_valid.mp hv
  rw [hi] at hl
  exact (List.getElem?_eq_some_iff.mp hl).1

theorem resolveRange_ok {anchor : Text} {endAnchor : Option Text} {start stop : Nat}
    (h : resolveRange anchor endAnchor ls scheme = .ok (start, stop)) :
    start < stop ∧ stop ≤ ls.length := by
  rw [resolveRange] at h
  split at h
  · cases h
  · next i hi =>
    have hlt := validateAnchor_lt hi
    split at h
    · cases h
      omega
    · split at h
      · cases h
      · next e he =>
        have hle := validateAnchor_lt he
        split at h
        · cases h
        · cases h
          omega

theorem resolveInsert_ok {anchor : Text} {at' : Nat} (h : resolveInsert anchor ls scheme = .ok at') :
    at' ≤ ls.length := by
  rw [resolveInsert] at h
  split at h
  · cases h
    exact Nat.zero_le _
  · split at h
    · split at h
      · cases h
        omega
      · cases h
        exact le_rfl
    · split at h
      · cases h
      · next line hline =>
        cases h
        exact validateAnchor_lt hline

variable {op : HashlineOp}

theorem resolveOp_ok {idx : Nat} {r : ResolvedOp} (h : resolveOp op idx ls scheme = .ok r) :
    r.originalIdx = idx ∧ Fits ls.length r.edit := by
  cases op with
  | replace anchor endAnchor content =>
    rw [resolveOp] at h
    split at h
    · cases h
    · next start stop hr =>
      obtain ⟨hlt, hle⟩ := resolveRange_ok hr
      split at h
      · cases h
      · cases h
        refine ⟨rfl, hlt.le, hle, ?_⟩
        intro l hl
        dsimp only [ResolvedOp.edit_new] at hl
        split at hl
        · cases hl
        · exact newline_notMem_lines content l hl
  | insertAfter anchor content =>
    rw [resolveOp] at h
    split at h
    · cases h
    · next insertAt hi =>
      have hle := resolveInsert_ok hi
      split at h
      · cases h
      · cases h
        refine ⟨rfl, le_rfl, hle, ?_⟩
        intro l hl
        dsimp only [ResolvedOp.edit_new] at hl
        split at hl
        · rw [mem_singleton] at hl
          simp [hl]
        · exact newline_notMem_lines content l hl
  | write content => cases h

variable {e : Edit Text}

theorem targetOf_eq_some (idx : Nat) : targetOf ls scheme op = some e ↔
      ∃ r, resolveOp op idx ls scheme = .ok r ∧ r.edit = e := by
  cases op with
  | replace anchor endAnchor content =>
    simp only [targetOf, namedLines, HashlineOp.content, resolveOp]
    cases resolveRange anchor endAnchor ls scheme with
    | error err => cases detectAnchorPrefixInContent content <;> simp [Except.toOption]
    | ok range =>
      cases detectAnchorPrefixInContent content with
      | some lineNum => simp
      | none =>
        cases content <;>
          simp [Except.toOption, ResolvedOp.edit, insertedLines, HashlineOp.content]
  | insertAfter anchor content =>
    simp only [targetOf, namedLines, HashlineOp.content, resolveOp]
    cases resolveInsert anchor ls scheme with
    | error err => cases detectAnchorPrefixInContent content <;> simp [Except.toOption]
    | ok insertAt =>
      cases detectAnchorPrefixInContent content with
      | some lineNum => simp
      | none =>
        cases content <;>
          simp [Except.toOption, ResolvedOp.edit, insertedLines, HashlineOp.content]
  | write content =>
    cases h : detectAnchorPrefixInContent content <;>
      simp [targetOf, namedLines, HashlineOp.content, resolveOp, h]

theorem fits_targetOf (h : targetOf ls scheme op = some e) : Fits ls.length e := by
  obtain ⟨r, hr, rfl⟩ := (targetOf_eq_some 0).mp h
  exact (resolveOp_ok hr).2

variable {ops : List HashlineOp} {rs : List ResolvedOp}

theorem resolveOps_ok {total idx : Nat} (h : resolveOps ls scheme total idx ops = .ok rs) :
    List.Forall₂ (fun op r => targetOf ls scheme op = some (ResolvedOp.edit r)) ops rs ∧
      rs.map ResolvedOp.originalIdx = List.range' idx rs.length := by
  induction ops generalizing idx rs with
  | nil =>
    cases h
    exact ⟨.nil, rfl⟩
  | cons op ops ih =>
    rw [resolveOps] at h
    split at h
    · cases h
    · next r hr =>
      split at h
      · cases h
      · next rs' hrs =>
        cases h
        obtain ⟨htargets, hidx⟩ := ih hrs
        refine ⟨.cons ((targetOf_eq_some idx).mpr ⟨r, hr, rfl⟩) htargets, ?_⟩
        rw [map_cons, hidx, (resolveOp_ok hr).1, length_cons, range'_succ]

theorem exists_resolveOps (total idx : Nat) (h : ∀ op ∈ ops, ∃ e, targetOf ls scheme op = some e) :
    ∃ rs, resolveOps ls scheme total idx ops = .ok rs := by
  induction ops generalizing idx with
  | nil => exact ⟨[], rfl⟩
  | cons op ops ih =>
    obtain ⟨e, he⟩ := h op mem_cons_self
    obtain ⟨r, hr, -⟩ := (targetOf_eq_some idx).mp he
    obtain ⟨rs, hrs⟩ := ih (idx + 1) fun o ho => h o (mem_cons_of_mem _ ho)
    exact ⟨r :: rs, by rw [resolveOps, hr]; simp only [hrs]⟩

/-! ## The overlap check -/

/-- Two replacements with a common line, or an insertion in front of a
replaced line. -/
def Clash (a b : Edit Text) : Prop :=
  (a.start < b.stop ∧ b.start < a.stop) ∨
    (a.start = a.stop ∧ b.start ≤ a.start ∧ a.start < b.stop) ∨
    (b.start = b.stop ∧ a.start ≤ b.start ∧ b.start < a.stop)

theorem not_clash_symm {a b : Edit Text} (h : ¬ Clash a b) : ¬ Clash b a := by
  unfold Clash at *
  omega

theorem windows_eq_none (hne : ∀ r ∈ rs, r.start < r.stop)
    (hsorted : rs.Pairwise fun a b => a.start ≤ b.start) :
    (rs.zip rs.tail).find? (fun w => w.1.stop > w.2.start) = none ↔
      rs.Pairwise fun a b => ¬ Clash a.edit b.edit := by
  induction rs with
  | nil => simp
  | cons a rs ih =>
    cases rs with
    | nil => simp
    | cons b rs =>
      have ha := hne a mem_cons_self
      have hb := hne b (by simp)
      have hab := (pairwise_cons.mp hsorted).1 b mem_cons_self
      have ih := ih (fun r hr => hne r (mem_cons_of_mem _ hr)) hsorted.of_cons
      have hzip : (a :: b :: rs).zip (a :: b :: rs).tail =
          (a, b) :: (b :: rs).zip (b :: rs).tail := rfl
      rw [hzip, find?_eq_none, forall_mem_cons, ← find?_eq_none, ih,
        pairwise_cons (a := a)]
      simp only [gt_iff_lt, decide_eq_true_eq, not_lt]
      refine and_congr_left fun hrest => ?_
      constructor
      · -- every later range starts behind `b`
        intro hle c hc
        have hbc : b.start ≤ c.start := by
          rcases mem_cons.mp hc with rfl | hc
          · exact le_rfl
          · exact (pairwise_cons.mp hsorted.of_cons).1 c hc
        have hcne := hne c (mem_cons_of_mem _ hc)
        simp only [Clash, ResolvedOp.edit_start, ResolvedOp.edit_stop]
        omega
      · intro hall
        have hclash := hall b mem_cons_self
        simp only [Clash, ResolvedOp.edit_start, ResolvedOp.edit_stop] at hclash
        omega

theorem checkOverlaps_eq_none (hord : ∀ r ∈ rs, r.start ≤ r.stop) :
    checkOverlaps rs = none ↔ rs.Pairwise fun a b => ¬ Clash a.edit b.edit := by
  have hsplit : (rs.filter (·.isInsertion) ++ rs.filter fun op => !op.isInsertion).Perm rs :=
    filter_append_perm _ rs
  have hranges : (ranges rs).Perm (rs.filter fun op => !op.isInsertion) :=
    perm_insertionSort _ _
  have hne : ∀ r ∈ ranges rs, r.start < r.stop := by
    intro r hr
    obtain ⟨hmem, hins⟩ := mem_filter.mp (hranges.mem_iff.mp hr)
    have := hord r hmem
    simp only [ResolvedOp.isInsertion, Bool.not_eq_true', beq_eq_false_iff_ne] at hins
    omega
  have hins : ∀ op ∈ rs.filter (·.isInsertion), op.start = op.stop := by
    intro op hop
    simpa [ResolvedOp.isInsertion] using (mem_filter.mp hop).2
  -- insertions never clash with each other, so three kinds of pairs are left
  have hpairs : (rs.Pairwise fun a b => ¬ Clash a.edit b.edit) ↔
      (ranges rs).Pairwise (fun a b => ¬ Clash a.edit b.edit) ∧
      ∀ op ∈ rs.filter (·.isInsertion), ∀ r ∈ ranges rs, ¬ Clash op.edit r.edit := by
    rw [← hsplit.pairwise_iff not_clash_symm, pairwise_append,
      hranges.pairwise_iff not_clash_symm, and_iff_right]
    · simp only [hranges.mem_iff]
    · refine List.Pairwise.imp_of_mem (R := fun _ _ => True) ?_ (pairwise_of_forall fun _ _ => trivial)
      intro a b ha hb _
      have := hins a ha
      have := hins b hb
      simp only [Clash, ResolvedOp.edit_start, ResolvedOp.edit_stop]
      omega
  have hcross : ∀ op ∈ rs.filter (·.isInsertion), ∀ r ∈ ranges rs,
      (¬ Clash op.edit r.edit ↔ ¬ (r.start ≤ op.start ∧ op.start < r.stop)) := by
    intro op hop r hr
    have := hins op hop
    have := hne r hr
    simp only [Clash, ResolvedOp.edit_start, ResolvedOp.edit_stop]
    omega
  rw [hpairs, ← windows_eq_none hne (pairwise_insertionSort _ _), checkOverlaps]
  split
  · next w hw => simp [hw]
  · next hw =>
    simp only [hw, true_and, findSome?_eq_none_iff, Option.map_eq_none_iff,
      find?_eq_none]
    refine forall₂_congr fun op hop => forall₂_congr fun r hr => ?_
    rw [hcross op hop r hr]
    simp

/-! ## The order of application -/

instance : Std.Total spliceOrder := ⟨fun a b => by unfold spliceOrder; omega⟩

instance : IsTrans ResolvedOp spliceOrder := ⟨fun a b c => by unfold spliceOrder; omega⟩

/-- The resolved operations from the top of the file down. -/
def topDown (rs : List ResolvedOp) : List ResolvedOp := (rs.insertionSort spliceOrder).reverse

theorem topDown_perm (rs : List ResolvedOp) : (topDown rs).Perm rs :=
  (reverse_perm _).trans (perm_insertionSort _ _)

theorem topDown_pairwise (rs : List ResolvedOp) :
    (topDown rs).Pairwise fun a b => spliceOrder b a :=
  pairwise_reverse.mpr (pairwise_insertionSort _ _)

theorem topDown_starts (rs : List ResolvedOp) :
    ((topDown rs).map ResolvedOp.edit).Pairwise fun a b => a.start ≤ b.start := by
  rw [pairwise_map]
  refine (topDown_pairwise rs).imp fun {a b} h => ?_
  simp only [spliceOrder] at h
  simp only [ResolvedOp.edit_start]
  omega

theorem stacked_topDown (hord : ∀ r ∈ rs, r.start ≤ r.stop)
    (hclash : rs.Pairwise fun a b => ¬ Clash a.edit b.edit) :
    Stacked ((topDown rs).map ResolvedOp.edit) := by
  have hclash' := ((topDown_perm rs).pairwise_iff not_clash_symm).mpr hclash
  constructor
  · intro e he
    obtain ⟨r, hr, rfl⟩ := List.mem_map.mp he
    exact hord r ((topDown_perm rs).mem_iff.mp hr)
  · rw [pairwise_map]
    refine ((topDown_pairwise rs).and hclash').imp_of_mem fun {a b} ha hb h => ?_
    have hbo := hord b ((topDown_perm rs).mem_iff.mp hb)
    obtain ⟨hab, hnc⟩ := h
    simp only [spliceOrder] at hab
    simp only [Clash, ResolvedOp.edit_start, ResolvedOp.edit_stop] at hnc ⊢
    omega

theorem filter_topDown (hidx : rs.map ResolvedOp.originalIdx = List.range' 0 rs.length) (p : Nat) :
    (topDown rs).filter (fun r => r.start = p) = rs.filter fun r => r.start = p := by
  have hinj : ∀ a ∈ rs, ∀ b ∈ rs, a.originalIdx = b.originalIdx → a = b :=
    inj_on_of_nodup_map (hidx ▸ nodup_range')
  have hperm := (topDown_perm rs).filter fun r => r.start = p
  have hrs : rs.Pairwise fun a b => a.originalIdx ≤ b.originalIdx := by
    rw [← pairwise_map (f := ResolvedOp.originalIdx), hidx]
    exact pairwise_le_range'
  refine List.Perm.eq_of_pairwise ?_ ?_ (hrs.filter _) hperm
  · intro a b ha hb hab hba
    exact hinj a ((topDown_perm rs).mem_iff.mp (mem_filter.mp ha).1) b
      (mem_filter.mp hb).1 (Nat.le_antisymm hab hba)
  · rw [pairwise_filter]
    refine (topDown_pairwise rs).imp fun {a b} h ha hb => ?_
    simp only [decide_eq_true_eq] at ha hb
    simp only [spliceOrder] at h
    omega

theorem filter_edits_topDown (hidx : rs.map ResolvedOp.originalIdx = List.range' 0 rs.length)
    (p : Nat) :
    ((topDown rs).map ResolvedOp.edit).filter (fun e => e.start = p) =
      (rs.map ResolvedOp.edit).filter fun e => e.start = p := by
  have h := congrArg (List.map ResolvedOp.edit) (filter_topDown hidx p)
  rw [List.filter_map, List.filter_map]
  exact h

/-! ## Splicing and tracking -/

theorem foldl_splice (ls : List Text) (rs : List ResolvedOp) :
    (rs.insertionSort spliceOrder).foldl splice ls =
      ((topDown rs).map ResolvedOp.edit).foldr (fun e ys => e.apply ys) ls := by
  rw [topDown, foldr_map, foldr_reverse]
  rfl

/-- What the tracking loop records about an edit whose lines begin at `o`. -/
def regionOf (ls : List Text) (e : Edit Text) (o : Nat) : (Nat × Nat) × EditRegionDetail :=
  ((o, o + e.new.length),
    { oldLine := e.start + 1
      oldText := if e.start < e.stop then joinLines (slice ls e.start e.stop) else []
      newLine := o + 1
      newText := joinLines e.new })

theorem trackRegions_eq (ls : List Text) (shift : Int) (rs : List ResolvedOp) :
    trackRegions ls shift rs =
      List.zipWith (regionOf ls) (rs.map ResolvedOp.edit)
        (landing shift (rs.map ResolvedOp.edit)) := by
  induction rs generalizing shift with
  | nil => rfl
  | cons r rs ih =>
    rw [trackRegions, ih]
    rfl

/-! ## An accepted batch -/

/-- The edits that a batch asks for, in the order of the request. -/
def Targets (ls : List Text) (scheme : AnchorScheme) (ops : List HashlineOp)
    (es : List (Edit Text)) : Prop :=
  List.Forall₂ (fun op e => targetOf ls scheme op = some e) ops es

variable {es : List (Edit Text)}

theorem Targets.eq_filterMap (h : Targets ls scheme ops es) :
    es = ops.filterMap (targetOf ls scheme) := by
  induction h with
  | nil => rfl
  | cons he _ ih => rw [filterMap_cons_some he, ← ih]

theorem Targets.exists_of_mem (h : Targets ls scheme ops es) (hop : op ∈ ops) :
    ∃ e, targetOf ls scheme op = some e := by
  induction h with
  | nil => cases hop
  | cons he _ ih =>
    rcases mem_cons.mp hop with rfl | hop
    · exact ⟨_, he⟩
    · exact ih hop

theorem Targets.fits (h : Targets ls scheme ops es) : ∀ e ∈ es, Fits ls.length e := by
  intro e he
  rw [h.eq_filterMap, mem_filterMap] at he
  obtain ⟨op, -, hop⟩ := he
  exact fits_targetOf hop

/-- What `apply_edits` does with a batch it accepts, in terms of the edits
from the top down. -/
structure Applied (ls : List Text) (rs : List ResolvedOp) (result : ApplyResult) : Prop where
  newContent : result.newContent = some (joinLines (walk (rs.map ResolvedOp.edit) ls))
  editDetails : result.editDetails = (List.zipWith (regionOf ls) ((topDown rs).map ResolvedOp.edit)
    (landing 0 ((topDown rs).map ResolvedOp.edit))).map (·.2)

theorem applied_applyResolved (hrs : resolveOps ls scheme ops.length 0 ops = .ok rs)
    (hnone : checkOverlaps rs = none) (applied : Nat) (filePath : Text) :
    Stacked ((topDown rs).map ResolvedOp.edit) ∧
      Applied ls rs (applyResolved ls rs applied filePath scheme) := by
  obtain ⟨htargets, hidx⟩ := resolveOps_ok hrs
  have hfits : ∀ r ∈ rs, Fits ls.length r.edit := fun r hr =>
    (show Targets ls scheme ops (rs.map ResolvedOp.edit) from
      forall₂_map_right_iff.mpr htargets).fits _ (List.mem_map_of_mem hr)
  have hord : ∀ r ∈ rs, r.start ≤ r.stop := fun r hr => (hfits r hr).ordered
  have hstacked := stacked_topDown hord ((checkOverlaps_eq_none hord).mp hnone)
  have hinside : ∀ e ∈ (topDown rs).map ResolvedOp.edit, e.stop ≤ ls.length := by
    intro e he
    obtain ⟨r, hr, rfl⟩ := List.mem_map.mp he
    exact (hfits r ((topDown_perm rs).mem_iff.mp hr)).inside
  have hwalk : (rs.insertionSort spliceOrder).foldl splice ls =
      walk (rs.map ResolvedOp.edit) ls := by
    rw [foldl_splice, foldr_apply hstacked hinside]
    exact walk_congr ls (filter_edits_topDown hidx)
  refine ⟨hstacked, ?_, ?_⟩
  · rw [← hwalk]
    rfl
  · rw [← trackRegions_eq]
    rfl

theorem applyEdits_eq (hw : ∀ c, .write c ∉ ops) (filePath : Text) (scheme : AnchorScheme) :
    applyEdits content ops filePath scheme =
      match resolveOps (splitLines content) scheme ops.length 0 ops with
      | .error e => failure e
      | .ok resolved =>
        match checkOverlaps resolved with
        | some e => failure (overlapFailure ops.length e)
        | none => applyResolved (splitLines content) resolved ops.length filePath scheme := by
  unfold applyEdits
  split
  · next c => exact absurd (mem_singleton_self _) (hw c)
  · rfl

variable {filePath : Text} {result : HashlineEditsApplied}

theorem applyEdits_accepted (hw : ∀ c, .write c ∉ ops)
    (h : (applyEdits content ops filePath scheme).output = .editsApplied result) :
    ∃ rs, resolveOps (splitLines content) scheme ops.length 0 ops = .ok rs ∧
      checkOverlaps rs = none ∧ applyEdits content ops filePath scheme =
        applyResolved (splitLines content) rs ops.length filePath scheme := by
  rw [applyEdits_eq hw] at h ⊢
  cases hrs : resolveOps (splitLines content) scheme ops.length 0 ops with
  | error e => rw [hrs] at h; cases h
  | ok rs =>
    rw [hrs] at h
    cases hno : checkOverlaps rs with
    | some e =>
      dsimp only at h
      rw [hno] at h
      cases h
    | none => exact ⟨rs, rfl, hno, by simp only [hno]⟩

/-! ## Reordering a batch -/

/-- Two batches with the same operations in the same order at each target
position. -/
def SamePerPosition (ls : List Text) (scheme : AnchorScheme) (ops ops' : List HashlineOp) : Prop :=
  ∀ p : Option Nat, ops'.filter (fun op => (targetOf ls scheme op).map Edit.start = p) =
    ops.filter fun op => (targetOf ls scheme op).map Edit.start = p

variable {ops' : List HashlineOp}

theorem SamePerPosition.mem (h : SamePerPosition ls scheme ops ops') (hop : op ∈ ops') : op ∈ ops := by
  have hmem : op ∈ ops'.filter fun o =>
      (targetOf ls scheme o).map Edit.start = (targetOf ls scheme op).map Edit.start := by
    simp [hop]
  rw [h] at hmem
  exact (mem_filter.mp hmem).1

theorem filter_filterMap_targetOf (ls : List Text) (scheme : AnchorScheme)
    (ops : List HashlineOp) (p : Nat) :
    (ops.filterMap (targetOf ls scheme)).filter (fun e => e.start = p) =
      (ops.filter fun op => (targetOf ls scheme op).map Edit.start = some p).filterMap
        (targetOf ls scheme) := by
  rw [filter_filterMap, filterMap_filter]
  congr 1
  funext op
  cases targetOf ls scheme op with
  | none => simp
  | some e => by_cases he : e.start = p <;> simp [Option.filter, he]

theorem topDown_congr {rs' : List ResolvedOp} (h : SamePerPosition ls scheme ops ops')
    (hrs : resolveOps ls scheme ops.length 0 ops = .ok rs)
    (hrs' : resolveOps ls scheme ops'.length 0 ops' = .ok rs') :
    (topDown rs').map ResolvedOp.edit = (topDown rs).map ResolvedOp.edit := by
  obtain ⟨ht, hidx⟩ := resolveOps_ok hrs
  obtain ⟨ht', hidx'⟩ := resolveOps_ok hrs'
  have hes : rs.map ResolvedOp.edit = ops.filterMap (targetOf ls scheme) :=
    Targets.eq_filterMap (forall₂_map_right_iff.mpr ht)
  have hes' : rs'.map ResolvedOp.edit = ops'.filterMap (targetOf ls scheme) :=
    Targets.eq_filterMap (forall₂_map_right_iff.mpr ht')
  apply eq_of_filter_key (topDown_starts rs') (topDown_starts rs)
  intro p
  rw [filter_edits_topDown hidx, filter_edits_topDown hidx', hes, hes',
    filter_filterMap_targetOf, filter_filterMap_targetOf, h (some p)]

theorem checkOverlaps_congr {rs' : List ResolvedOp} (hord : ∀ r ∈ rs, r.start ≤ r.stop)
    (h : (topDown rs').map ResolvedOp.edit = (topDown rs).map ResolvedOp.edit)
    (hnone : checkOverlaps rs = none) : checkOverlaps rs' = none := by
  have hperm : (rs'.map ResolvedOp.edit).Perm (rs.map ResolvedOp.edit) :=
    ((topDown_perm rs').map _).symm.trans (h ▸ (topDown_perm rs).map _)
  have hord' : ∀ r ∈ rs', r.start ≤ r.stop := by
    intro r hr
    obtain ⟨r₀, hr₀, he⟩ := List.mem_map.mp (hperm.mem_iff.mp (List.mem_map_of_mem hr))
    have := hord r₀ hr₀
    rw [← ResolvedOp.edit_start r, ← ResolvedOp.edit_stop r, ← he]
    exact this
  rw [checkOverlaps_eq_none hord, ← pairwise_map (f := ResolvedOp.edit)
    (R := fun a b => ¬ Clash a b)] at hnone
  rw [checkOverlaps_eq_none hord', ← pairwise_map (f := ResolvedOp.edit)
    (R := fun a b => ¬ Clash a b)]
  exact (hperm.pairwise_iff not_clash_symm).mpr hnone

/-! ## The meaning of a batch -/

/-- A detail tells what its edit did: the old lines at their old place, and
its own lines at their place among the lines `new` of the result. -/
structure Describes (ls new : List Text) (e : Edit Text) (d : EditRegionDetail) : Prop where
  oldLine : d.oldLine = e.start + 1
  oldText : d.oldText = joinLines (slice ls e.start e.stop)
  newLine : 1 ≤ d.newLine
  newLines : slice new (d.newLine - 1) (d.newLine - 1 + e.new.length) = e.new
  newText : d.newText = joinLines e.new

theorem describes_regionOf {new : List Text} {o : Nat} (hord : e.start ≤ e.stop)
    (h : (new.drop o).take e.new.length = e.new) : Describes ls new e (regionOf ls e o).2 := by
  refine ⟨rfl, ?_, Nat.le_add_left 1 o, ?_, rfl⟩
  · show (if e.start < e.stop then joinLines (slice ls e.start e.stop) else []) = _
    split
    · rfl
    · have heq : e.start = e.stop := by omega
      rw [heq, slice_self, joinLines_nil]
  · show slice new (o + 1 - 1) (o + 1 - 1 + e.new.length) = e.new
    rw [Nat.add_sub_cancel, slice, ← take_drop]
    exact h

theorem forall₂_describes (h : Stacked es) (hlen : ∀ e ∈ es, e.stop ≤ ls.length) :
    List.Forall₂ (Describes ls (walk es ls)) es
      ((List.zipWith (regionOf ls) es (landing 0 es)).map (·.2)) := by
  have hland := landing_spec h hlen
  have hord := h.ordered
  revert hland hord
  generalize walk es ls = new
  generalize landing 0 es = os
  clear h hlen
  intro hland hord
  induction hland with
  | nil => exact .nil
  | cons he _ ih =>
    exact .cons (describes_regionOf (hord _ mem_cons_self) he)
      (ih fun f hf => hord f (mem_cons_of_mem _ hf))

theorem newline_notMem_walk (hls : ∀ l ∈ ls, '\n' ∉ l) (hes : ∀ e ∈ es, ∀ l ∈ e.new, '\n' ∉ l) :
    ∀ l ∈ walk es ls, '\n' ∉ l := by
  intro l hl
  rcases mem_walk hl with hl | ⟨e, he, hl⟩
  · exact hls l hl
  · exact hes e he l hl

/-- An accepted batch turns the lines of the file into the walk with its
edits, and its details, from the top down, describe them. -/
theorem applyEdits_walk (hw : ∀ c, .write c ∉ ops)
    (hacc : (applyEdits content ops filePath scheme).output = .editsApplied result) :
    ∃ es, Targets (splitLines content) scheme ops es ∧
      (applyEdits content ops filePath scheme).newContent =
        some (joinLines (walk es (splitLines content))) ∧
      ∃ order : List (Edit Text), order.Perm es ∧
        (order.Pairwise fun e f => e.stop ≤ f.start) ∧
        List.Forall₂ (Describes (splitLines content) (walk es (splitLines content))) order
          (applyEdits content ops filePath scheme).editDetails := by
  obtain ⟨rs, hrs, hnone, heq⟩ := applyEdits_accepted hw hacc
  obtain ⟨hstacked, happ⟩ := applied_applyResolved hrs hnone ops.length filePath
  have htargets : Targets (splitLines content) scheme ops (rs.map ResolvedOp.edit) :=
    forall₂_map_right_iff.mpr (resolveOps_ok hrs).1
  have hperm : ((topDown rs).map ResolvedOp.edit).Perm (rs.map ResolvedOp.edit) :=
    (topDown_perm rs).map _
  have hdetails := forall₂_describes hstacked fun e he =>
    (htargets.fits e (hperm.mem_iff.mp he)).inside
  have hwalk : walk ((topDown rs).map ResolvedOp.edit) (splitLines content) =
      walk (rs.map ResolvedOp.edit) (splitLines content) :=
    walk_congr _ (filter_edits_topDown (resolveOps_ok hrs).2)
  rw [hwalk] at hdetails
  rw [heq]
  exact ⟨_, htargets, happ.newContent, _, hperm, hstacked.separate, happ.editDetails ▸ hdetails⟩

/-- Only the order of the operations at one position matters. -/
theorem applyEdits_reorder (hw : ∀ c, .write c ∉ ops)
    (hacc : (applyEdits content ops filePath scheme).output = .editsApplied result)
    (h : SamePerPosition (splitLines content) scheme ops ops') :
    (∃ warnings, (applyEdits content ops' filePath scheme).output =
        .editsApplied { result with applied := ops'.length, warnings }) ∧
      (applyEdits content ops' filePath scheme).newContent =
        (applyEdits content ops filePath scheme).newContent ∧
      (applyEdits content ops' filePath scheme).editDetails =
        (applyEdits content ops filePath scheme).editDetails := by
  obtain ⟨rs, hrs, hnone, heq⟩ := applyEdits_accepted hw hacc
  have htargets : Targets (splitLines content) scheme ops (rs.map ResolvedOp.edit) :=
    forall₂_map_right_iff.mpr (resolveOps_ok hrs).1
  have hord : ∀ r ∈ rs, r.start ≤ r.stop := fun r hr =>
    (htargets.fits _ (List.mem_map_of_mem hr)).ordered
  obtain ⟨rs', hrs'⟩ := exists_resolveOps ops'.length 0 fun op hop =>
    htargets.exists_of_mem (h.mem hop)
  have htop := topDown_congr h hrs hrs'
  have hnone' := checkOverlaps_congr hord htop hnone
  have heq' : applyEdits content ops' filePath scheme =
      applyResolved (splitLines content) rs' ops'.length filePath scheme := by
    rw [applyEdits_eq fun c hc => hw c (h.mem hc), hrs']
    simp only [hnone']
  have hfold : (rs'.insertionSort spliceOrder).foldl splice (splitLines content) =
      (rs.insertionSort spliceOrder).foldl splice (splitLines content) := by
    rw [foldl_splice, foldl_splice, htop]
  have htrack : trackRegions (splitLines content) 0 (rs'.insertionSort spliceOrder).reverse =
      trackRegions (splitLines content) 0 (rs.insertionSort spliceOrder).reverse := by
    have h' := trackRegions_eq (splitLines content) 0 (topDown rs')
    rw [htop, ← trackRegions_eq] at h'
    exact h'
  rw [heq] at hacc ⊢
  rw [heq']
  cases hacc
  refine ⟨⟨rs'.filterMap fun op => rangeWarning op.start op.stop, ?_⟩, ?_, ?_⟩
  · simp only [applyResolved, hfold, htrack]
  · simp only [applyResolved, hfold]
  · simp only [applyResolved, htrack]

/-- For a file without carriage returns and a batch of replacements and
insertions that `apply_edits` accepts: the new lines are the walk over the
old lines with the edits of the batch, each detail describes its edit, and
a batch with the same operations at each position gives the same result. -/
theorem applyEdits_simultaneous (content : Text) (ops : List HashlineOp) (filePath : Text)
    (scheme : AnchorScheme) {result : HashlineEditsApplied} (hcr : '\r' ∉ content)
    (hw : ∀ c, .write c ∉ ops)
    (hacc : (applyEdits content ops filePath scheme).output = .editsApplied result) :
    ∃ es newContent, Targets (content.splitOn '\n') scheme ops es ∧
      (applyEdits content ops filePath scheme).newContent = some newContent ∧
      newContent = joinLines (walk es (content.splitOn '\n')) ∧
      (walk es (content.splitOn '\n') ≠ [] →
        newContent.splitOn '\n' = walk es (content.splitOn '\n')) ∧
      (∃ order : List (Edit Text), order.Perm es ∧
        (order.Pairwise fun e f => e.stop ≤ f.start) ∧
        List.Forall₂ (Describes (content.splitOn '\n') (walk es (content.splitOn '\n'))) order
          (applyEdits content ops filePath scheme).editDetails) ∧
      ∀ ops', SamePerPosition (content.splitOn '\n') scheme ops ops' →
        (∃ warnings, (applyEdits content ops' filePath scheme).output =
          .editsApplied { result with applied := ops'.length, warnings }) ∧
        (applyEdits content ops' filePath scheme).newContent = some newContent ∧
        (applyEdits content ops' filePath scheme).editDetails =
          (applyEdits content ops filePath scheme).editDetails := by
  have hsplit := splitLines_eq_splitOn hcr
  obtain ⟨es, htargets, hnew, hdetails⟩ := applyEdits_walk hw hacc
  have hlines := newline_notMem_walk (newline_notMem_splitLines content)
    (fun e he => (htargets.fits e he).isLines)
  rw [hsplit] at htargets hnew hdetails hlines
  refine ⟨es, _, htargets, hnew, rfl, splitOn_intercalate _ hlines, hdetails, ?_⟩
  intro ops' h
  rw [← hsplit] at h
  obtain ⟨hout, hcontent, hdet⟩ := applyEdits_reorder hw hacc h
  exact ⟨hout, hcontent.trans hnew, hdet⟩

/-- A scheme with two-letter hashes and chunks of two lines. -/
def smallChunks : AnchorScheme :=
  .chunk { hashLen := ⟨2, by decide⟩, chunkSize := ⟨2, by decide⟩ }

/-- Append a line at the end and replace the first one. -/
def appendAndReplace : List HashlineOp :=
  [.insertAfter "EOF".toList "y".toList, .replace "1:ob:bx".toList none "x".toList]

theorem applyEdits_simultaneous_appendAndReplace :
    ∃ es newContent, Targets ("a\nb\n".toList.splitOn '\n') smallChunks appendAndReplace es ∧
      newContent = joinLines (walk es ("a\nb\n".toList.splitOn '\n')) ∧
      newContent = "x\nb\ny\n".toList := by
  obtain ⟨es, newContent, htargets, hnew, hwalk, -⟩ :=
    applyEdits_simultaneous "a\nb\n".toList appendAndReplace [] smallChunks (by decide)
      (by simp [appendAndReplace]) rfl
  exact ⟨es, newContent, htargets, hwalk, Option.some.inj (hnew.symm.trans rfl)⟩

end GrokBuild.Hashline
