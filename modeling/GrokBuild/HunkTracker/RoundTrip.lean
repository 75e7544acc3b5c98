import GrokBuild.HunkTracker.Mutations
import GrokBuild.HunkTracker.Actions

/-!
# Hunk tracker: reverting and accepting a whole diff

The diff counts lines by `similar`'s tokens, `patch_lines` by `str::lines`,
and `patch_lines` joins with `'\n'` and decides about the final newline
once. This module says when the two views agree, so that reverting every
hunk of a diff gives the baseline back and accepting every hunk gives the
current text.

The argument follows the patches from the last hunk to the first. After
the hunks from some point of the script on are reverted, the text is the
new lines before that point and the old lines after it; `Lined` is what
keeps line numbers meaningful in such a mixed text, and `patchLines_lined`
is one step. `Short` is the opposite invariant: once a patch has lost a
newline, no later patch brings it back.
-/

namespace GrokBuild.HunkTracker

open TextLines Str EditScript List

/-! ## Tokens -/

/-- A token with a terminator. -/
def Terminated (t : Text) : Prop := t.getLast? = some '\n' ∨ t.getLast? = some '\r'

variable {t : Text}

theorem Terminated.cons (h : Terminated t) (c : Char) : Terminated (c :: t) := by
  cases t with
  | nil => simp [Terminated] at h
  | cons d t => simpa [Terminated] using h

theorem terminated_of_endsToken {c : Char} {s : Text} (h : endsToken c s = true) :
    Terminated [c] := by
  simp only [endsToken, Bool.or_eq_true, beq_iff_eq, Bool.and_eq_true] at h
  rcases h with rfl | ⟨rfl, -⟩
  · exact .inl rfl
  · exact .inr rfl

/-- Tokens are not empty and have a newline at most at their end. -/
theorem token_shape (s : Text) : ∀ t ∈ tokenizeLines s, t ≠ [] ∧ '\n' ∉ t.dropLast := by
  induction s with
  | nil => simp [tokenizeLines]
  | cons c s ih =>
    rw [tokenizeLines]
    split
    · simpa using ih
    · next hc =>
      have hne : c ≠ '\n' := by
        rintro rfl
        simp [endsToken] at hc
      split
      · simp
      · next t ts ht =>
        rw [ht] at ih
        intro u hu
        rcases mem_cons.mp hu with rfl | hu
        · obtain ⟨h1, h2⟩ := ih t (by simp)
          refine ⟨by simp, ?_⟩
          rw [dropLast_cons_of_ne_nil h1]
          simpa [Ne.symm hne] using h2
        · exact ih u (by simp [hu])

theorem terminated_of_append (s : Text) : ∀ {Q S : List Text},
    tokenizeLines s = Q ++ S → S ≠ [] → ∀ t ∈ Q, Terminated t := by
  induction s with
  | nil =>
    intro Q S h hne
    simp [tokenizeLines] at h
    exact absurd h.2 hne
  | cons c s ih =>
    intro Q S h hne
    rw [tokenizeLines] at h
    cases Q with
    | nil => simp
    | cons q Q =>
      rw [cons_append] at h
      split at h
      · next hc =>
        obtain ⟨rfl, htail⟩ := List.cons.inj h
        intro t ht
        rcases mem_cons.mp ht with rfl | ht
        · exact terminated_of_endsToken hc
        · exact ih htail hne t ht
      · split at h
        · exact absurd (append_eq_nil_iff.mp (List.cons.inj h).2.symm).2 hne
        · next u us hu =>
          obtain ⟨rfl, htail⟩ := List.cons.inj h
          have hall := ih (Q := u :: Q) (by rw [hu, htail, cons_append]) hne
          intro t ht
          rcases mem_cons.mp ht with rfl | ht
          · exact (hall u (by simp)).cons c
          · exact hall t (by simp [ht])

/-! ## Token lists that are lines -/

/-- A token without a carriage return: a line, with or without its
newline. -/
def LineToken (t : Text) : Prop := t ≠ [] ∧ '\n' ∉ t.dropLast ∧ '\r' ∉ t

/-- The line of a token. -/
def lineBody (t : Text) : Text := if endsNl t then t.dropLast else t

/-- Tokens in front of a text `R` that `str::lines` sees one by one. -/
structure Lined (Q : List Text) (R : Text) : Prop where
  token : ∀ t ∈ Q, LineToken t
  inner : ∀ t ∈ Q.dropLast, endsNl t = true
  outer : R ≠ [] → ∀ t ∈ Q, endsNl t = true

theorem LineToken.ends_of_terminated (h : LineToken t) (ht : Terminated t) : endsNl t = true := by
  rcases ht with ht | ht
  · simp [endsNl, ht]
  · exact absurd (mem_of_getLast? ht) h.2.2

theorem eq_append_newline (h : endsNl t = true) : t = t.dropLast ++ ['\n'] := by
  have hl : t.getLast? = some '\n' := by simpa [endsNl] using h
  exact (dropLast_append_getLast? _ hl).symm

theorem LineToken.newline_notMem (h : LineToken t) (he : endsNl t = false) : '\n' ∉ t := by
  intro hm
  rw [← dropLast_append_getLast h.1] at hm
  rcases mem_append.mp hm with hm | hm
  · exact h.2.1 hm
  · have hl : t.getLast? = some '\n' := by
      rw [getLast?_eq_getLast_of_ne_nil h.1]
      simpa using (mem_singleton.mp hm).symm
    simp [endsNl, hl] at he

variable {Q : List Text} {R : Text}

theorem Lined.tail (h : Lined (t :: Q) R) : Lined Q R where
  token u hu := h.token u (by simp [hu])
  inner u hu := by
    cases Q with
    | nil => simp at hu
    | cons q Q => exact h.inner u (by simp [hu])
  outer hR u hu := h.outer hR u (by simp [hu])

theorem lines_lined (h : Lined Q R) : lines (Q.flatten ++ R) = Q.map lineBody ++ lines R := by
  induction Q with
  | nil => rfl
  | cons t Q ih =>
    have ht : LineToken t := h.token t (by simp)
    rw [flatten_cons, append_assoc, map_cons, cons_append, ← ih h.tail]
    cases he : endsNl t with
    | true =>
      have hcr : (t.dropLast).getLast? ≠ some '\r' := fun hl =>
        ht.2.2 (dropLast_subset _ (mem_of_getLast? hl))
      conv_lhs => rw [eq_append_newline he]
      rw [append_assoc, singleton_append, lines_cons ht.2.1, stripCr, if_neg hcr,
        lineBody, if_pos he]
    | false =>
      -- an unterminated token is the last one, and nothing follows
      have hQ : Q = [] := by
        by_contra hQ
        have := h.inner t (by cases Q <;> simp_all)
        simp [he] at this
      have hR : R = [] := by
        by_contra hR
        have := h.outer hR t (by simp)
        simp [he] at this
      subst hQ hR
      simp [lineBody, he, lines_last (ht.newline_notMem he) ht.1]

theorem Lined.cr_notMem (h : Lined Q R) : '\r' ∉ Q.flatten := by
  intro hm
  obtain ⟨t, ht, hc⟩ := mem_flatten.mp hm
  exact (h.token t ht).2.2 hc

theorem Lined.right {P D : List Text} (h : Lined (P ++ D) R) : Lined D [] where
  token t ht := h.token t (by simp [ht])
  inner t ht := by
    have hD : D ≠ [] := by rintro rfl; simp at ht
    exact h.inner t (by rw [dropLast_append_of_ne_nil hD]; simp [ht])
  outer hR := absurd rfl hR

theorem NoCrlf.append_left {X : Text} (hX : '\r' ∉ X) (hR : NoCrlf R) : NoCrlf (X ++ R) := by
  induction X with
  | nil => exact hR
  | cons x X ih =>
    intro hc
    rw [cons_append, infix_cons_iff] at hc
    rcases hc with hc | hc
    · exact hX (mem_cons.mpr (.inl (cons_prefix_cons.mp hc).1))
    · exact ih (fun h => hX (by simp [h])) hc

/-! ## One patch -/

/-- What a patch leaves: the final newline depends on the text it started
from. -/
def withFinalNl (nl : Bool) (out : Text) : Text :=
  if nl = true ∧ out ≠ [] then out ++ ['\n'] else out

theorem patchLines_eq (t : Text) (n k : Nat) (ins : Text) :
    patchLines t n k ins = withFinalNl (endsNl t)
      (joinLines ((lines t).take (n - 1) ++ lines ins ++ (lines t).drop (n - 1 + k))) := by
  have hins : (if ins = [] then [] else lines ins) = lines ins := by
    split
    · next h => rw [h, lines_nil]
    · rfl
  simp only [patchLines, hins, withFinalNl]

/-- **One patch step.** In a mixed text the patch takes out the lines of
`A` and puts in those of `B`. -/
theorem patchLines_lined {P A B : List Text} (hA : Lined (P ++ A) R) (hB : Lined (P ++ B) R) :
    patchLines ((P ++ A).flatten ++ R) (P.length + 1) A.length B.flatten
      = withFinalNl (endsNl ((P ++ A).flatten ++ R))
          (joinLines (lines ((P ++ B).flatten ++ R))) := by
  have hins : lines B.flatten = B.map lineBody := by
    simpa using lines_lined hB.right
  have htake : (lines ((P ++ A).flatten ++ R)).take P.length = P.map lineBody := by
    rw [lines_lined hA, map_append, append_assoc]
    exact take_left' (by simp)
  have hdrop : (lines ((P ++ A).flatten ++ R)).drop (P.length + A.length) = lines R := by
    rw [lines_lined hA]
    exact drop_left' (by simp)
  rw [patchLines_eq, Nat.add_sub_cancel, htake, hdrop, hins, lines_lined hB, map_append]

theorem withFinalNl_join (h : NoCrlf t) (hne : t ≠ ['\n']) :
    withFinalNl (endsNl t) (joinLines (lines t)) = t := by
  have hj := joinLines_lines h
  cases he : endsNl t with
  | false =>
    rw [he] at hj
    simpa [withFinalNl] using hj
  | true =>
    rw [he, if_pos rfl] at hj
    have hout : joinLines (lines t) ≠ [] := by
      intro h0
      rw [h0] at hj
      exact hne hj.symm
    rw [withFinalNl, if_pos ⟨rfl, hout⟩, hj]

/-! ## Points of a script -/

/-- The new lines before a point of a script and the old lines after it. -/
def mixed (x y : List (Change Text)) : Text := (new x ++ old y).flatten

/-- Nothing, or a kept line, stands in front. -/
def AtStart (x : List (Change Text)) : Prop := x = [] ∨ ∃ x' e, x = x' ++ [.equal e]

theorem not_closed_run {r s : List (Change Text)} (hne : r ≠ []) (hr : IsRun r) :
    ¬ Closed (r ++ s) := by
  cases r with
  | nil => exact absurd rfl hne
  | cons d r =>
    intro h
    have hd := hr d (by simp)
    simp [Closed, hd] at h

section Points

variable {b c : Text} {x y r s : List (Change Text)}

theorem terminated_old (h : Correct (tokenizeLines b) (tokenizeLines c) (x ++ y))
    (hy : old y ≠ []) : ∀ t ∈ old x, Terminated t :=
  terminated_of_append b (by rw [← h.1, old_append]) hy

theorem terminated_new (h : Correct (tokenizeLines b) (tokenizeLines c) (x ++ y))
    (hy : new y ≠ []) : ∀ t ∈ new x, Terminated t :=
  terminated_of_append c (by rw [← h.2, new_append]) hy

theorem Closed.sides_ne_nil (hs : Closed s) (h : s ≠ []) : old s ≠ [] ∧ new s ≠ [] := by
  cases s with
  | nil => exact absurd rfl h
  | cons d s =>
    cases d with
    | equal a => simp [old, new]
    | delete a => simp [Closed, Change.isEqual] at hs
    | insert a => simp [Closed, Change.isEqual] at hs

theorem lineToken_old (h : Correct (tokenizeLines b) (tokenizeLines c) (x ++ y))
    (hcr : '\r' ∉ (old x).flatten) : ∀ t ∈ old x, LineToken t := by
  intro t ht
  have hmem : t ∈ tokenizeLines b := by rw [← h.1, old_append]; simp [ht]
  obtain ⟨h1, h2⟩ := token_shape b t hmem
  exact ⟨h1, h2, fun hc => hcr (mem_flatten.mpr ⟨t, ht, hc⟩)⟩

theorem lineToken_new (h : Correct (tokenizeLines b) (tokenizeLines c) (x ++ y))
    (hcr : '\r' ∉ (new x).flatten) : ∀ t ∈ new x, LineToken t := by
  intro t ht
  have hmem : t ∈ tokenizeLines c := by rw [← h.2, new_append]; simp [ht]
  obtain ⟨h1, h2⟩ := token_shape c t hmem
  exact ⟨h1, h2, fun hc => hcr (mem_flatten.mpr ⟨t, ht, hc⟩)⟩

/-- After the regions behind a run are reverted, the text is still lined up
to the end of the run. -/
theorem lined_before (h : Correct (tokenizeLines b) (tokenizeLines c) (x ++ r ++ s))
    (hs : Closed s) (hcr : '\r' ∉ (new (x ++ r)).flatten) :
    Lined (new x ++ new r) (old s).flatten := by
  rw [← new_append]
  have htok := lineToken_new h hcr
  refine ⟨htok, fun t ht => ?_, fun hR t ht => ?_⟩
  · have hne : new (x ++ r) ≠ [] := by rintro h0; simp [h0] at ht
    refine (htok t (dropLast_subset _ ht)).ends_of_terminated ?_
    refine terminated_of_append c (Q := (new (x ++ r)).dropLast)
      (S := [(new (x ++ r)).getLast hne] ++ new s) ?_ (by simp) t ht
    rw [← h.2, new_append, ← append_assoc, dropLast_append_getLast]
  · have hs0 : s ≠ [] := by rintro rfl; simp [old] at hR
    exact (htok t ht).ends_of_terminated
      (terminated_new h (Closed.sides_ne_nil hs hs0).2 t ht)

theorem lined_after (h : Correct (tokenizeLines b) (tokenizeLines c) (x ++ r ++ s))
    (hx : AtStart x) (hne : r ≠ []) (hr : IsRun r) (hs : Closed s)
    (hold : '\r' ∉ (old (x ++ r)).flatten) (hnew : '\r' ∉ (new (x ++ r)).flatten) :
    Lined (new x ++ old r) (old s).flatten := by
  have htold := lineToken_old h hold
  have htnew := lineToken_new h hnew
  rw [old_append] at htold
  rw [new_append] at htnew
  have htok : ∀ t ∈ new x ++ old r, LineToken t := by
    intro t ht
    rcases mem_append.mp ht with ht | ht
    · exact htnew t (by simp [ht])
    · exact htold t (by simp [ht])
  have hassoc : Correct (tokenizeLines b) (tokenizeLines c) (x ++ (r ++ s)) := by
    rwa [← append_assoc]
  -- a removed line that follows makes every line before the run terminated
  have hbefore : old r ≠ [] → ∀ t ∈ new x, Terminated t := by
    intro hor t ht
    rcases hx with rfl | ⟨x', e, rfl⟩
    · simp [new] at ht
    · rw [new_append] at ht
      rcases mem_append.mp ht with ht | ht
      · refine terminated_new (b := b) (c := c) (x := x') (y := [.equal e] ++ (r ++ s)) ?_ ?_ t ht
        · rwa [← append_assoc]
        · simp [new]
      · obtain rfl : t = e := by simpa [new] using ht
        refine terminated_old hassoc ?_ t (by simp [old_append, old])
        simp [old_append, hor]
  refine ⟨htok, fun t ht => ?_, fun hR t ht => ?_⟩
  · by_cases hor : old r = []
    · -- a pure insertion: the lines before it are a proper part of the new text
      rw [hor, append_nil] at ht
      have hnr : new r ≠ [] := by
        cases r with
        | nil => exact absurd rfl hne
        | cons d r =>
          cases d with
          | equal a => simpa [Change.isEqual] using hr (.equal a) (by simp)
          | delete a => simp [old] at hor
          | insert a => simp [new]
      have ht' := dropLast_subset _ ht
      refine (htnew t (by simp [ht'])).ends_of_terminated (terminated_new hassoc ?_ t ht')
      simp [new_append, hnr]
    · rw [dropLast_append_of_ne_nil hor] at ht
      rcases mem_append.mp ht with ht | ht
      · exact (htnew t (by simp [ht])).ends_of_terminated (hbefore hor t ht)
      · refine (htold t (by simp [dropLast_subset _ ht])).ends_of_terminated ?_
        refine terminated_of_append b (Q := old x ++ (old r).dropLast)
          (S := [(old r).getLast hor] ++ old s) ?_ (by simp) t (by simp [ht])
        rw [← h.1, old_append, old_append]
        conv_lhs => rw [← dropLast_append_getLast hor]
        simp
  · have hs0 : s ≠ [] := by rintro rfl; simp [old] at hR
    obtain ⟨hos, hns⟩ := Closed.sides_ne_nil hs hs0
    refine (htok t ht).ends_of_terminated ?_
    rcases mem_append.mp ht with ht | ht
    · exact terminated_new h hns t (by simp [new_append, ht])
    · exact terminated_old h hos t (by simp [old_append, ht])

theorem mixed_endsNl (h : Correct (tokenizeLines b) (tokenizeLines c) (x ++ y))
    (hends : endsNl b = endsNl c) (hxy : AtStart x ∨ Closed y) :
    endsNl (mixed x y) = endsNl b := by
  have hb : b = (old x).flatten ++ (old y).flatten := by
    rw [← flatten_tokenizeLines b, ← h.1, old_append, flatten_append]
  have hc : c = (new x).flatten ++ (new y).flatten := by
    rw [← flatten_tokenizeLines c, ← h.2, new_append, flatten_append]
  by_cases hy : old y = []
  · rw [mixed, hy, append_nil]
    rcases hxy with (rfl | ⟨x', e, rfl⟩) | hy'
    · rw [hb, hy]; rfl
    · have he : e ≠ [] := (token_shape b e (by rw [← h.1]; simp [old_append, old])).1
      rw [hb, hy, flatten_nil, append_nil, new_append, old_append,
        flatten_append, flatten_append]
      simp only [old, new, flatten_cons, flatten_nil, append_nil]
      rw [endsNl_append he, endsNl_append he]
    · have hy0 : y = [] := by
        by_contra hne
        exact (Closed.sides_ne_nil hy' hne).1 hy
      subst hy0
      simp only [new, flatten_nil, append_nil] at hc
      rw [← hc, hends]
  · have hfl : (old y).flatten ≠ [] := by
      obtain ⟨t, ht⟩ := exists_mem_of_ne_nil _ hy
      have ht0 := (token_shape b t (by rw [← h.1, old_append]; simp [ht])).1
      simp only [ne_eq, flatten_eq_nil_iff, not_forall]
      exact ⟨t, ht, ht0⟩
    rw [mixed, flatten_append, endsNl_append hfl, hb, endsNl_append hfl]

/-! ## Reverting every region -/

/-- Revert the regions, last one first. -/
def revertAll (t : Text) (gs : List (Region Text)) : Text :=
  gs.foldr (fun g t => patchLines t g.newStart g.added.length g.removed.flatten) t

/-- The text once the regions from `g` on are reverted. -/
def revertedFrom (b c : Text) (g : Region Text) : Text :=
  ((tokenizeLines c).take (g.newStart - 1) ++ (tokenizeLines b).drop (g.oldStart - 1)).flatten

/-- When reverting `g` does what it should: the lines up to its end have no
carriage return, and it does not leave a single blank line, whose newline
`patch_lines` would drop. -/
structure Revertible (b c : Text) (g : Region Text) : Prop where
  oldCr : '\r' ∉ ((tokenizeLines b).take (g.oldStart - 1 + g.removed.length)).flatten
  newCr : '\r' ∉ ((tokenizeLines c).take (g.newStart - 1 + g.added.length)).flatten
  notBlank : revertedFrom b c g ≠ ['\n']

/-- The regions of the part of a script behind `x`. -/
def regionsFrom (x s : List (Change Text)) : List (Region Text) :=
  regions ((old x).length + 1) ((new x).length + 1) none s

/-- The region of a run of changes behind `x`. -/
def regionAt (x r : List (Change Text)) : Region Text :=
  ⟨(old x).length + 1, (new x).length + 1, old r, new r⟩

theorem regionsFrom_equal (x : List (Change Text)) (a : Text) (s : List (Change Text)) :
    regionsFrom x (.equal a :: s) = regionsFrom (x ++ [.equal a]) s := by
  simp [regionsFrom, old_append, new_append, old, new]

theorem regionsFrom_run (hne : r ≠ []) (hr : IsRun r) (hs : Closed s) :
    regionsFrom x (r ++ s) = regionAt x r :: regionsFrom (x ++ r) s := by
  rw [regionsFrom, regions_block hne hr hs, regionAt, regionsFrom, old_append, new_append]
  congr 2 <;> simp only [length_append] <;> omega

theorem mixed_equal (x : List (Change Text)) (a : Text) (s : List (Change Text)) :
    mixed (x ++ [.equal a]) s = mixed x (.equal a :: s) := by
  simp [mixed, new_append, old, new]

theorem revertedFrom_regionAt (h : Correct (tokenizeLines b) (tokenizeLines c) (x ++ r ++ s)) :
    revertedFrom b c (regionAt x r) = mixed x (r ++ s) := by
  rw [revertedFrom, ← h.1, ← h.2]
  simp [regionAt, mixed, old_append, new_append]

theorem Revertible.cr_notMem (h : Correct (tokenizeLines b) (tokenizeLines c) (x ++ r ++ s))
    (hg : Revertible b c (regionAt x r)) :
    '\r' ∉ (old (x ++ r)).flatten ∧ '\r' ∉ (new (x ++ r)).flatten := by
  obtain ⟨h1, h2, -⟩ := hg
  have hold : (tokenizeLines b).take ((old x).length + (old r).length) = old (x ++ r) := by
    rw [← h.1, old_append]
    exact take_left' (by simp [old_append])
  have hnew : (tokenizeLines c).take ((new x).length + (new r).length) = new (x ++ r) := by
    rw [← h.2, new_append]
    exact take_left' (by simp [new_append])
  simp only [regionAt, Nat.add_sub_cancel, hold, hnew] at h1 h2
  exact ⟨h1, h2⟩

theorem revertAll_run (hne : r ≠ []) (hr : IsRun r) (hs : Closed s) :
    revertAll c (regionsFrom x (r ++ s))
      = patchLines (revertAll c (regionsFrom (x ++ r) s)) ((new x).length + 1) (new r).length
          (old r).flatten := by
  rw [regionsFrom_run hne hr hs]
  rfl

/-- The step of both invariants: a run is reverted in the mixed text behind
it. -/
theorem revert_run_eq (h : Correct (tokenizeLines b) (tokenizeLines c) (x ++ r ++ s))
    (hb : NoCrlf b) (hends : endsNl b = endsNl c) (hx : AtStart x) (hne : r ≠ [])
    (hr : IsRun r) (hs : Closed s)
    (hcr : '\r' ∉ (old (x ++ r)).flatten ∧ '\r' ∉ (new (x ++ r)).flatten) :
    patchLines (mixed (x ++ r) s) ((new x).length + 1) (new r).length (old r).flatten
      = if mixed x (r ++ s) = ['\n'] then [] else mixed x (r ++ s) := by
  have hbef := lined_before h hs hcr.2
  have haft := lined_after h hx hne hr hs hcr.1 hcr.2
  have hm1 : mixed (x ++ r) s = (new x ++ new r).flatten ++ (old s).flatten := by
    simp [mixed, new_append]
  have hm2 : mixed x (r ++ s) = (new x ++ old r).flatten ++ (old s).flatten := by
    simp [mixed, old_append]
  have hnl : endsNl (mixed (x ++ r) s) = endsNl (mixed x (r ++ s)) := by
    rw [mixed_endsNl h hends (.inr hs),
      mixed_endsNl (by rwa [← append_assoc]) hends (.inl hx)]
  have hcrlf : NoCrlf (mixed x (r ++ s)) := by
    have hbs : b = (old (x ++ r)).flatten ++ (old s).flatten := by
      rw [← flatten_tokenizeLines b, ← h.1, old_append, flatten_append]
    rw [hm2]
    exact NoCrlf.append_left haft.cr_notMem (NoCrlf.right (hbs ▸ hb))
  rw [hm1, patchLines_lined hbef haft, ← hm1, ← hm2, hnl]
  split
  · next hblank => rw [hblank]; rfl
  · next hblank => exact withFinalNl_join hcrlf hblank

variable {s₀ : List (Change Text)}

/-- **Reverting everything.** Behind any point of the script, reverting the
regions gives the old lines back. -/
theorem revertAll_regionsFrom (h : Correct (tokenizeLines b) (tokenizeLines c) s₀) (hb : NoCrlf b)
    (hends : endsNl b = endsNl c) (s : List (Change Text)) : ∀ x, s₀ = x ++ s →
    (AtStart x ∨ Closed s) → (∀ g ∈ regionsFrom x s, Revertible b c g) →
    revertAll c (regionsFrom x s) = mixed x s := by
  induction s using blockInduction with
  | nil =>
    rintro x rfl - -
    rw [append_nil] at h
    simp [regionsFrom, revertAll, mixed, old, h.2]
  | equal a s ih =>
    rintro x rfl - hg
    rw [regionsFrom_equal] at hg ⊢
    rw [← mixed_equal]
    exact ih _ (by simp) (.inl (.inr ⟨x, a, rfl⟩)) hg
  | run r s hne hr hs ih =>
    rintro x rfl hx hg
    have hx' : AtStart x := hx.resolve_right (not_closed_run hne hr)
    have h' : Correct (tokenizeLines b) (tokenizeLines c) (x ++ r ++ s) := by
      rwa [append_assoc]
    rw [regionsFrom_run hne hr hs] at hg
    have hhead := hg (regionAt x r) (by simp)
    rw [revertAll_run hne hr hs, ih (x ++ r) (by simp) (.inr hs) (fun g hm => hg g (by simp [hm])),
      revert_run_eq h' hb hends hx' hne hr hs (hhead.cr_notMem h'), if_neg]
    rw [← revertedFrom_regionAt h']
    exact hhead.notBlank

/-! ## Losing a newline -/

/-- Fewer newlines than lines. -/
def Short (t : Text) (n : Nat) : Prop := t = [] ∨ t.count '\n' < n

/-- **A lost newline stays lost.** A patch of a short text that keeps some
line behind the patched ones, or of a text without final newline, leaves a
short text. -/
theorem Short.patch {t ins : Text} {p k m d : Nat} (h : Short t (p + k + m))
    (hm : 0 < m ∨ endsNl t = false) (hd : (lines ins).length ≤ d) :
    Short (patchLines t (p + 1) k ins) (p + d + m) := by
  obtain ⟨L, hL, hlen, hout⟩ : ∃ L : List Text, (∀ l ∈ L, '\n' ∉ l) ∧
      L.length ≤ p + d + ((lines t).length - (p + k)) ∧
      patchLines t (p + 1) k ins = withFinalNl (endsNl t) (joinLines L) := by
    refine ⟨_, ?_, ?_, patchLines_eq _ _ _ _⟩
    · intro l hl
      rcases mem_append.mp hl with hl | hl
      · rcases mem_append.mp hl with hl | hl
        · exact newline_notMem_lines t l (mem_of_mem_take hl)
        · exact newline_notMem_lines ins l hl
      · exact newline_notMem_lines t l (mem_of_mem_drop hl)
    · simp only [length_append, length_take, length_drop, Nat.add_sub_cancel]
      omega
  rw [hout]
  by_cases h0 : joinLines L = []
  · exact .inl (by simp [withFinalNl, h0])
  · right
    have hpos : 0 < L.length := length_pos_iff.mpr (by rintro rfl; exact h0 rfl)
    have hcount := count_joinLines hL
    have hlines := length_lines t
    cases he : endsNl t with
    | false =>
      have hle : (lines t).length ≤ p + k + m ∨ (lines t).length = 0 := by
        rcases h with rfl | h
        · exact .inr rfl
        · left
          split at hlines <;> omega
      simp only [withFinalNl, Bool.false_eq_true, false_and, if_false, hcount]
      omega
    | true =>
      have hm' : 0 < m := hm.resolve_right (by simp [he])
      have ht : t ≠ [] := by rintro rfl; simp [endsNl] at he
      have hlt : t.count '\n' < p + k + m := h.resolve_left ht
      rw [if_pos (.inr he)] at hlines
      rw [withFinalNl, if_pos ⟨rfl, h0⟩, List.count_append, hcount]
      simp only [count_singleton_self]
      omega

theorem cr_notMem_of_append (hx : Correct (tokenizeLines b) (tokenizeLines c) (x ++ s))
    (hb : '\r' ∉ b) (hc : '\r' ∉ c) :
    '\r' ∉ (old x).flatten ∧ '\r' ∉ (new x).flatten := by
  constructor
  · intro h
    apply hb
    rw [← flatten_tokenizeLines b, ← hx.1, old_append, flatten_append]
    exact mem_append_left _ h
  · intro h
    apply hc
    rw [← flatten_tokenizeLines c, ← hx.2, new_append, flatten_append]
    exact mem_append_left _ h

theorem lined_tokenizeLines (h : '\r' ∉ b) : Lined (tokenizeLines b) [] where
  token t ht := by
    obtain ⟨h1, h2⟩ := token_shape b t ht
    refine ⟨h1, h2, fun hc => h ?_⟩
    rw [← flatten_tokenizeLines b]
    exact mem_flatten.mpr ⟨t, ht, hc⟩
  inner t ht := by
    have hne : tokenizeLines b ≠ [] := by intro h0; simp [h0] at ht
    have hterm := terminated_of_append b
      (dropLast_append_getLast hne).symm (cons_ne_nil _ _) t ht
    rcases hterm with hl | hl
    · simp [endsNl, hl]
    · refine absurd ?_ h
      rw [← flatten_tokenizeLines b]
      exact mem_flatten.mpr ⟨t, dropLast_subset _ ht, mem_of_getLast? hl⟩
  outer hR := absurd rfl hR

theorem length_tokenizeLines (h : '\r' ∉ b) :
    (tokenizeLines b).length = b.count '\n' + (if b = [] ∨ endsNl b = true then 0 else 1) := by
  have hlen := congrArg List.length (lines_lined (lined_tokenizeLines h))
  rw [append_nil, flatten_tokenizeLines, length_lines] at hlen
  simpa using hlen.symm

theorem short_iff_endsNl (h : '\r' ∉ b) : Short b (tokenizeLines b).length ↔ endsNl b = false := by
  rw [length_tokenizeLines h, Short]
  by_cases h0 : b = []
  · simp [h0, endsNl]
  · cases he : endsNl b <;> simp [h0]

theorem Short.run (h : Correct (tokenizeLines b) (tokenizeLines c) (x ++ r ++ s))
    (hb : '\r' ∉ b) (hc : '\r' ∉ c) (hx : AtStart x) (hne : r ≠ []) (hr : IsRun r)
    (hs : Closed s)
    (hsh : Short (revertAll c (regionsFrom (x ++ r) s))
      ((new (x ++ r)).length + (old s).length)) :
    Short (revertAll c (regionsFrom x (r ++ s))) ((new x).length + (old (r ++ s)).length) := by
  have hcr := cr_notMem_of_append h hb hc
  have hd : (lines (old r).flatten).length = (old r).length := by
    have := lines_lined (lined_after h hx hne hr hs hcr.1 hcr.2).right
    simp only [append_nil, lines_nil] at this
    simp [this]
  have hm : 0 < (old s).length ∨ endsNl (revertAll c (regionsFrom (x ++ r) s)) = false := by
    by_cases hs0 : s = []
    · subst hs0
      right
      rw [append_nil] at h
      have hnew : (new (x ++ r)).length = (tokenizeLines c).length := by rw [h.2]
      simp only [regionsFrom, regions_nil, revertAll, foldr_nil, old, length_nil,
        Nat.add_zero, hnew] at hsh ⊢
      exact (short_iff_endsNl hc).mp hsh
    · exact .inl (length_pos_iff.mpr (Closed.sides_ne_nil hs hs0).1)
  rw [new_append, length_append] at hsh
  rw [revertAll_run hne hr hs, old_append, length_append, ← Nat.add_assoc]
  exact hsh.patch hm hd.le

theorem sides_equal (x s : List (Change Text)) (a : Text) :
    (new x).length + (old (.equal a :: s)).length =
      (new (x ++ [.equal a])).length + (old s).length := by
  simp [new_append, new, old]
  omega

theorem revertAll_short (h : Correct (tokenizeLines b) (tokenizeLines c) s₀) (hb : '\r' ∉ b)
    (hc : '\r' ∉ c) (hends : endsNl c = false) (s : List (Change Text)) : ∀ x, s₀ = x ++ s →
    (AtStart x ∨ Closed s) →
    Short (revertAll c (regionsFrom x s)) ((new x).length + (old s).length) := by
  induction s using blockInduction with
  | nil =>
    rintro x rfl -
    rw [append_nil] at h
    simpa [regionsFrom, revertAll, old, h.2] using (short_iff_endsNl hc).mpr hends
  | equal a s ih =>
    rintro x rfl -
    rw [regionsFrom_equal, sides_equal]
    exact ih (x ++ [.equal a]) (by simp) (.inl (.inr ⟨x, a, rfl⟩))
  | run r s hne hr hs ih =>
    rintro x rfl hx
    have hx' : AtStart x := hx.resolve_right (not_closed_run hne hr)
    have h' : Correct (tokenizeLines b) (tokenizeLines c) (x ++ r ++ s) := by
      rwa [append_assoc]
    exact Short.run h' hb hc hx' hne hr hs (ih (x ++ r) (by simp) (.inr hs))

theorem revertAll_notBlank_or_short (h : Correct (tokenizeLines b) (tokenizeLines c) s₀)
    (hb : '\r' ∉ b) (hc : '\r' ∉ c) (hends : endsNl b = endsNl c) (s : List (Change Text)) :
    ∀ x, s₀ = x ++ s →
    (AtStart x ∨ Closed s) →
    (revertAll c (regionsFrom x s) = mixed x s ∧
        ∀ g ∈ regionsFrom x s, revertedFrom b c g ≠ ['\n'])
      ∨ (endsNl b = true ∧
        Short (revertAll c (regionsFrom x s)) ((new x).length + (old s).length)) := by
  induction s using blockInduction with
  | nil =>
    rintro x rfl -
    rw [append_nil] at h
    simp [regionsFrom, revertAll, mixed, old, h.2]
  | equal a s ih =>
    rintro x rfl -
    rw [regionsFrom_equal, ← mixed_equal, sides_equal]
    exact ih (x ++ [.equal a]) (by simp) (.inl (.inr ⟨x, a, rfl⟩))
  | run r s hne hr hs ih =>
    rintro x rfl hx
    have hx' : AtStart x := hx.resolve_right (not_closed_run hne hr)
    have h' : Correct (tokenizeLines b) (tokenizeLines c) (x ++ r ++ s) := by
      rwa [append_assoc]
    rcases ih (x ++ r) (by simp) (.inr hs) with ⟨heq, hall⟩ | ⟨he, hsh⟩
    · have hstep := revert_run_eq h' (NoCrlf.of_cr_notMem hb) hends hx' hne hr hs
        (cr_notMem_of_append h' hb hc)
      rw [← heq, ← revertAll_run hne hr hs] at hstep
      by_cases hblank : mixed x (r ++ s) = ['\n']
      · right
        have hnl := mixed_endsNl (by rwa [← append_assoc]) hends (Or.inl hx')
        rw [hblank] at hnl
        rw [if_pos hblank] at hstep
        exact ⟨hnl.symm, .inl hstep⟩
      · left
        rw [if_neg hblank] at hstep
        refine ⟨hstep, ?_⟩
        rw [regionsFrom_run hne hr hs]
        intro g hg
        rcases mem_cons.mp hg with rfl | hg
        · rwa [revertedFrom_regionAt h']
        · exact hall g hg
    · exact .inr ⟨he, Short.run h' hb hc hx' hne hr hs hsh⟩

/-! ## Carriage returns do not survive a patch -/

theorem NoLoneCr.tokens (h : NoLoneCr b) : ∀ t ∈ tokenizeLines b, NoLoneCr t := by
  induction b with
  | nil => simp [tokenizeLines]
  | cons d b ih =>
    obtain ⟨h1, h2⟩ := h
    rw [tokenizeLines]
    split
    · next hd =>
      have hne : d ≠ '\r' := by
        rintro rfl
        simp [endsToken, h1 rfl] at hd
      intro t ht
      rcases mem_cons.mp ht with rfl | ht
      · exact ⟨fun h => absurd h hne, trivial⟩
      · exact ih h2 t ht
    · split
      · next hnil =>
        have hb : b = [] := by rw [← flatten_tokenizeLines b, hnil]; rfl
        subst hb
        simpa [NoLoneCr] using h1
      · next u us hu =>
        rw [hu] at ih
        intro t ht
        rcases mem_cons.mp ht with rfl | ht
        · refine ⟨fun hd => ?_, ih h2 u (by simp)⟩
          have hu0 := (token_shape b u (by simp [hu])).1
          have hhead := h1 hd
          rw [← flatten_tokenizeLines b, hu, flatten_cons,
            head?_append_of_ne_nil _ hu0] at hhead
          exact hhead
        · exact ih h2 t (by simp [ht])

theorem cr_notMem_patchLines {t ins : Text} (ht : NoLoneCr t) (hins : NoLoneCr ins) (n k : Nat) :
    '\r' ∉ patchLines t n k ins := by
  have hout : '\r' ∉ joinLines
      ((lines t).take (n - 1) ++ lines ins ++ (lines t).drop (n - 1 + k)) := by
    apply cr_notMem_joinLines
    intro l hl
    rcases mem_append.mp hl with hl | hl
    · rcases mem_append.mp hl with hl | hl
      · exact NoLoneCr.lines ht l (mem_of_mem_take hl)
      · exact NoLoneCr.lines hins l hl
    · exact NoLoneCr.lines ht l (mem_of_mem_drop hl)
  rw [patchLines_eq, withFinalNl]
  split
  · simp only [mem_append, not_or]
    exact ⟨hout, by simp⟩
  · exact hout

theorem cr_notMem_revertAll (hc : NoLoneCr c) : ∀ {gs : List (Region Text)}, gs ≠ [] →
    (∀ g ∈ gs, NoLoneCr g.removed.flatten) → '\r' ∉ revertAll c gs := by
  intro gs
  induction gs with
  | nil => exact fun h => absurd rfl h
  | cons g gs ih =>
    intro _ hgs
    have hrest : NoLoneCr (revertAll c gs) := by
      by_cases h0 : gs = []
      · subst h0
        exact hc
      · exact NoLoneCr.of_cr_notMem (ih h0 (fun g hg => hgs g (by simp [hg])))
    exact cr_notMem_patchLines hrest (hgs g (by simp)) _ _

end Points

/-! ## The whole diff -/

/-- What it takes for the hunks of `b` and `c` to lead back to `b` and on to
`c`: texts that are diffed at all, no CRLF, no carriage return up to the
last hunk, the same kind of end, and no patch that leaves one blank line. -/
structure Restorable (D : LineDiff) (b c : Text) : Prop where
  small : byteLen b ≤ maxDiffFileSize ∧ byteLen c ≤ maxDiffFileSize
  noCrlf : NoCrlf b ∧ NoCrlf c
  ends : endsNl b = endsNl c
  revert : ∀ g ∈ diffRegions D b c, Revertible b c g
  accept : ∀ g ∈ diffRegions D b c, Revertible c b g.undo

section Whole

variable (D : LineDiff) (b c : Text)

/-- Accept the regions, last one first. -/
def acceptAll (t : Text) (gs : List (Region Text)) : Text := revertAll t (gs.map Region.undo)

theorem diffLines_undo :
    Correct (tokenizeLines c) (tokenizeLines b) (undo (diffLines D b c)) := by
  obtain ⟨h1, h2⟩ := diffLines_correct D b c
  exact ⟨by rw [old_undo]; exact h2, by rw [new_undo]; exact h1⟩

theorem diffRegions_undo :
    (diffRegions D b c).map Region.undo = regionsFrom [] (undo (diffLines D b c)) :=
  (regions_undo (diffLines D b c) 1 1).symm

variable {D b c} {s : List (Change Text)}

theorem revertAll_eq_old (h : Correct (tokenizeLines b) (tokenizeLines c) s) (hb : NoCrlf b)
    (hends : endsNl b = endsNl c) (hg : ∀ g ∈ regionsFrom [] s, Revertible b c g) :
    revertAll c (regionsFrom [] s) = b := by
  rw [revertAll_regionsFrom h hb hends s [] rfl (.inl (.inl rfl)) hg, mixed]
  simp [new, h.1]

theorem Restorable.reverts (h : Restorable D b c) : revertAll c (diffRegions D b c) = b :=
  revertAll_eq_old (diffLines_correct D b c) h.noCrlf.1 h.ends h.revert

theorem Restorable.accepts (h : Restorable D b c) : acceptAll b (diffRegions D b c) = c := by
  rw [acceptAll, diffRegions_undo]
  refine revertAll_eq_old (diffLines_undo D b c) h.noCrlf.2 h.ends.symm ?_
  rw [← diffRegions_undo]
  intro g hg
  obtain ⟨g', hg', rfl⟩ := List.mem_map.mp hg
  exact h.accept g' hg'

theorem regionsFrom_ne_nil (h : Correct (tokenizeLines b) (tokenizeLines c) s) (hne : b ≠ c) :
    regionsFrom [] s ≠ [] := by
  intro h0
  have := old_eq_new_of_regions_nil s h0
  rw [h.1, h.2] at this
  exact hne (tokenizeLines_injective this)

theorem noLoneCr_removed (h : Correct (tokenizeLines b) (tokenizeLines c) s) (hb : NoLoneCr b) :
    ∀ g ∈ regionsFrom [] s, NoLoneCr g.removed.flatten := by
  intro g hg
  have hpart := (regions_content s _ _ g hg).1
  have hflat : ∀ Q : List Text, (∀ t ∈ Q, NoLoneCr t) → NoLoneCr Q.flatten := by
    intro Q
    induction Q with
    | nil => exact fun _ => trivial
    | cons t Q ih =>
      intro hQ
      exact (hQ t (by simp)).append (ih (fun u hu => hQ u (by simp [hu])))
  refine hflat _ (fun t ht => NoLoneCr.tokens hb t ?_)
  rw [← hpart, h.1] at ht
  exact mem_of_mem_drop (mem_of_mem_take ht)

theorem cr_notMem_of_revertAll (h : Correct (tokenizeLines b) (tokenizeLines c) s) (hne : b ≠ c)
    (hb : NoLoneCr b) (hc : NoLoneCr c) (hrev : revertAll c (regionsFrom [] s) = b) : '\r' ∉ b := by
  conv => rw [← hrev]
  exact cr_notMem_revertAll hc (regionsFrom_ne_nil h hne) (noLoneCr_removed h hb)

theorem endsNl_of_revertAll (h : Correct (tokenizeLines b) (tokenizeLines c) s) (hb : '\r' ∉ b)
    (hc : '\r' ∉ c) (hrev : revertAll c (regionsFrom [] s) = b) (hends : endsNl c = false) :
    endsNl b = false := by
  have := revertAll_short h hb hc hends s [] rfl (.inl (.inl rfl))
  rw [hrev, h.1] at this
  exact (short_iff_endsNl hb).mp (by simpa [new] using this)

theorem revertible_of_revertAll (h : Correct (tokenizeLines b) (tokenizeLines c) s) (hb : '\r' ∉ b)
    (hc : '\r' ∉ c) (hends : endsNl b = endsNl c) (hrev : revertAll c (regionsFrom [] s) = b) :
    ∀ g ∈ regionsFrom [] s, Revertible b c g := by
  have htake : ∀ {t : Text} (n : Nat), '\r' ∉ t → '\r' ∉ ((tokenizeLines t).take n).flatten := by
    intro t n ht hm
    apply ht
    rw [← flatten_tokenizeLines t]
    obtain ⟨u, hu, hr⟩ := mem_flatten.mp hm
    exact mem_flatten.mpr ⟨u, mem_of_mem_take hu, hr⟩
  intro g hg
  refine ⟨htake _ hb, htake _ hc, ?_⟩
  rcases revertAll_notBlank_or_short h hb hc hends s [] rfl (.inl (.inl rfl)) with ⟨-, hall⟩ | hsh
  · exact hall g hg
  · obtain ⟨he, hsh⟩ := hsh
    rw [hrev, h.1] at hsh
    have := (short_iff_endsNl hb).mp (by simpa [new] using hsh)
    rw [he] at this
    cases this

/-- **The converse**, for texts in which every carriage return belongs to a
CRLF: if reverting and accepting all regions works, then the texts are as
`Restorable` asks. -/
theorem restorable_of_roundTrip (hne : b ≠ c) (hb : NoLoneCr b) (hc : NoLoneCr c)
    (small : byteLen b ≤ maxDiffFileSize ∧ byteLen c ≤ maxDiffFileSize)
    (hrev : revertAll c (diffRegions D b c) = b)
    (hacc : acceptAll b (diffRegions D b c) = c) : Restorable D b c := by
  have hfwd : Correct (tokenizeLines b) (tokenizeLines c) (diffLines D b c) := diffLines_correct D b c
  have hbwd := diffLines_undo D b c
  rw [acceptAll, diffRegions_undo] at hacc
  have hbcr := cr_notMem_of_revertAll hfwd hne hb hc hrev
  have hccr := cr_notMem_of_revertAll hbwd hne.symm hc hb hacc
  have hends : endsNl b = endsNl c := by
    cases he : endsNl c with
    | false => exact endsNl_of_revertAll hfwd hbcr hccr hrev he
    | true =>
      cases hbe : endsNl b with
      | true => rfl
      | false =>
        have := endsNl_of_revertAll hbwd hccr hbcr hacc hbe
        rw [he] at this
        cases this
  refine ⟨small, ⟨.of_cr_notMem hbcr, .of_cr_notMem hccr⟩, hends,
    revertible_of_revertAll hfwd hbcr hccr hends hrev, fun g hg => ?_⟩
  refine revertible_of_revertAll hbwd hccr hbcr hends.symm hacc g.undo ?_
  rw [← diffRegions_undo]
  exact List.mem_map_of_mem hg

end Whole

/-! ## The stored hunks of a file -/

section Stored

open Actor

theorem insertionSort_eq_reverse {α : Type} (r : α → α → Prop) [DecidableRel r] {l : List α}
    (h : l.Pairwise fun a b => ¬ r a b) : l.insertionSort r = l.reverse := by
  induction l with
  | nil => rfl
  | cons a l ih =>
    obtain ⟨ha, hl⟩ := pairwise_cons.mp h
    rw [insertionSort_cons, ih hl, reverse_cons]
    have hrev : ∀ x ∈ l.reverse, ¬ r a x := fun x hx => ha x (mem_reverse.mp hx)
    generalize l.reverse = k at hrev
    induction k with
    | nil => rfl
    | cons x k ihk =>
      rw [orderedInsert_cons, if_neg (hrev x (by simp)),
        ihk (fun y hy => hrev y (by simp [hy]))]
      rfl

variable {D : LineDiff} {b c : Text} {p : PathBuf} {hs : List Hunk}

/-- Hunks with the ranges and texts of the regions of a diff. -/
def OfDiff (D : LineDiff) (p : PathBuf) (b c : Text) (hs : List Hunk) : Prop :=
  hs.map Hunk.bare = (diffRegions D b c).map (buildHunk p .external 0 ⟨0⟩)

theorem OfDiff.pairwise (h : OfDiff D p b c hs) :
    hs.Pairwise fun k l => k.lineInfo.oldStart < l.lineInfo.oldStart
      ∧ k.lineInfo.newStart < l.lineInfo.newStart := by
  have hg := regions_pairwise (diffLines D b c) 1 1
  have hbuilt : ((diffRegions D b c).map (buildHunk p .external 0 ⟨0⟩)).Pairwise fun k l =>
      k.lineInfo.oldStart < l.lineInfo.oldStart ∧ k.lineInfo.newStart < l.lineInfo.newStart := by
    rw [pairwise_map]
    refine hg.imp fun h => ?_
    simp only [buildHunk]
    omega
  rw [← h, pairwise_map] at hbuilt
  exact hbuilt

theorem OfDiff.revert_eq (h : OfDiff D p b c hs) (t : Text) :
    (hs.insertionSort fun k l => l.lineInfo.newStart ≤ k.lineInfo.newStart).foldl revertFrom t
      = revertAll t (diffRegions D b c) := by
  have hsort : hs.insertionSort (fun k l => l.lineInfo.newStart ≤ k.lineInfo.newStart)
      = hs.reverse := by
    apply insertionSort_eq_reverse
    exact h.pairwise.imp fun hlt => by omega
  calc (hs.insertionSort _).foldl revertFrom t
      = hs.foldr (fun k t => revertFrom t k) t := by rw [hsort, foldl_reverse]
    _ = (hs.map Hunk.bare).foldr (fun k t => revertFrom t k) t := by
        rw [foldr_map]; rfl
    _ = revertAll t (diffRegions D b c) := by
        rw [h, foldr_map, revertAll]
        congr 1
        funext g u
        simp only [revertFrom, buildHunk]
        split
        · next hnil => simp [List.isEmpty_iff.mp hnil]
        · rfl

theorem OfDiff.accept_eq (h : OfDiff D p b c hs) (t : Text) :
    (hs.insertionSort fun k l => l.lineInfo.oldStart ≤ k.lineInfo.oldStart).foldl acceptInto
        (.full t)
      = .full (acceptAll t (diffRegions D b c)) := by
  have hsort : hs.insertionSort (fun k l => l.lineInfo.oldStart ≤ k.lineInfo.oldStart)
      = hs.reverse := by
    apply insertionSort_eq_reverse
    exact h.pairwise.imp fun hlt => by omega
  have hfull : ∀ ks : List Hunk, ks.foldr (fun k s => acceptInto s k) (.full t)
      = .full (ks.foldr
          (fun k u => patchLines u k.lineInfo.oldStart k.lineInfo.oldCount k.newText) t) := by
    intro ks
    induction ks with
    | nil => rfl
    | cons k ks ih => rw [foldr_cons, ih]; rfl
  calc (hs.insertionSort _).foldl acceptInto (.full t)
      = hs.foldr (fun k s => acceptInto s k) (.full t) := by rw [hsort, foldl_reverse]
    _ = (hs.map Hunk.bare).foldr (fun k s => acceptInto s k) (.full t) := by
        rw [foldr_map]; rfl
    _ = .full (acceptAll t (diffRegions D b c)) := by
        rw [h, hfull, foldr_map, acceptAll, revertAll, foldr_map]
        rfl

/-- **Reject-all and accept-all.** Rejecting all hunks of a file succeeds,
makes `b` its content and, when there is a hunk at all, writes exactly `b`;
accepting all of them makes `c` the baseline and leaves no hunk. -/
def RestoresAll (D : LineDiff) (env : Env) (a : Actor) (p : PathBuf) (b c : Text) : Prop :=
  let rejected := a.rejectHunksBatch D env p (a.hunksAt p)
  let accepted := a.acceptHunksBatch D env p (a.hunksAt p)
  rejected.2 = .ok ()
    ∧ (rejected.1.file p).map (·.currentContent) = some (.full b)
    ∧ (a.hunksAt p ≠ [] → rejected.1.effects = a.effects ++ [.write p b])
    ∧ (accepted.file p).map (·.baseline) = some (.full c)
    ∧ accepted.hunksAt p = []

section Actions

variable {env : Env} {a : Actor} {st : FileHunkState}

theorem rejectHunksBatch_full (h : a.file p = some st) (hb : st.baseline = .full b)
    (hc : st.currentContent = .full c) (hne : hs ≠ []) (hd : OfDiff D p b c hs)
    (hw : env.writeOk p = true) :
    ∃ r st', a.rejectHunksBatch D env p hs = (r, .ok ())
      ∧ r.file p = some st' ∧ st'.currentContent = .full (revertAll c (diffRegions D b c))
      ∧ r.effects = a.effects ++ [.write p (revertAll c (diffRegions D b c))] := by
  have hact : rejectAction st hs = .revertChange (revertAll c (diffRegions D b c)) := by
    rw [rejectAction, hb, hc]
    simp only [hd.revert_eq]
  simp only [rejectHunksBatch, h, if_neg hne, hact, hw, if_true]
  generalize hm : Actor.sendEvents _ _ = m
  have hf : m.file p = some
      { st with
        currentContent := .full (revertAll c (diffRegions D b c)), hunks := without st hs } := by
    rw [← hm]
    exact file_setFile_self _ _ _
  have he : m.effects = a.effects ++ [.write p (revertAll c (diffRegions D b c))] := by
    rw [← hm]
    rfl
  exact ⟨_, _, rfl, file_recomputeHunks_self D env hf _ _, rfl, by rw [effects_recomputeHunks, he]⟩

theorem acceptHunksBatch_full (env : Env) (h : a.file p = some st) (hb : st.baseline = .full b)
    (hc : st.currentContent = .full c) (hne : hs ≠ []) (hd : OfDiff D p b c hs) :
    ∃ st', (a.acceptHunksBatch D env p hs).file p = some st'
      ∧ st'.baseline = .full (acceptAll b (diffRegions D b c))
      ∧ (acceptAll b (diffRegions D b c) = c → st'.hunks = []) := by
  have hbm : st.baseline ≠ .missing := by rw [hb]; simp
  have hacc : (hs.insertionSort fun k l => l.lineInfo.oldStart ≤ k.lineInfo.oldStart).foldl
      acceptInto st.baseline = .full (acceptAll b (diffRegions D b c)) := by
    rw [hb, hd.accept_eq]
  simp only [acceptHunksBatch, h, if_neg hne, if_neg hbm, hacc]
  generalize hm : Actor.sendEvents _ _ = m
  have hf : m.file p = some
      { st with
        baseline := .full (acceptAll b (diffRegions D b c)), baselineAccepted := true
        hunks := without st hs } := by
    rw [← hm]
    exact file_setFile_self _ _ _
  refine ⟨_, file_recomputeHunks_self D env hf _ _, rfl, fun heq => ?_⟩
  simp [hc, heq, hunkTable, computeHunks, preserveIds]

theorem restoresAll_of_nil (D : LineDiff) (env : Env) (h : a.file p = some st) (hb : st.baseline = .full b)
    (hc : st.currentContent = .full c) (hnil : st.hunks = []) :
    RestoresAll D env a p b c ↔ b = c := by
  have hat : a.hunksAt p = [] := by simp [hunksAt, h, hnil]
  simp only [RestoresAll, hat, rejectHunksBatch, acceptHunksBatch, h, if_true, Option.map_some,
    hb, hc]
  constructor
  · rintro ⟨-, heq, -⟩
    simpa using heq.symm
  · rintro rfl
    simp

theorem restoresAll_of_ofDiff (h : a.file p = some st) (hb : st.baseline = .full b)
    (hc : st.currentContent = .full c) (hne : st.hunks ≠ []) (hd : OfDiff D p b c st.hunks)
    (hw : env.writeOk p = true) :
    RestoresAll D env a p b c ↔
      revertAll c (diffRegions D b c) = b ∧ acceptAll b (diffRegions D b c) = c := by
  have hat : a.hunksAt p = st.hunks := by simp [hunksAt, h]
  obtain ⟨r, st₁, hr, hr1, hr2, hr3⟩ := rejectHunksBatch_full h hb hc hne hd hw
  obtain ⟨st₂, ha1, ha2, ha3⟩ := acceptHunksBatch_full env h hb hc hne hd
  have hat' : (a.acceptHunksBatch D env p st.hunks).hunksAt p = st₂.hunks := by
    simp [hunksAt, ha1]
  simp only [RestoresAll, hat, hr, hr1, ha1, hat', Option.map_some, hr2, ha2, hr3]
  constructor
  · rintro ⟨-, heq, -, heq', -⟩
    simpa using And.intro heq heq'
  · rintro ⟨heq, heq'⟩
    simp [heq, heq', ha3 heq']

end Actions

/-- The hunks `recompute_hunks` stores for two texts. -/
theorem ofDiff_table {env : Env} (oldHunks : List Hunk) (fresh : Nat) (source : HunkSource)
    (hne : b ≠ c) (hsize : byteLen b ≤ maxDiffFileSize ∧ byteLen c ≤ maxDiffFileSize)
    (ht : env.timedOut b c = false) :
    OfDiff D p b c
      (preserveIds oldHunks [] (hunkTable D env fresh p source (.full b) (.full c))) := by
  rw [OfDiff, preserveIds_map_bare]
  exact computeHunks_map_bare D fresh p source hne hsize ht

/-- **When the tracker can take a diff back and over as a whole.** After
`recompute_hunks` has stored the hunks of `b` and `c`, reject-all restores
`b` and accept-all makes `c` the baseline whenever the two texts are
`Restorable`; and for texts without a lone carriage return only then. -/
theorem recomputeHunks_restoresAll (D : LineDiff) (env env' : Env) (a : Actor)
    (p : PathBuf) (st : FileHunkState) (source : HunkSource) (b c : Text)
    (hst : a.file p = some st) (hb : st.baseline = .full b) (hw : env'.writeOk p = true) :
    let stored := a.recomputeHunks D env p (some (.full c)) source
    ((b = c ∨ env.timedOut b c = false ∧ Restorable D b c) →
        RestoresAll D env' stored p b c)
      ∧ (NoLoneCr b → NoLoneCr c → RestoresAll D env' stored p b c →
        b = c ∨ env.timedOut b c = false ∧ Restorable D b c) := by
  intro stored
  have hfile : stored.file p = some
      { st with
        currentContent := .full c
        hunks := preserveIds st.hunks []
          (hunkTable D env a.nextId p source (.full b) (.full c)) } := by
    rw [← hb]
    exact file_recomputeHunks_self D env hst (some (.full c)) source
  by_cases hbc : b = c
  · -- nothing to do, and nothing is done
    subst hbc
    have hnil := restoresAll_of_nil D env' hfile hb rfl
      (by simp [hunkTable, computeHunks, preserveIds])
    exact ⟨fun _ => hnil.mpr rfl, fun _ _ _ => .inl rfl⟩
  by_cases hdiff : (byteLen b ≤ maxDiffFileSize ∧ byteLen c ≤ maxDiffFileSize)
      ∧ env.timedOut b c = false
  · obtain ⟨hsize, ht⟩ := hdiff
    have hof : OfDiff D p b c _ := ofDiff_table st.hunks a.nextId source hbc hsize ht
    have hne : preserveIds st.hunks [] (hunkTable D env a.nextId p source (.full b) (.full c))
        ≠ [] := by
      intro h0
      rw [OfDiff, h0, map_nil] at hof
      exact regionsFrom_ne_nil (diffLines_correct D b c) hbc (map_eq_nil_iff.mp hof.symm)
    rw [restoresAll_of_ofDiff hfile hb rfl hne hof hw]
    constructor
    · rintro (h | ⟨-, h⟩)
      · exact absurd h hbc
      · exact ⟨h.reverts, h.accepts⟩
    · rintro hlb hlc ⟨hrev, hacc⟩
      exact .inr ⟨ht, restorable_of_roundTrip hbc hlb hlc hsize hrev hacc⟩
  · -- too large, or out of time: no hunk, so nothing is restored
    have hnil : hunkTable D env a.nextId p source (.full b) (.full c) = [] := by
      simp only [hunkTable, computeHunks, if_neg hbc]
      split
      · rfl
      · next hsize =>
        have ht : env.timedOut b c = true := by
          by_contra ht
          exact hdiff ⟨by omega, by simpa using ht⟩
        rw [if_pos ht]
    have := restoresAll_of_nil D env' hfile hb rfl (by simp [hnil, preserveIds])
    rw [this]
    constructor
    · rintro (h | ⟨ht, h⟩)
      · exact h
      · exact absurd ⟨h.small, ht⟩ hdiff
    · exact fun _ _ h => absurd h hbc

/-- A one-line file whose line the agent replaced. -/
theorem recomputeHunks_restoresAll_lf :
    let st := agentFile (.full "x\n".toList) .missing
    let a := (Actor.new [] .agentOnly).trackFile ["f"] st
    RestoresAll .lcs .quiet
      (a.recomputeHunks .lcs .quiet ["f"] (some (.full "y\n".toList)) (.agentEdit 0)) ["f"]
      "x\n".toList "y\n".toList := by
  refine (recomputeHunks_restoresAll .lcs .quiet .quiet _ ["f"] _ (.agentEdit 0) _ _ rfl rfl
    rfl).1 (.inr ⟨rfl, by decide, by decide, by decide, ?_, ?_⟩)
  all_goals
    intro g hg
    obtain rfl : g = ⟨1, 1, ["x\n".toList], ["y\n".toList]⟩ := mem_singleton.mp hg
    exact ⟨by decide, by decide, by decide⟩

/-- Rejecting the one changed line of a CRLF file rewrites the line that was
not changed as well. -/
theorem rejectAll_rewrites_crlf :
    let b := "a\r\nb\r\n".toList
    let c := "a\r\nc\r\n".toList
    let written := (Actor.new [] .agentOnly).recordAgentWrite .lcs .quiet ["f"] c 0 (some b)
    (written.file ["f"]).map (fun st => (st.baseline, st.currentContent))
        = some (.full b, .full c)
      ∧ (written.rejectHunksBatch .lcs .quiet ["f"] (written.hunksAt ["f"])).1.effects
        = [.write ["f"] "a\nb\n".toList]
      ∧ ¬ RestoresAll .lcs .quiet written ["f"] b c := by
  refine ⟨by decide, by decide, ?_⟩
  rintro ⟨-, -, hwrite, -⟩
  exact absurd (hwrite (by decide)) (by decide)

end Stored

end GrokBuild.HunkTracker
