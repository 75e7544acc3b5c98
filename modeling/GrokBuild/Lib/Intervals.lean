import Mathlib.Tactic

/-!
# Half-open spans

Spans `start..stop` of an ordered type, and the blocks that edits of a
sequence must not cut: a position is inside a span when it is strictly between
its ends, and an edit respects a block when it replaces all of it or none of it.
An edit whose two ends are inside no block respects every block
(`respects_of_not_inside`), so an editor only has to choose where its edits may
begin and end. The rest is what such an editor computes: the sorted union of
overlapping spans (`merge`), the closure of a span under the blocks it meets
(`expand`), and the nearest marks of a sorted list below and above a position.
-/

/-- A half-open span. -/
structure Span (α : Type*) where
  start : α
  stop : α
deriving DecidableEq, Repr

namespace Span

open List

/-! ## Cutting and respecting -/

section Order

variable {α : Type*} [LinearOrder α]

/-- Strictly between the two ends. -/
def Inside (p : α) (r : Span α) : Prop := r.start < p ∧ p < r.stop

instance (p : α) (r : Span α) : Decidable (Inside p r) :=
  inferInstanceAs (Decidable (_ ∧ _))

/-- The edit of `e` replaces all of the block `r` or nothing of it. -/
def Respects (e r : Span α) : Prop :=
  r.stop ≤ e.start ∨ e.stop ≤ r.start ∨ (e.start ≤ r.start ∧ r.stop ≤ e.stop)

variable {e r : Span α}

theorem respects_of_not_inside (hstart : ¬ Inside e.start r) (hstop : ¬ Inside e.stop r) :
    Respects e r := by
  simp only [Inside, not_and, not_lt] at hstart hstop
  rcases le_or_gt r.stop e.start with h | h
  · exact Or.inl h
  rcases le_or_gt e.stop r.start with h' | h'
  · exact Or.inr (Or.inl h')
  · refine Or.inr (Or.inr ⟨?_, hstop h'⟩)
    by_contra hlt
    exact absurd (hstart (not_le.mp hlt)) (not_le.mpr h)

/-- Conversely, an edit that respects a block has no end inside it. -/
theorem not_inside_of_respects (he : e.start ≤ e.stop) (h : Respects e r) :
    ¬ Inside e.start r ∧ ¬ Inside e.stop r := by
  simp only [Inside, not_and, not_lt]
  rcases h with h | h | ⟨h₁, h₂⟩
  · exact ⟨fun _ => h, fun _ => h.trans he⟩
  · exact ⟨fun hlt => absurd (hlt.trans_le he) (not_lt.mpr h),
      fun hlt => absurd hlt (not_lt.mpr h)⟩
  · exact ⟨fun hlt => absurd hlt (not_lt.mpr h₁), fun _ => h₂⟩

theorem Respects.mono {q : Span α} (h : Respects e r) (hstart : r.start ≤ q.start)
    (hstop : q.stop ≤ r.stop) : Respects e q := by
  rcases h with h | h | ⟨h₁, h₂⟩
  · exact Or.inl (hstop.trans h)
  · exact Or.inr (Or.inl (h.trans hstart))
  · exact Or.inr (Or.inr ⟨h₁.trans hstart, hstop.trans h₂⟩)

/-! ## Laying spans side by side -/

/-- Non-empty spans in order, none beginning before the one before it ends. -/
structure Laid (rs : List (Span α)) : Prop where
  nonempty : ∀ r ∈ rs, r.start < r.stop
  apart : rs.Pairwise fun a b => a.stop ≤ b.start

variable {rs : List (Span α)}

theorem Laid.not_inside (h : Laid rs) {a b : Span α} (ha : a ∈ rs) (hb : b ∈ rs) :
    ¬ Inside a.start b ∧ ¬ Inside a.stop b := by
  have hane := h.nonempty a ha
  have hbne := h.nonempty b hb
  rcases eq_or_ne a b with rfl | hab
  · exact ⟨fun hi => lt_irrefl _ hi.1, fun hi => lt_irrefl _ hi.2⟩
  have hor : a.stop ≤ b.start ∨ b.stop ≤ a.start := by
    obtain ⟨i, hi, rfl⟩ := mem_iff_getElem.mp ha
    obtain ⟨j, hj, rfl⟩ := mem_iff_getElem.mp hb
    rcases Nat.lt_trichotomy i j with hij | rfl | hij
    · exact Or.inl (pairwise_iff_getElem.mp h.apart i j hi hj hij)
    · exact absurd rfl hab
    · exact Or.inr (pairwise_iff_getElem.mp h.apart j i hj hi hij)
  simp only [Inside, not_and, not_lt]
  rcases hor with hlt | hlt
  · exact ⟨fun hi => absurd (hi.trans hane) (not_lt.mpr hlt), fun hi => absurd hi (not_lt.mpr hlt)⟩
  · exact ⟨fun _ => hlt, fun _ => hlt.trans hane.le⟩

/-- One step of the union: `r` begins at or after every span so far, and is
joined to the last of them when it begins before that one's end. -/
def pushMerged (merged : List (Span α)) (r : Span α) : List (Span α) :=
  match merged.getLast? with
  | some last =>
    if r.start < last.stop then merged.dropLast ++ [{ last with stop := max last.stop r.stop }]
    else merged ++ [r]
  | none => merged ++ [r]

/-- The union of spans sorted by their start. -/
def merge (rs : List (Span α)) : List (Span α) := rs.foldl pushMerged []

theorem merge_append_singleton (rs : List (Span α)) (r : Span α) :
    merge (rs ++ [r]) = pushMerged (merge rs) r := by
  simp [merge]

/-- What a step can do: join the new span to the last one, or put it after. -/
theorem pushMerged_cases (merged : List (Span α)) (r : Span α) :
    (∃ init last, merged = init ++ [last] ∧ r.start < last.stop ∧
      pushMerged merged r = init ++ [{ last with stop := max last.stop r.stop }]) ∨
    ((∀ last ∈ merged.getLast?, last.stop ≤ r.start) ∧ pushMerged merged r = merged ++ [r]) := by
  rcases eq_nil_or_concat' merged with rfl | ⟨init, last, rfl⟩
  · exact Or.inr ⟨by simp, rfl⟩
  · by_cases h : r.start < last.stop
    · exact Or.inl ⟨init, last, rfl, h, by simp [pushMerged, h]⟩
    · refine Or.inr ⟨?_, by simp [pushMerged, h]⟩
      simpa using not_lt.mp h

theorem ends_of_mem_merge {m : Span α} (h : m ∈ merge rs) :
    (∃ r ∈ rs, m.start = r.start) ∧ ∃ r ∈ rs, m.stop = r.stop := by
  induction rs using List.reverseRecOn generalizing m with
  | nil => simp [merge] at h
  | append_singleton rs r ih =>
    have old : ∀ x, x ∈ merge rs → (∃ q ∈ rs ++ [r], x.start = q.start) ∧
        ∃ q ∈ rs ++ [r], x.stop = q.stop := by
      intro x hx
      obtain ⟨⟨q, hq, hqs⟩, ⟨q', hq', hqs'⟩⟩ := ih hx
      exact ⟨⟨q, by simp [hq], hqs⟩, ⟨q', by simp [hq'], hqs'⟩⟩
    rw [merge_append_singleton] at h
    rcases pushMerged_cases (merge rs) r with ⟨init, last, heq, -, hpush⟩ | ⟨-, hpush⟩ <;>
      rw [hpush, mem_append, mem_singleton] at h
    · rcases h with h | rfl
      · exact old m (by simp [heq, h])
      · have hlast := old last (by simp [heq])
        refine ⟨hlast.1, ?_⟩
        rcases max_choice last.stop r.stop with hmax | hmax
        · simpa [hmax] using hlast.2
        · exact ⟨r, by simp, hmax⟩
    · rcases h with h | rfl
      · exact old m h
      · exact ⟨⟨m, by simp, rfl⟩, ⟨m, by simp, rfl⟩⟩

theorem laid_merge (hne : ∀ r ∈ rs, r.start < r.stop)
    (hsorted : rs.Pairwise fun a b => a.start ≤ b.start) : Laid (merge rs) := by
  induction rs using List.reverseRecOn with
  | nil => exact ⟨by simp [merge], by simp [merge]⟩
  | append_singleton rs r ih =>
    obtain ⟨hrs, -, hcross⟩ := pairwise_append.mp hsorted
    have ih := ih (fun q hq => hne q (by simp [hq])) hrs
    have hr := hne r (by simp)
    -- every span so far begins at or before the new one
    have hbefore : ∀ m ∈ merge rs, m.start ≤ r.start := by
      intro m hm
      obtain ⟨q, hq, hqs⟩ := (ends_of_mem_merge hm).1
      exact hqs ▸ hcross q hq r (by simp)
    rw [merge_append_singleton]
    rcases pushMerged_cases (merge rs) r with ⟨init, last, heq, hlt, hpush⟩ | ⟨hlast, hpush⟩ <;>
      rw [hpush]
    · rw [heq] at ih hbefore
      obtain ⟨hinit, -, hil⟩ := pairwise_append.mp ih.apart
      constructor
      · intro m hm
        rcases mem_append.mp hm with hm | hm
        · exact ih.nonempty m (by simp [hm])
        · obtain rfl := mem_singleton.mp hm
          exact lt_max_of_lt_left (ih.nonempty last (by simp))
      · refine pairwise_append.mpr ⟨hinit, by simp, ?_⟩
        intro a ha b hb
        obtain rfl := mem_singleton.mp hb
        exact hil a ha last (by simp)
    · constructor
      · intro m hm
        rcases mem_append.mp hm with hm | hm
        · exact ih.nonempty m hm
        · obtain rfl := mem_singleton.mp hm
          exact hr
      · refine pairwise_append.mpr ⟨ih.apart, by simp, ?_⟩
        intro a ha b hb
        obtain rfl := mem_singleton.mp hb
        -- the last span ends before the new one, and every other ends before the last begins
        rcases eq_nil_or_concat' (merge rs) with hnil | ⟨init, last, heq⟩
        · simp [hnil] at ha
        · rw [heq] at ha hlast ih
          have hend : last.stop ≤ b.start := hlast last (by simp)
          rcases mem_append.mp ha with ha | ha
          · have hal := (pairwise_append.mp ih.apart).2.2 a ha last (by simp)
            exact hal.trans ((ih.nonempty last (by simp)).le.trans hend)
          · obtain rfl := mem_singleton.mp ha
            exact hend

theorem exists_merge_of_mem (hsorted : rs.Pairwise fun a b => a.start ≤ b.start) (h : r ∈ rs) :
    ∃ m ∈ merge rs, m.start ≤ r.start ∧ r.stop ≤ m.stop := by
  induction rs using List.reverseRecOn generalizing r with
  | nil => simp at h
  | append_singleton rs q ih =>
    obtain ⟨hrs, -, hcross⟩ := pairwise_append.mp hsorted
    rw [merge_append_singleton]
    rcases pushMerged_cases (merge rs) q with ⟨init, last, heq, hlt, hpush⟩ | ⟨-, hpush⟩ <;>
      rw [hpush] <;> rcases mem_append.mp h with h | h
    · obtain ⟨m, hm, hstart, hstop⟩ := ih hrs h
      rw [heq] at hm
      rcases mem_append.mp hm with hm | hm
      · exact ⟨m, by simp [hm], hstart, hstop⟩
      · obtain rfl := mem_singleton.mp hm
        exact ⟨{ m with stop := max m.stop q.stop }, by simp, hstart, le_max_of_le_left hstop⟩
    · obtain rfl := mem_singleton.mp h
      have hlast : last ∈ merge rs := by simp [heq]
      obtain ⟨x, hx, hxs⟩ := (ends_of_mem_merge hlast).1
      exact ⟨{ last with stop := max last.stop r.stop }, by simp, hxs ▸ hcross x hx r (by simp),
        le_max_right _ _⟩
    · obtain ⟨m, hm, hends⟩ := ih hrs h
      exact ⟨m, by simp [hm], hends⟩
    · obtain rfl := mem_singleton.mp h
      exact ⟨r, by simp, le_rfl, le_rfl⟩

theorem inside_of_mem_merge (hsorted : rs.Pairwise fun a b => a.start ≤ b.start) {m : Span α}
    (h : m ∈ merge rs) {p : α} (hp : Inside p m) : ∃ r ∈ rs, Inside p r := by
  induction rs using List.reverseRecOn generalizing m with
  | nil => simp [merge] at h
  | append_singleton rs r ih =>
    obtain ⟨hrs, -, hcross⟩ := pairwise_append.mp hsorted
    have old : ∀ x ∈ merge rs, Inside p x → ∃ q ∈ rs ++ [r], Inside p q := by
      intro x hx hpx
      obtain ⟨q, hq, hpq⟩ := ih hrs hx hpx
      exact ⟨q, by simp [hq], hpq⟩
    rw [merge_append_singleton] at h
    rcases pushMerged_cases (merge rs) r with ⟨init, last, heq, hlt, hpush⟩ | ⟨-, hpush⟩ <;>
      rw [hpush, mem_append, mem_singleton] at h
    · rcases h with h | rfl
      · exact old m (by simp [heq, h]) hp
      · -- before the end of the last span it is in that one, from there on in the new one
        rcases lt_or_ge p last.stop with hlast | hlast
        · exact old last (by simp [heq]) ⟨hp.1, hlast⟩
        · have hstop : p < r.stop := (lt_max_iff.mp hp.2).resolve_left (not_lt.mpr hlast)
          exact ⟨r, by simp, hlt.trans_le hlast, hstop⟩
    · rcases h with h | rfl
      · exact old m h hp
      · exact ⟨m, by simp, hp⟩

/-! ## Growing a span over the blocks it meets -/

/-- The span grown over one block, when the two overlap. -/
def absorb (e r : Span α) : Span α :=
  if r.start < e.stop ∧ e.start < r.stop then ⟨min e.start r.start, max e.stop r.stop⟩ else e

/-- One pass over the blocks, with whether any of them made the span grow. -/
def absorbAll (rs : List (Span α)) (e : Span α) : Span α × Bool :=
  rs.foldl (fun acc r => (absorb acc.1 r, acc.2 || absorb acc.1 r != acc.1)) (e, false)

/-- Passes until one changes nothing: none when the fuel runs out first. -/
def expand (rs : List (Span α)) : Nat → Span α → Option (Span α)
  | 0, _ => none
  | fuel + 1, e =>
    let (e', changed) := absorbAll rs e
    if changed then expand rs fuel e' else some e'

theorem start_absorb_le (e r : Span α) : (absorb e r).start ≤ e.start := by
  unfold absorb
  split
  · exact min_le_left _ _
  · exact le_rfl

theorem le_stop_absorb (e r : Span α) : e.stop ≤ (absorb e r).stop := by
  unfold absorb
  split
  · exact le_max_left _ _
  · exact le_rfl

theorem respects_of_absorb_eq (h : absorb e r = e) : Respects e r := by
  unfold absorb at h
  split at h
  · have hstart := congrArg start h
    have hstop := congrArg stop h
    exact Or.inr (Or.inr ⟨min_eq_left_iff.mp hstart, max_eq_left_iff.mp hstop⟩)
  · rename_i hno
    rcases le_or_gt r.stop e.start with hle | hgt
    · exact Or.inl hle
    · exact Or.inr (Or.inl (not_lt.mp fun hlt => hno ⟨hlt, hgt⟩))

theorem absorb_ends {P : α → Prop} (he : P e.start ∧ P e.stop) (hr : P r.start ∧ P r.stop) :
    P (absorb e r).start ∧ P (absorb e r).stop := by
  unfold absorb
  split
  · constructor
    · rcases min_choice e.start r.start with h | h <;> simp only [h]
      · exact he.1
      · exact hr.1
    · rcases max_choice e.stop r.stop with h | h <;> simp only [h]
      · exact he.2
      · exact hr.2
  · exact he

section Pass

variable (rs : List (Span α))

theorem absorbAll_foldl (e : Span α) (changed : Bool) :
    rs.foldl (fun acc r => (absorb acc.1 r, acc.2 || absorb acc.1 r != acc.1)) (e, changed) =
      ((absorbAll rs e).1, changed || (absorbAll rs e).2) := by
  induction rs generalizing e changed with
  | nil => simp [absorbAll]
  | cons r rs ih =>
    simp only [absorbAll, foldl_cons, Bool.false_or]
    rw [ih, ih (absorb e r) (absorb e r != e)]
    simp [Bool.or_assoc]

theorem absorbAll_cons (r : Span α) (e : Span α) :
    absorbAll (r :: rs) e =
      ((absorbAll rs (absorb e r)).1,
        (absorb e r != e) || (absorbAll rs (absorb e r)).2) := by
  rw [absorbAll, foldl_cons, Bool.false_or, absorbAll_foldl]

theorem absorbAll_grows (e : Span α) :
    (absorbAll rs e).1.start ≤ e.start ∧ e.stop ≤ (absorbAll rs e).1.stop := by
  induction rs generalizing e with
  | nil => exact ⟨le_rfl, le_rfl⟩
  | cons r rs ih =>
    rw [absorbAll_cons]
    have h := ih (absorb e r)
    exact ⟨h.1.trans (start_absorb_le e r), (le_stop_absorb e r).trans h.2⟩

variable {e : Span α}

theorem absorbAll_ends {P : α → Prop} (he : P e.start ∧ P e.stop)
    (hrs : ∀ r ∈ rs, P r.start ∧ P r.stop) :
    P (absorbAll rs e).1.start ∧ P (absorbAll rs e).1.stop := by
  induction rs generalizing e with
  | nil => exact he
  | cons r rs ih =>
    rw [absorbAll_cons]
    exact ih (absorb_ends he (hrs r (by simp))) fun q hq => hrs q (by simp [hq])

theorem absorbAll_stop_le {bound : α} (he : e.stop ≤ bound) (hrs : ∀ r ∈ rs, r.stop ≤ bound) :
    (absorbAll rs e).1.stop ≤ bound := by
  induction rs generalizing e with
  | nil => exact he
  | cons r rs ih =>
    rw [absorbAll_cons]
    refine ih ?_ fun q hq => hrs q (by simp [hq])
    unfold absorb
    split
    · exact max_le he (hrs r (by simp))
    · exact he

/-- A pass that reports no change met no block it would have to grow over. -/
theorem absorbAll_unchanged (h : (absorbAll rs e).2 = false) :
    (absorbAll rs e).1 = e ∧ ∀ r ∈ rs, Respects e r := by
  induction rs generalizing e with
  | nil => exact ⟨rfl, by simp⟩
  | cons r rs ih =>
    rw [absorbAll_cons, Bool.or_eq_false_iff] at h
    obtain ⟨hsame, hrest⟩ := h
    have hsame : absorb e r = e := by simpa using hsame
    rw [hsame] at hrest
    obtain ⟨heq, hresp⟩ := ih hrest
    rw [absorbAll_cons, hsame]
    exact ⟨heq, by simpa using ⟨respects_of_absorb_eq hsame, hresp⟩⟩

theorem absorbAll_changed (h : (absorbAll rs e).2 = true) :
    (absorbAll rs e).1.start < e.start ∨ e.stop < (absorbAll rs e).1.stop := by
  induction rs generalizing e with
  | nil => simp [absorbAll] at h
  | cons r rs ih =>
    rw [absorbAll_cons] at h ⊢
    have hgrow := absorbAll_grows rs (absorb e r)
    by_cases hsame : absorb e r = e
    · rw [hsame] at h ⊢
      exact ih (by simpa using h)
    · have hmoved : (absorb e r).start < e.start ∨ e.stop < (absorb e r).stop := by
        by_contra hno
        rw [not_or, not_lt, not_lt] at hno
        apply hsame
        have hstart := le_antisymm (start_absorb_le e r) hno.1
        have hstop := le_antisymm hno.2 (le_stop_absorb e r)
        cases hab : absorb e r
        cases e
        simp_all
      rcases hmoved with hlt | hlt
      · exact Or.inl (hgrow.1.trans_lt hlt)
      · exact Or.inr (hlt.trans_le hgrow.2)

end Pass

/-- What the closure is: it contains the span, both its ends are ends that
were there before, and it respects every block. -/
theorem expand_spec {P : α → Prop} (hrs : ∀ r ∈ rs, P r.start ∧ P r.stop) {fuel : Nat} {e' : Span α}
    (he : P e.start ∧ P e.stop) (h : expand rs fuel e = some e') :
    (P e'.start ∧ P e'.stop) ∧ (e'.start ≤ e.start ∧ e.stop ≤ e'.stop) ∧
      ∀ r ∈ rs, Respects e' r := by
  induction fuel generalizing e with
  | zero => simp [expand] at h
  | succ fuel ih =>
    rw [expand] at h
    have hgrow := absorbAll_grows rs e
    have hends := absorbAll_ends rs he hrs
    cases hc : (absorbAll rs e).2 with
    | true =>
      obtain ⟨hP, hbound, hresp⟩ := ih hends (by simpa [hc] using h)
      exact ⟨hP, ⟨hbound.1.trans hgrow.1, hgrow.2.trans hbound.2⟩, hresp⟩
    | false =>
      obtain ⟨heq, hresp⟩ := absorbAll_unchanged rs hc
      obtain rfl : e = e' := by simpa [hc, heq] using h
      exact ⟨he, ⟨le_rfl, le_rfl⟩, hresp⟩

theorem absorb_start (h : ¬ Inside e.start r) : (absorb e r).start = e.start := by
  unfold absorb
  split
  · rename_i hmeet
    exact min_eq_left (not_lt.mp fun hlt => h ⟨hlt, hmeet.2⟩)
  · rfl

theorem absorbAll_start (h : ∀ r ∈ rs, ¬ Inside e.start r) : (absorbAll rs e).1.start = e.start := by
  induction rs generalizing e with
  | nil => rfl
  | cons r rs ih =>
    have hstart := absorb_start (h r mem_cons_self)
    rw [absorbAll_cons, ih, hstart]
    intro q hq
    rw [hstart]
    exact h q (mem_cons_of_mem r hq)

theorem expand_start {fuel : Nat} {e' : Span α} (h : ∀ r ∈ rs, ¬ Inside e.start r)
    (he : expand rs fuel e = some e') : e'.start = e.start := by
  induction fuel generalizing e with
  | zero => cases he
  | succ fuel ih =>
    have hstart := absorbAll_start h
    simp only [expand] at he
    split at he
    · rw [ih _ he, hstart]
      intro r hr
      rw [hstart]
      exact h r hr
    · rw [← Option.some.inj he, hstart]

end Order

/-- Enough fuel for spans of numbers: every pass but the last makes the span
longer, and no end passes the furthest one. -/
theorem exists_expand {rs : List (Span Nat)} (bound fuel : Nat) (hrs : ∀ r ∈ rs, r.stop ≤ bound)
    (e : Span Nat) (he : e.start ≤ e.stop) (hb : e.stop ≤ bound)
    (hfuel : bound < fuel + (e.stop - e.start)) : ∃ e', expand rs fuel e = some e' := by
  induction fuel generalizing e with
  | zero => omega
  | succ fuel ih =>
    rw [expand]
    have hgrow := absorbAll_grows rs e
    have hbound := absorbAll_stop_le rs hb hrs
    cases hc : (absorbAll rs e).2 with
    | true =>
      have hmoved := absorbAll_changed rs hc
      simpa [hc] using ih (absorbAll rs e).1 (by omega) hbound (by omega)
    | false => exact ⟨_, by simp [hc]; rfl⟩

theorem le_foldr_max (ns : List Nat) (b : Nat) :
    (∀ n ∈ ns, n ≤ ns.foldr max b) ∧ b ≤ ns.foldr max b := by
  induction ns with
  | nil => simp
  | cons n ns ih =>
    simp only [foldr_cons, forall_mem_cons]
    refine ⟨⟨le_max_left _ _, fun m hm => ?_⟩, ?_⟩
    · exact (ih.1 m hm).trans (le_max_right _ _)
    · exact ih.2.trans (le_max_right _ _)

/-! ## The nearest marks -/

section Marks

variable {α : Type*} [LinearOrder α] {marks : List α} {p : α → Bool}

theorem takeWhile_eq_nil_iff_of_down (hsorted : marks.Pairwise (· < ·))
    (hdown : ∀ a b, a ≤ b → p b = true → p a = true) :
    marks.takeWhile p = [] ↔ ∀ k ∈ marks, p k = false := by
  cases marks with
  | nil => simp
  | cons a marks =>
    have ha := (pairwise_cons.mp hsorted).1
    by_cases hp : p a = true
    · simp [takeWhile_cons_of_pos hp, hp]
    · simp only [takeWhile_cons, hp, Bool.false_eq_true, if_false, true_iff]
      intro k hk
      rcases mem_cons.mp hk with rfl | hk
      · simpa using hp
      · by_contra hpk
        exact hp (hdown a k (ha k hk).le (by simpa using hpk))

theorem getLast?_takeWhile_greatest (hsorted : marks.Pairwise (· < ·))
    (hdown : ∀ a b, a ≤ b → p b = true → p a = true) {m : α}
    (h : (marks.takeWhile p).getLast? = some m) :
    m ∈ marks ∧ p m = true ∧ ∀ k ∈ marks, p k = true → k ≤ m := by
  induction marks generalizing m with
  | nil => simp at h
  | cons a marks ih =>
    obtain ⟨ha, hrest⟩ := pairwise_cons.mp hsorted
    by_cases hp : p a = true
    · rw [takeWhile_cons_of_pos hp, getLast?_cons] at h
      cases hl : (marks.takeWhile p).getLast? with
      | some l =>
        obtain rfl : l = m := by simpa [hl] using h
        obtain ⟨hm, hpm, hgreatest⟩ := ih hrest hl
        refine ⟨by simp [hm], hpm, ?_⟩
        intro k hk hpk
        rcases mem_cons.mp hk with rfl | hk
        · exact (ha l hm).le
        · exact hgreatest k hk hpk
      | none =>
        obtain rfl : a = m := by simpa [hl] using h
        have hnone : ∀ k ∈ marks, p k = false :=
          takeWhile_eq_nil_iff_of_down hrest hdown |>.mp (by simpa using hl)
        refine ⟨by simp, hp, ?_⟩
        intro k hk hpk
        rcases mem_cons.mp hk with rfl | hk
        · exact le_rfl
        · simp [hnone k hk] at hpk
    · simp [hp] at h

theorem find?_least (hsorted : marks.Pairwise (· < ·)) {m : α} (h : marks.find? p = some m) :
    m ∈ marks ∧ p m = true ∧ ∀ k ∈ marks, p k = true → m ≤ k := by
  induction marks with
  | nil => simp at h
  | cons a marks ih =>
    obtain ⟨ha, hrest⟩ := pairwise_cons.mp hsorted
    by_cases hp : p a = true
    · obtain rfl : a = m := by simpa [hp] using h
      refine ⟨by simp, hp, ?_⟩
      intro k hk _
      rcases mem_cons.mp hk with rfl | hk
      · exact le_rfl
      · exact (ha k hk).le
    · rw [find?_cons_of_neg hp] at h
      obtain ⟨hm, hpm, hleast⟩ := ih hrest h
      refine ⟨by simp [hm], hpm, ?_⟩
      intro k hk hpk
      rcases mem_cons.mp hk with rfl | hk
      · exact absurd hpk hp
      · exact hleast k hk hpk

end Marks

end Span
