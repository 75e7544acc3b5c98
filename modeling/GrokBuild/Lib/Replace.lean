import GrokBuild.Lib.Search

/-!
# Replacing a pattern

`replace` is Rust's `str::replace` over any elements: the occurrences are taken
from the left, none overlapping the one before. Two uses of it have a meaning
of their own. Where a mark stands only at the front of the patterns, putting an
element behind the mark of each occurrence (`defuse`) leaves none of them, and
several such passes are one (`defuse_defuse`). Where a run of three is replaced
by two until there is none, each longer run becomes two (`replaceAll_run`).
-/

namespace Replace

open Search List

variable {α : Type*} [DecidableEq α]

/-! ## Replacing -/

/-- With the elements of an occurrence that are still to be left out. -/
@[grind =]
def replaceFrom (pat new : List α) : Nat → List α → List α
  | _, [] => []
  | skip + 1, _ :: s => replaceFrom pat new skip s
  | 0, c :: s =>
    if pat <+: c :: s then new ++ replaceFrom pat new (pat.length - 1) s
    else c :: replaceFrom pat new 0 s

def replace (pat new s : List α) : List α := replaceFrom pat new 0 s

variable {pat new : List α}

theorem replaceFrom_append (a s : List α) :
    replaceFrom pat new a.length (a ++ s) = replace pat new s := by
  induction a with
  | nil => rfl
  | cons c a ih => exact ih

@[simp] theorem replace_nil : replace pat new [] = [] := rfl

theorem replace_occurrence (hpat : pat ≠ []) (s : List α) :
    replace pat new (pat ++ s) = new ++ replace pat new s := by
  cases pat with
  | nil => exact absurd rfl hpat
  | cons c rest =>
    have hpre : c :: rest <+: c :: (rest ++ s) := prefix_append (c :: rest) s
    rw [replace, cons_append, replaceFrom, if_pos hpre, length_cons,
      Nat.add_sub_cancel, replaceFrom_append]

variable {c : α} {s : List α}

theorem replace_cons (h : ¬ pat <+: c :: s) : replace pat new (c :: s) = c :: replace pat new s := by
  rw [replace, replaceFrom, if_neg h]
  rfl

/-- What holds of the empty text, past an occurrence and past an element at
which none begins, holds of every text. -/
theorem replace_induct {P : List α → Prop} (hpat : pat ≠ []) (nil : P [])
    (occurrence : ∀ s, P s → P (pat ++ s))
    (cons : ∀ c s, ¬ pat <+: c :: s → P s → P (c :: s)) (s : List α) : P s := by
  induction hn : s.length using Nat.strong_induction_on generalizing s with
  | h n ih =>
    subst hn
    cases s with
    | nil => exact nil
    | cons c s =>
      by_cases hpre : pat <+: c :: s
      · obtain ⟨rest, hrest⟩ := hpre
        have hpos := length_pos_of_ne_nil hpat
        have hlen := congrArg List.length hrest
        rw [length_append, length_cons] at hlen
        rw [← hrest]
        refine occurrence rest (ih rest.length ?_ rest rfl)
        rw [length_cons]
        omega
      · exact cons c s hpre (ih s.length (Nat.lt_succ_self _) s rfl)

theorem length_replace_le (hpat : pat ≠ []) (hto : new.length ≤ pat.length) (s : List α) :
    (replace pat new s).length ≤ s.length := by
  induction s using replace_induct hpat with
  | nil => exact Nat.le_refl 0
  | occurrence s ih =>
    rw [replace_occurrence hpat, length_append, length_append]
    omega
  | cons c s hpre ih =>
    rw [replace_cons hpre, length_cons, length_cons]
    omega

theorem length_replace_lt (hto : new.length < pat.length) (h : pat <:+: s) :
    (replace pat new s).length < s.length := by
  have hpat : pat ≠ [] := ne_nil_of_length_pos (by omega)
  induction s using replace_induct hpat with
  | nil => exact absurd (infix_nil.mp h) hpat
  | occurrence s ih =>
    have hle := length_replace_le hpat hto.le s
    rw [replace_occurrence hpat, length_append, length_append]
    omega
  | cons c s hpre ih =>
    have hlt := ih ((infix_cons_iff.mp h).resolve_left hpre)
    rw [replace_cons hpre, length_cons, length_cons]
    omega

/-- Replaced until there is no occurrence. -/
def replaceAll (pat new : List α) (h : new.length < pat.length) (s : List α) : List α :=
  if _hs : pat <:+: s then replaceAll pat new h (replace pat new s) else s
termination_by s.length
decreasing_by exact length_replace_lt h ‹_›

theorem replaceAll_of_free (h : new.length < pat.length) (hs : Free pat s) :
    replaceAll pat new h s = s := by
  rw [replaceAll, dif_neg hs]

theorem free_replaceAll (h : new.length < pat.length) (s : List α) :
    Free pat (replaceAll pat new h s) := by
  induction s using replaceAll.induct pat new h with
  | case1 s hs ih =>
    rw [replaceAll, dif_pos hs]
    exact ih
  | case2 s hs =>
    rw [replaceAll_of_free h hs]
    exact hs

theorem replaceAll_invariant {β : Type*} (f : List α → β) (h : new.length < pat.length)
    (hf : ∀ s, f (replace pat new s) = f s) (s : List α) : f (replaceAll pat new h s) = f s := by
  induction s using replaceAll.induct pat new h with
  | case1 s hs ih =>
    rw [replaceAll, dif_pos hs, ih, hf]
  | case2 s hs => rw [replaceAll_of_free h hs]

/-! ## Marks -/

/-- `z` put behind the mark `m` wherever one of the bodies follows it. -/
@[grind =]
def defuse (m z : α) (bodies : List (List α)) : List α → List α
  | [] => []
  | c :: s =>
    if c = m ∧ ∃ b ∈ bodies, b <+: s then m :: z :: defuse m z bodies s
    else c :: defuse m z bodies s

/-- Patterns whose mark stands nowhere else in them, and that `z` interrupts. -/
structure Bodies (m z : α) (bodies : List (List α)) : Prop where
  unmarked : ∀ b ∈ bodies, m ∉ b
  broken : ∀ b ∈ bodies, ∀ s, ¬ b <+: z :: s
  mark_ne : z ≠ m

variable {m z : α} {bodies : List (List α)}

theorem defuse_append {a : List α} (h : m ∉ a) (s : List α) :
    defuse m z bodies (a ++ s) = a ++ defuse m z bodies s := by
  induction a with
  | nil => rfl
  | cons c a ih =>
    rw [mem_cons, not_or] at h
    rw [cons_append, defuse, if_neg fun hc => h.1 hc.1.symm, ih h.2, cons_append]

variable {b : List α}

theorem prefix_defuse (h : m ∉ b) (s : List α) : b <+: defuse m z bodies s ↔ b <+: s := by
  induction b generalizing s with
  | nil => exact iff_of_true nil_prefix nil_prefix
  | cons x b ih =>
    rw [mem_cons, not_or] at h
    cases s with
    | nil => exact Iff.rfl
    | cons c s =>
      rw [defuse]
      split
      · rename_i hc
        rw [cons_prefix_cons, cons_prefix_cons, hc.1]
        exact iff_of_false (fun hx => h.1 hx.1.symm) fun hx => h.1 hx.1.symm
      · rw [cons_prefix_cons, cons_prefix_cons, ih h.2]

theorem replace_mark (h : m ∉ b) (s : List α) :
    replace (m :: b) (m :: z :: b) s = defuse m z [b] s := by
  induction s using replace_induct (cons_ne_nil m b) with
  | nil => rfl
  | occurrence s ih =>
    have hcond : m = m ∧ ∃ b' ∈ [b], b' <+: b ++ s :=
      ⟨rfl, b, mem_cons_self, prefix_append b s⟩
    rw [replace_occurrence (cons_ne_nil m b), ih]
    show _ = defuse m z [b] (m :: (b ++ s))
    rw [defuse, if_pos hcond, defuse_append h]
    rfl
  | cons c s hpre ih =>
    rw [replace_cons hpre, ih, defuse, if_neg]
    rintro ⟨rfl, b', hb', hs⟩
    rw [mem_singleton.mp hb'] at hs
    exact hpre (cons_prefix_cons.mpr ⟨rfl, hs⟩)

theorem defuse_defuse {bodies' : List (List α)} (h : Bodies m z bodies) (s : List α) :
    defuse m z bodies (defuse m z bodies' s) = defuse m z (bodies' ++ bodies) s := by
  induction s with
  | nil => rfl
  | cons c s ih =>
    have hread : (∃ b ∈ bodies, b <+: defuse m z bodies' s) ↔ ∃ b ∈ bodies, b <+: s :=
      exists_congr fun b => and_congr_right fun hb => prefix_defuse (h.unmarked b hb) s
    by_cases hfirst : c = m ∧ ∃ b ∈ bodies', b <+: s
    · have hboth : c = m ∧ ∃ b ∈ bodies' ++ bodies, b <+: s := by
        obtain ⟨hc, b, hb, hs⟩ := hfirst
        exact ⟨hc, b, mem_append_left _ hb, hs⟩
      have hbroken : ¬ (m = m ∧ ∃ b ∈ bodies, b <+: z :: defuse m z bodies' s) := by
        rintro ⟨-, b, hb, hs⟩
        exact h.broken b hb _ hs
      rw [defuse, if_pos hfirst, defuse, if_neg hbroken, defuse, if_neg fun hz => h.mark_ne hz.1,
        defuse, if_pos hboth, ih]
    · by_cases hsecond : c = m ∧ ∃ b ∈ bodies, b <+: s
      · have hboth : c = m ∧ ∃ b ∈ bodies' ++ bodies, b <+: s := by
          obtain ⟨hc, b, hb, hs⟩ := hsecond
          exact ⟨hc, b, mem_append_right _ hb, hs⟩
        rw [defuse, if_neg hfirst, defuse, if_pos ⟨hsecond.1, hread.mpr hsecond.2⟩, defuse,
          if_pos hboth, ih]
      · have hneither : ¬ (c = m ∧ ∃ b ∈ bodies' ++ bodies, b <+: s) := by
          rintro ⟨hc, b, hb, hs⟩
          rcases mem_append.mp hb with hb | hb
          · exact hfirst ⟨hc, b, hb, hs⟩
          · exact hsecond ⟨hc, b, hb, hs⟩
        rw [defuse, if_neg hfirst, defuse, if_neg fun hc => hsecond ⟨hc.1, hread.mp hc.2⟩, defuse,
          if_neg hneither, ih]

theorem free_defuse (h : Bodies m z bodies) (hb : b ∈ bodies) (s : List α) :
    Free (m :: b) (defuse m z bodies s) := by
  have hunmarked := h.unmarked b hb
  induction s with
  | nil => exact fun hin => absurd (infix_nil.mp hin) (cons_ne_nil m b)
  | cons c s ih =>
    rw [defuse]
    split
    · refine free_cons.mpr ⟨fun hpre => ?_, free_cons.mpr ⟨fun hpre => ?_, ih⟩⟩
      · exact h.broken b hb _ (cons_prefix_cons.mp hpre).2
      · exact h.mark_ne (cons_prefix_cons.mp hpre).1.symm
    · rename_i hc
      refine free_cons.mpr ⟨fun hpre => ?_, ih⟩
      obtain ⟨rfl, hbody⟩ := cons_prefix_cons.mp hpre
      exact hc ⟨rfl, b, hb, (prefix_defuse hunmarked s).mp hbody⟩

theorem getLast?_defuse (h : Bodies m z bodies) (s : List α) :
    (defuse m z bodies s).getLast? = s.getLast? := by
  induction s with
  | nil => rfl
  | cons c s ih =>
    cases s with
    | nil =>
      have hnone : ¬ (c = m ∧ ∃ b ∈ bodies, b <+: []) := by
        rintro ⟨-, b, hb, hs⟩
        exact h.broken b hb [] (prefix_nil.mp hs ▸ nil_prefix)
      rw [defuse, if_neg hnone]
      rfl
    | cons d s =>
      have hcons : ∀ t : List α, (c :: d :: t).getLast? = (d :: t).getLast? := fun _ =>
        getLast?_cons_cons
      rw [hcons, ← ih, defuse]
      obtain ⟨e, t, ht⟩ : ∃ e t, defuse m z bodies (d :: s) = e :: t := by
        rw [defuse]
        split
        · exact ⟨_, _, rfl⟩
        · exact ⟨_, _, rfl⟩
      rw [ht]
      split
      · rw [getLast?_cons_cons, getLast?_cons_cons]
      · rw [getLast?_cons_cons]

theorem defuse_of_free (h : ∀ b ∈ bodies, Free (m :: b) s) : defuse m z bodies s = s := by
  induction s with
  | nil => rfl
  | cons c s ih =>
    have hrest : ∀ b ∈ bodies, Free (m :: b) s := fun b hb => (free_cons.mp (h b hb)).2
    rw [defuse, if_neg, ih hrest]
    rintro ⟨rfl, b, hb, hs⟩
    exact (free_cons.mp (h b hb)).1 (cons_prefix_cons.mpr ⟨rfl, hs⟩)

/-! ## Runs -/

/-- Each run of three or more of `n` as a run of two. -/
@[grind =]
def collapse (n : α) : List α → List α
  | a :: b :: c :: s =>
    if a = n ∧ b = n ∧ c = n then collapse n (b :: c :: s) else a :: collapse n (b :: c :: s)
  | s => s

variable {n : α}

theorem collapse_cons_of_ne (h : c ≠ n) (s : List α) : collapse n (c :: s) = c :: collapse n s := by
  match s with
  | [] => rfl
  | [_] => rfl
  | b :: d :: s => rw [collapse, if_neg fun hall => h hall.1]

/-- A run of two or more takes in any number of further elements. -/
theorem collapse_run (k : Nat) (s : List α) :
    collapse n (List.replicate (k + 3) n ++ s) = collapse n (List.replicate (k + 2) n ++ s) := by
  show collapse n (n :: n :: n :: (List.replicate k n ++ s)) = _
  rw [collapse, if_pos ⟨rfl, rfl, rfl⟩]
  rfl

theorem collapse_append_cons (h : c ≠ n) (p s : List α) :
    collapse n (p ++ c :: s) = collapse n p ++ c :: collapse n s := by
  have hone : ∀ a, collapse n (a :: c :: s) = a :: c :: collapse n s := by
    intro a
    cases s with
    | nil => rfl
    | cons d s => rw [collapse, if_neg fun hall => h hall.2.1, collapse_cons_of_ne h]
  induction p using collapse.induct n with
  | case1 a b d p hall ih =>
    rw [cons_append, cons_append, cons_append, collapse, if_pos hall, collapse,
      if_pos hall]
    exact ih
  | case2 a b d p hall ih =>
    rw [cons_append, cons_append, cons_append, collapse, if_neg hall, collapse,
      if_neg hall]
    exact congrArg (a :: ·) ih
  | case3 p hshort =>
    match p, hshort with
    | [], _ => exact collapse_cons_of_ne h s
    | [a], _ => exact hone a
    | [a, b], _ =>
      show collapse n (a :: b :: c :: s) = a :: b :: c :: collapse n s
      rw [collapse, if_neg fun hall => h hall.2.2, hone]
    | a :: b :: d :: p, hshort => exact absurd rfl (hshort a b d p)

theorem collapse_sublist (s : List α) : (collapse n s).Sublist s := by
  induction s using collapse.induct n with
  | case1 a b c s hall ih =>
    rw [collapse, if_pos hall]
    exact ih.cons a
  | case2 a b c s hall ih =>
    rw [collapse, if_neg hall]
    exact ih.cons_cons a
  | case3 s hshort =>
    match s, hshort with
    | [], _ => exact List.Sublist.refl _
    | [_], _ => exact List.Sublist.refl _
    | [_, _], _ => exact List.Sublist.refl _
    | a :: b :: c :: s, hshort => exact absurd rfl (hshort a b c s)

theorem collapse_replace (s : List α) :
    collapse n (replace [n, n, n] [n, n] s) = collapse n s := by
  -- with any run in front, since an occurrence may lengthen it
  suffices h : ∀ k, collapse n (List.replicate k n ++ replace [n, n, n] [n, n] s) =
      collapse n (List.replicate k n ++ s) from h 0
  induction s using replace_induct (cons_ne_nil n [n, n]) with
  | nil => exact fun k => rfl
  | occurrence s ih =>
    intro k
    have htwo : List.replicate k n ++ ([n, n] ++ replace [n, n, n] [n, n] s) =
        List.replicate (k + 2) n ++ replace [n, n, n] [n, n] s := by
      rw [← append_assoc, replicate_add]
      rfl
    have hthree : List.replicate k n ++ ([n, n, n] ++ s) = List.replicate (k + 3) n ++ s := by
      rw [← append_assoc, replicate_add]
      rfl
    rw [replace_occurrence (cons_ne_nil n [n, n]), htwo, hthree, ih, collapse_run]
  | cons c s hpre ih =>
    intro k
    rw [replace_cons hpre]
    by_cases hc : c = n
    · have hone : ∀ t, List.replicate k n ++ c :: t = List.replicate (k + 1) n ++ t := by
        intro t
        rw [hc, replicate_add, append_assoc]
        rfl
      rw [hone, hone, ih]
    · have hbehind := ih 0
      rw [replicate_zero, nil_append, nil_append] at hbehind
      rw [collapse_append_cons hc, collapse_append_cons hc, hbehind]

theorem collapse_of_free (h : Free [n, n, n] s) : collapse n s = s := by
  induction s using collapse.induct n with
  | case1 a b c s hall ih =>
    obtain ⟨ha, hb, hc⟩ := hall
    rw [ha, hb, hc] at h
    exact absurd (prefix_append [n, n, n] s).isInfix h
  | case2 a b c s hall ih =>
    rw [collapse, if_neg hall, ih (free_cons.mp h).2]
  | case3 s hs =>
    match s, hs with
    | [], _ => rfl
    | [_], _ => rfl
    | [_, _], _ => rfl
    | a :: b :: c :: s, hs => exact absurd rfl (hs a b c s)

theorem replaceAll_run (h : [n, n].length < [n, n, n].length) (s : List α) :
    replaceAll [n, n, n] [n, n] h s = collapse n s := by
  rw [← replaceAll_invariant (collapse n) h collapse_replace s,
    collapse_of_free (free_replaceAll h s)]

theorem collapse_head (c : α) (s : List α) : ∃ t, collapse n (c :: s) = c :: t := by
  induction s generalizing c with
  | nil => exact ⟨[], rfl⟩
  | cons b s ih =>
    cases s with
    | nil => exact ⟨[b], rfl⟩
    | cons d s =>
      rw [collapse]
      split
      · rename_i hall
        obtain ⟨t, ht⟩ := ih b
        exact ⟨t, by rw [ht, hall.1, hall.2.1]⟩
      · exact ⟨_, rfl⟩

theorem prefix_collapse (h : n ∉ b) (s : List α) : b <+: collapse n s ↔ b <+: s := by
  induction b generalizing s with
  | nil => exact iff_of_true nil_prefix nil_prefix
  | cons x b ih =>
    rw [mem_cons, not_or] at h
    cases s with
    | nil => exact Iff.rfl
    | cons c s =>
      by_cases hc : c = n
      · obtain ⟨t, ht⟩ := collapse_head (n := n) c s
        rw [ht, cons_prefix_cons, cons_prefix_cons, hc]
        exact iff_of_false (fun hx => h.1 hx.1.symm) fun hx => h.1 hx.1.symm
      · rw [collapse_cons_of_ne hc, cons_prefix_cons, cons_prefix_cons, ih h.2]

theorem free_collapse (h : n ∉ pat) (hs : Free pat s) : Free pat (collapse n s) := by
  induction s using collapse.induct n with
  | case1 a b c s hall ih =>
    rw [collapse, if_pos hall]
    exact ih (free_cons.mp hs).2
  | case2 a b c s hall ih =>
    obtain ⟨hpre, hrest⟩ := free_cons.mp hs
    have hcollapse : collapse n (a :: b :: c :: s) = a :: collapse n (b :: c :: s) := by
      rw [collapse, if_neg hall]
    rw [hcollapse, free_cons, ← hcollapse, prefix_collapse h]
    exact ⟨hpre, ih hrest⟩
  | case3 s hshort =>
    match s, hshort with
    | [], _ => exact hs
    | [_], _ => exact hs
    | [_, _], _ => exact hs
    | a :: b :: c :: s, hshort => exact absurd rfl (hshort a b c s)

end Replace
