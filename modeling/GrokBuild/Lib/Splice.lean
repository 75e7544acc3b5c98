import Mathlib.Data.List.Basic
import Mathlib.Tactic

/-!
# Simultaneous substitution in a list

A batch of edits, each replacing a range of positions of one list, all
given in the coordinates of the list before any of them. `walk` says what
the batch means: go through the old elements once and at each position
emit what is inserted there, then what replaces the elements from there
on, then the element itself unless some edit covers it.

The main facts, for edits stacked top down without overlap:

* `foldr_apply` — applying the edits one after the other from the bottom
  up gives the walk;
* `landing_spec` — the running shift of a top-down pass is the place of
  each edit's own elements in the result;
* `getElem?_walk`, `newIndex_lt`, `newIndex_succ_lt` — where an element that
  no edit covers ends up, and when something still follows it;
* `walk_congr`, `eq_of_filter_key` — only the order of the edits at one
  position matters.
-/

namespace Splice

open List

variable {α : Type*}

/-- Replace the elements from `start` up to but not including `stop`. An
edit with `start = stop` inserts. -/
structure Edit (α : Type*) where
  start : Nat
  stop : Nat
  new : List α

def Edit.apply (xs : List α) (e : Edit α) : List α :=
  xs.take e.start ++ e.new ++ xs.drop e.stop

/-! ## The meaning of a batch -/

def insertedAt (es : List (Edit α)) (p : Nat) : List α :=
  (es.filter fun e => e.start = p ∧ e.stop = p).flatMap Edit.new

def replacedAt (es : List (Edit α)) (p : Nat) : List α :=
  (es.filter fun e => e.start = p ∧ p < e.stop).flatMap Edit.new

def Covered (es : List (Edit α)) (p : Nat) : Prop := ∃ e ∈ es, e.start ≤ p ∧ p < e.stop

instance (es : List (Edit α)) (p : Nat) : Decidable (Covered es p) := by
  unfold Covered
  infer_instance

def emitAt (es : List (Edit α)) (p : Nat) (x : α) : List α :=
  insertedAt es p ++ replacedAt es p ++ if Covered es p then [] else [x]

/-- What the elements of `xs`, the first of them at position `p`, turn into. -/
def walkLines (es : List (Edit α)) : Nat → List α → List α
  | _, [] => []
  | p, x :: xs => emitAt es p x ++ walkLines es (p + 1) xs

/-- The walk from position `p` to the end, with the insertions behind the
last element. -/
def walkFrom (es : List (Edit α)) (p : Nat) (xs : List α) : List α :=
  walkLines es p xs ++ insertedAt es (p + xs.length)

def walk (es : List (Edit α)) (xs : List α) : List α := walkFrom es 0 xs

/-- The edits in top-down order, none reaching into the next. -/
structure Stacked (es : List (Edit α)) : Prop where
  ordered : ∀ e ∈ es, e.start ≤ e.stop
  separate : es.Pairwise fun e f => e.stop ≤ f.start

variable {e : Edit α} {es : List (Edit α)}

theorem Stacked.tail (h : Stacked (e :: es)) : Stacked es :=
  ⟨fun f hf => h.ordered f (mem_cons_of_mem _ hf), h.separate.of_cons⟩

theorem Stacked.sublist {fs : List (Edit α)} (h : Stacked es) (hf : fs.Sublist es) : Stacked fs :=
  ⟨fun e he => h.ordered e (hf.subset he), h.separate.sublist hf⟩

theorem Stacked.head_le {f : Edit α} (h : Stacked (e :: es)) (hf : f ∈ es) : e.stop ≤ f.start :=
  (pairwise_cons.mp h.separate).1 f hf

/-! ## One position -/

theorem insertedAt_cons (e : Edit α) (es : List (Edit α)) (p : Nat) :
    insertedAt (e :: es) p =
      (if e.start = p ∧ e.stop = p then e.new else []) ++ insertedAt es p := by
  by_cases h : e.start = p ∧ e.stop = p <;> simp [insertedAt, h]

theorem replacedAt_cons (e : Edit α) (es : List (Edit α)) (p : Nat) :
    replacedAt (e :: es) p =
      (if e.start = p ∧ p < e.stop then e.new else []) ++ replacedAt es p := by
  by_cases h : e.start = p ∧ p < e.stop <;> simp [replacedAt, h]

variable {p : Nat}

theorem covered_cons : Covered (e :: es) p ↔ (e.start ≤ p ∧ p < e.stop) ∨ Covered es p := by
  simp [Covered]

theorem insertedAt_eq_nil (h : ∀ e ∈ es, e.start ≠ p) : insertedAt es p = [] := by
  rw [insertedAt, filter_eq_nil_iff.mpr, flatMap_nil]
  intro e he hp
  simp only [decide_eq_true_eq] at hp
  exact h e he hp.1

theorem replacedAt_eq_nil (h : ∀ e ∈ es, e.start ≠ p) : replacedAt es p = [] := by
  rw [replacedAt, filter_eq_nil_iff.mpr, flatMap_nil]
  intro e he hp
  simp only [decide_eq_true_eq] at hp
  exact h e he hp.1

theorem replacedAt_eq_nil_of_not_covered (h : ¬ Covered es p) : replacedAt es p = [] := by
  rw [replacedAt, filter_eq_nil_iff.mpr, flatMap_nil]
  intro e he hp
  simp only [decide_eq_true_eq] at hp
  exact h ⟨e, he, hp.1.le, hp.2⟩

theorem not_covered_of_lt (h : ∀ e ∈ es, p < e.start) : ¬ Covered es p := by
  rintro ⟨e, he, hle, -⟩
  have := h e he
  omega

theorem emitAt_of_lt (h : ∀ e ∈ es, p < e.start) (x : α) : emitAt es p x = [x] := by
  have hne : ∀ e ∈ es, e.start ≠ p := fun e he => (h e he).ne'
  rw [emitAt, insertedAt_eq_nil hne, replacedAt_eq_nil hne, if_neg (not_covered_of_lt h)]
  rfl

/-- Behind an edit the walk has forgotten it. -/
theorem emitAt_cons_of_past (hs : e.start < p) (he : e.stop ≤ p) (es : List (Edit α)) (x : α) :
    emitAt (e :: es) p x = emitAt es p x := by
  have h1 : ¬ (e.start = p ∧ e.stop = p) := by omega
  have h2 : ¬ (e.start = p ∧ p < e.stop) := by omega
  have h3 : ¬ (e.start ≤ p ∧ p < e.stop) := by omega
  simp only [emitAt, insertedAt_cons, replacedAt_cons, covered_cons, if_neg h1, if_neg h2, h3,
    false_or, nil_append]

/-! ## Stretches of positions -/

theorem walkLines_append (es : List (Edit α)) (p : Nat) (xs ys : List α) :
    walkLines es p (xs ++ ys) = walkLines es p xs ++ walkLines es (p + xs.length) ys := by
  induction xs generalizing p with
  | nil => simp [walkLines]
  | cons x xs ih =>
    have hp : p + 1 + xs.length = p + (x :: xs).length := by simp only [length_cons]; omega
    simp only [cons_append, walkLines, ih, hp, append_assoc]

theorem walkFrom_append (es : List (Edit α)) (p : Nat) (xs ys : List α) :
    walkFrom es p (xs ++ ys) = walkLines es p xs ++ walkFrom es (p + xs.length) ys := by
  simp only [walkFrom, walkLines_append, length_append, append_assoc, Nat.add_assoc]

variable {xs : List α}

theorem walkLines_of_lt (h : ∀ e ∈ es, p + xs.length ≤ e.start) : walkLines es p xs = xs := by
  induction xs generalizing p with
  | nil => rfl
  | cons x xs ih =>
    simp only [length_cons] at h
    rw [walkLines, emitAt_of_lt (fun e he => by have := h e he; omega),
      ih (fun e he => by have := h e he; omega)]
    rfl

theorem walkLines_cons_of_past (hs : e.start < p) (he : e.stop ≤ p) (es : List (Edit α)) (xs : List α) :
    walkLines (e :: es) p xs = walkLines es p xs := by
  induction xs generalizing p with
  | nil => rfl
  | cons x xs ih =>
    rw [walkLines, walkLines, emitAt_cons_of_past hs he, ih (by omega) (by omega)]

theorem walkFrom_cons_of_past (hs : e.start < p) (he : e.stop ≤ p) (es : List (Edit α)) (xs : List α) :
    walkFrom (e :: es) p xs = walkFrom es p xs := by
  have h : ¬ (e.start = p + xs.length ∧ e.stop = p + xs.length) := by omega
  rw [walkFrom, walkFrom, walkLines_cons_of_past hs he, insertedAt_cons, if_neg h,
    nil_append]

theorem walkLines_of_covered (hs : e.start < p) (he : p + xs.length ≤ e.stop)
    (hrest : ∀ f ∈ es, e.stop ≤ f.start) : walkLines (e :: es) p xs = [] := by
  induction xs generalizing p with
  | nil => rfl
  | cons x xs ih =>
    simp only [length_cons] at he
    have hne : ∀ f ∈ e :: es, f.start ≠ p := by
      intro f hf
      rcases mem_cons.mp hf with rfl | hf
      · omega
      · have := hrest f hf
        omega
    have hcov : Covered (e :: es) p := ⟨e, mem_cons_self, by omega, by omega⟩
    rw [walkLines, emitAt, insertedAt_eq_nil hne, replacedAt_eq_nil hne, if_pos hcov,
      ih (by omega) (by omega)]
    rfl

/-! ## One edit -/

theorem walkFrom_insertion (es : List (Edit α)) (xs : List α) (h : e.start = e.stop) :
    walkFrom (e :: es) e.start xs = e.new ++ walkFrom es e.start xs := by
  have hins : insertedAt (e :: es) e.start = e.new ++ insertedAt es e.start := by
    rw [insertedAt_cons, if_pos ⟨rfl, h.symm⟩]
  cases xs with
  | nil => simp only [walkFrom, walkLines, length_nil, Nat.add_zero, hins, nil_append]
  | cons x xs =>
    have hrep : replacedAt (e :: es) e.start = replacedAt es e.start := by
      rw [replacedAt_cons, if_neg (by omega), nil_append]
    have hcov : Covered (e :: es) e.start ↔ Covered es e.start := by
      rw [covered_cons, or_iff_right (by omega)]
    have hpast : walkLines (e :: es) (e.start + 1) xs = walkLines es (e.start + 1) xs :=
      walkLines_cons_of_past (by omega) (by omega) es xs
    have hlast : insertedAt (e :: es) (e.start + (x :: xs).length) =
        insertedAt es (e.start + (x :: xs).length) := by
      rw [insertedAt_cons, if_neg (by simp only [length_cons]; omega), nil_append]
    simp only [walkFrom, walkLines, emitAt, hins, hrep, hcov, hpast, hlast, append_assoc]

theorem walkFrom_replacement {ys : List α} (h : e.start < e.stop)
    (hlen : e.start + xs.length = e.stop) (hrest : ∀ f ∈ es, e.stop ≤ f.start) :
    walkFrom (e :: es) e.start (xs ++ ys) = e.new ++ walkFrom es e.stop ys := by
  cases xs with
  | nil => simp only [length_nil] at hlen; omega
  | cons x xs =>
    simp only [length_cons] at hlen
    have hne : ∀ f ∈ es, f.start ≠ e.start := fun f hf => by have := hrest f hf; omega
    have hins : ¬ (e.start = e.start ∧ e.stop = e.start) := by omega
    have hcov : Covered (e :: es) e.start := ⟨e, mem_cons_self, le_refl _, h⟩
    have hemit : emitAt (e :: es) e.start x = e.new := by
      rw [emitAt, insertedAt_cons, replacedAt_cons, if_neg hins, if_pos ⟨rfl, h⟩, if_pos hcov,
        insertedAt_eq_nil hne, replacedAt_eq_nil hne]
      simp
    have hinner : walkLines (e :: es) (e.start + 1) xs = [] :=
      walkLines_of_covered (by omega) (by omega) hrest
    have hstop : e.start + (x :: xs).length = e.stop := by simp only [length_cons]; omega
    rw [walkFrom_append, walkLines, hemit, hinner, hstop, walkFrom_cons_of_past h le_rfl,
      append_nil]

theorem walkFrom_cons (h : Stacked (e :: es)) (hp : p ≤ e.start) (hlen : e.stop ≤ p + xs.length) :
    walkFrom (e :: es) p xs =
      xs.take (e.start - p) ++ (e.new ++ walkFrom es e.stop (xs.drop (e.stop - p))) := by
  have hord := h.ordered e mem_cons_self
  have hpre : (xs.take (e.start - p)).length = e.start - p := by
    rw [length_take]
    omega
  have hstarts : ∀ f ∈ e :: es, p + (xs.take (e.start - p)).length ≤ f.start := by
    intro f hf
    rcases mem_cons.mp hf with rfl | hf
    · omega
    · have := h.head_le hf
      omega
  have hskip : walkFrom (e :: es) p xs =
      xs.take (e.start - p) ++ walkFrom (e :: es) e.start (xs.drop (e.start - p)) := by
    conv_lhs => rw [← take_append_drop (e.start - p) xs]
    rw [walkFrom_append, walkLines_of_lt hstarts, hpre]
    congr 2
    omega
  rw [hskip]
  congr 1
  rcases hord.eq_or_lt with heq | hlt
  · rw [walkFrom_insertion es _ heq, heq]
  · have hsplit : xs.drop (e.start - p) =
        (xs.drop (e.start - p)).take (e.stop - e.start) ++ xs.drop (e.stop - p) := by
      conv_lhs => rw [← take_append_drop (e.stop - e.start) (xs.drop (e.start - p))]
      rw [drop_drop]
      congr 2
      omega
    rw [hsplit, walkFrom_replacement hlt ?_ fun f hf => h.head_le hf]
    rw [length_take, length_drop]
    omega

variable {x : α}

theorem mem_walkLines (h : x ∈ walkLines es p xs) : x ∈ xs ∨ ∃ e ∈ es, x ∈ e.new := by
  induction xs generalizing p with
  | nil => cases h
  | cons y xs ih =>
    rw [walkLines, emitAt, mem_append, mem_append, mem_append] at h
    rcases h with ((h | h) | h) | h
    · obtain ⟨e, he, hx⟩ := mem_flatMap.mp h
      exact .inr ⟨e, (mem_filter.mp he).1, hx⟩
    · obtain ⟨e, he, hx⟩ := mem_flatMap.mp h
      exact .inr ⟨e, (mem_filter.mp he).1, hx⟩
    · split at h
      · cases h
      · exact .inl (mem_cons.mpr (.inl (mem_singleton.mp h)))
    · exact (ih h).imp_left (mem_cons_of_mem _)

theorem mem_walk (h : x ∈ walk es xs) : x ∈ xs ∨ ∃ e ∈ es, x ∈ e.new := by
  rcases mem_append.mp h with h | h
  · exact mem_walkLines h
  · obtain ⟨e, he, hx⟩ := mem_flatMap.mp h
    exact .inr ⟨e, (mem_filter.mp he).1, hx⟩

/-! ## Applying a batch -/

theorem walkFrom_nil (p : Nat) (xs : List α) : walkFrom [] p xs = xs := by
  rw [walkFrom, walkLines_of_lt (by simp), insertedAt_eq_nil (by simp), append_nil]

/-- From the bottom up, the edits applied one by one give the walk. -/
theorem foldr_apply (h : Stacked es) (hlen : ∀ e ∈ es, e.stop ≤ xs.length) :
    es.foldr (fun e ys => e.apply ys) xs = walk es xs := by
  induction es with
  | nil => rw [foldr_nil, walk, walkFrom_nil]
  | cons e es ih =>
    have hstop := hlen e mem_cons_self
    have hord := h.ordered e mem_cons_self
    have htake : (xs.take e.stop).length = e.stop := by rw [length_take]; omega
    -- the edits below leave everything in front of `e.stop` alone
    have hbelow : walk es xs = xs.take e.stop ++ walkFrom es e.stop (xs.drop e.stop) := by
      conv_lhs => rw [walk, ← take_append_drop e.stop xs]
      rw [walkFrom_append, walkLines_of_lt (fun f hf => by have := h.head_le hf; omega), htake,
        Nat.zero_add]
    have htop : walk (e :: es) xs =
        xs.take e.start ++ (e.new ++ walkFrom es e.stop (xs.drop e.stop)) :=
      walkFrom_cons h (Nat.zero_le _) (by omega)
    rw [foldr_cons, ih h.tail (fun f hf => hlen f (mem_cons_of_mem _ hf)), htop,
      Edit.apply, hbelow, take_append_of_le_length (by omega), take_take,
      Nat.min_eq_left hord, drop_append_of_le_length (by omega),
      drop_eq_nil_of_le (by omega), nil_append, append_assoc]

/-- Where the elements of each edit begin in the result, by a top-down pass
that adds up how much longer the list has become. -/
def landing : Int → List (Edit α) → List Nat
  | _, [] => []
  | shift, e :: es =>
    ((e.start : Int) + shift).toNat ::
      landing (shift + e.new.length - (e.stop - e.start : Nat)) es

theorem landing_walkFrom (shift : Int) (p : Nat) (pre xs : List α) (h : Stacked es)
    (hpre : (pre.length : Int) = p + shift) (hp : ∀ e ∈ es, p ≤ e.start)
    (hlen : ∀ e ∈ es, e.stop ≤ p + xs.length) :
    List.Forall₂ (fun e o => ((pre ++ walkFrom es p xs).drop o).take e.new.length = e.new)
      es (landing shift es) := by
  induction es generalizing shift p pre xs with
  | nil => exact .nil
  | cons e es ih =>
    have hord := h.ordered e mem_cons_self
    have hps := hp e mem_cons_self
    have hstop := hlen e mem_cons_self
    have htake : (xs.take (e.start - p)).length = e.start - p := by rw [length_take]; omega
    rw [walkFrom_cons h hps hstop]
    apply List.Forall₂.cons
    · have ho : ((e.start : Int) + shift).toNat = (pre ++ xs.take (e.start - p)).length := by
        rw [length_append, htake]
        omega
      rw [ho, ← append_assoc pre, drop_left, take_left]
    · -- what is written so far is the prefix of the remaining walk
      have hpre' : ((pre ++ (xs.take (e.start - p) ++ e.new)).length : Int) =
          (e.stop : Int) + (shift + e.new.length - (e.stop - e.start : Nat)) := by
        simp only [length_append, htake]
        omega
      have hall := ih _ e.stop _ (xs.drop (e.stop - p)) h.tail hpre' (fun f hf => h.head_le hf)
        (fun f hf => by
          have := hlen f (mem_cons_of_mem _ hf)
          rw [length_drop]
          omega)
      simpa only [append_assoc] using hall

theorem landing_spec (h : Stacked es) (hlen : ∀ e ∈ es, e.stop ≤ xs.length) :
    List.Forall₂ (fun e o => ((walk es xs).drop o).take e.new.length = e.new)
      es (landing 0 es) :=
  landing_walkFrom 0 0 [] xs h (by simp) (fun e _ => Nat.zero_le _)
    (fun e he => by have := hlen e he; omega)

/-! ## Elements that no edit covers -/

/-- How many elements the result has in front of position `i`. -/
def newIndex (es : List (Edit α)) (xs : List α) (i : Nat) : Nat :=
  (walkLines es 0 (xs.take i)).length + (insertedAt es i).length

theorem emitAt_of_not_covered (h : ¬ Covered es p) (x : α) :
    emitAt es p x = insertedAt es p ++ [x] := by
  rw [emitAt, replacedAt_eq_nil_of_not_covered h, if_neg h, append_nil]

variable {i : Nat}

theorem walk_split (hx : xs[i]? = some x) (h : ¬ Covered es i) :
    walk es xs = walkLines es 0 (xs.take i) ++ insertedAt es i ++
      x :: walkFrom es (i + 1) (xs.drop (i + 1)) := by
  obtain ⟨hi, rfl⟩ := List.getElem?_eq_some_iff.mp hx
  have htake : (xs.take i).length = i := by rw [length_take]; omega
  have hdrop : xs.drop i = xs[i] :: xs.drop (i + 1) := drop_eq_getElem_cons hi
  conv_lhs => rw [walk, ← take_append_drop i xs]
  rw [walkFrom_append, htake, Nat.zero_add, hdrop]
  have hlen : i + (xs[i] :: xs.drop (i + 1)).length = i + 1 + (xs.drop (i + 1)).length := by
    rw [length_cons]
    omega
  simp only [walkFrom, walkLines, emitAt_of_not_covered h, hlen, append_assoc,
    cons_append, nil_append]

theorem getElem?_walk (hx : xs[i]? = some x) (h : ¬ Covered es i) :
    (walk es xs)[newIndex es xs i]? = some x := by
  rw [walk_split hx h, getElem?_append_right (by simp [newIndex])]
  simp [newIndex]

theorem newIndex_lt {j : Nat} (hi : i < xs.length) (h : ¬ Covered es i) (hij : i < j) :
    newIndex es xs i < newIndex es xs j := by
  have htake : (xs.take i).length = i := by rw [length_take]; omega
  have hsplit : xs.take j = xs.take i ++ xs[i] :: (xs.take j).drop (i + 1) := by
    have hij' : i < (xs.take j).length := by rw [length_take]; omega
    conv_lhs => rw [← take_append_drop i (xs.take j)]
    rw [take_take, Nat.min_eq_left hij.le, drop_eq_getElem_cons hij',
      getElem_take]
  have hlen : (walkLines es 0 (xs.take j)).length ≥
      (walkLines es 0 (xs.take i)).length + (insertedAt es i).length + 1 := by
    rw [hsplit, walkLines_append, htake, walkLines, Nat.zero_add, emitAt_of_not_covered h]
    simp only [length_append, length_singleton]
    omega
  simp only [newIndex]
  omega

theorem insertedAt_ne_nil : insertedAt es p ≠ [] ↔ ∃ e ∈ es, e.start = p ∧ e.stop = p ∧ e.new ≠ [] := by
  simp only [insertedAt, ne_eq, flatMap_eq_nil_iff, mem_filter, decide_eq_true_eq,
    not_forall, exists_prop, and_assoc]

theorem replacedAt_ne_nil : replacedAt es p ≠ [] ↔ ∃ e ∈ es, e.start = p ∧ p < e.stop ∧ e.new ≠ [] := by
  simp only [replacedAt, ne_eq, flatMap_eq_nil_iff, mem_filter, decide_eq_true_eq,
    not_forall, exists_prop, and_assoc]

theorem emitAt_ne_nil (hord : ∀ e ∈ es, e.start ≤ e.stop) (x : α) :
    emitAt es p x ≠ [] ↔ ¬ Covered es p ∨ ∃ e ∈ es, e.start = p ∧ e.new ≠ [] := by
  have hkeep : (if Covered es p then [] else [x]) ≠ [] ↔ ¬ Covered es p := by
    split <;> simp_all
  simp only [emitAt, append_eq_nil_iff, not_and_or, ne_eq]
  rw [← ne_eq, ← ne_eq, ← ne_eq, hkeep, insertedAt_ne_nil, replacedAt_ne_nil]
  constructor
  · rintro ((⟨e, he, hs, -, hn⟩ | ⟨e, he, hs, -, hn⟩) | h)
    · exact .inr ⟨e, he, hs, hn⟩
    · exact .inr ⟨e, he, hs, hn⟩
    · exact .inl h
  · rintro (h | ⟨e, he, hs, hn⟩)
    · exact .inr h
    · rcases (hord e he).eq_or_lt with heq | hlt
      · exact .inl (.inl ⟨e, he, hs, by omega, hn⟩)
      · exact .inl (.inr ⟨e, he, hs, by omega, hn⟩)

theorem walkFrom_ne_nil (p : Nat) (xs : List α) (hord : ∀ e ∈ es, e.start ≤ e.stop)
    (hlen : ∀ e ∈ es, e.stop ≤ p + xs.length) :
    walkFrom es p xs ≠ [] ↔ (∃ j, p ≤ j ∧ j < p + xs.length ∧ ¬ Covered es j) ∨
      ∃ e ∈ es, p ≤ e.start ∧ e.new ≠ [] := by
  induction xs generalizing p with
  | nil =>
    simp only [walkFrom, walkLines, length_nil, Nat.add_zero, nil_append] at hlen ⊢
    rw [insertedAt_ne_nil]
    constructor
    · rintro ⟨e, he, hs, -, hn⟩
      exact .inr ⟨e, he, by omega, hn⟩
    · rintro (⟨j, h1, h2, -⟩ | ⟨e, he, hs, hn⟩)
      · omega
      · have := hord e he
        have := hlen e he
        exact ⟨e, he, by omega, by omega, hn⟩
  | cons x xs ih =>
    simp only [length_cons] at hlen ⊢
    have hsplit : walkFrom es p (x :: xs) = emitAt es p x ++ walkFrom es (p + 1) xs := by
      simp only [walkFrom, walkLines, length_cons, append_assoc]
      congr 3
      omega
    rw [hsplit, ne_eq, append_eq_nil_iff, not_and_or, ← ne_eq, ← ne_eq,
      emitAt_ne_nil hord, ih _ (fun e he => by have := hlen e he; omega)]
    constructor
    · rintro ((h | ⟨e, he, hs, hn⟩) | (⟨j, h1, h2, hj⟩ | ⟨e, he, hs, hn⟩))
      · exact .inl ⟨p, le_rfl, by omega, h⟩
      · exact .inr ⟨e, he, by omega, hn⟩
      · exact .inl ⟨j, by omega, by omega, hj⟩
      · exact .inr ⟨e, he, by omega, hn⟩
    · rintro (⟨j, h1, h2, hj⟩ | ⟨e, he, hs, hn⟩)
      · rcases h1.eq_or_lt with rfl | hlt
        · exact .inl (.inl hj)
        · exact .inr (.inl ⟨j, by omega, by omega, hj⟩)
      · rcases hs.eq_or_lt with heq | hlt
        · exact .inl (.inr ⟨e, he, heq.symm, hn⟩)
        · exact .inr (.inr ⟨e, he, by omega, hn⟩)

theorem newIndex_succ_lt (hi : i < xs.length) (h : ¬ Covered es i) (hord : ∀ e ∈ es, e.start ≤ e.stop)
    (hlen : ∀ e ∈ es, e.stop ≤ xs.length) :
    newIndex es xs i + 1 < (walk es xs).length ↔
      (∃ j, i < j ∧ j < xs.length ∧ ¬ Covered es j) ∨ ∃ e ∈ es, i < e.start ∧ e.new ≠ [] := by
  have hdrop : i + 1 + (xs.drop (i + 1)).length = xs.length := by rw [length_drop]; omega
  have hrest := walkFrom_ne_nil (i + 1) (xs.drop (i + 1)) hord
    (fun e he => by have := hlen e he; omega)
  simp only [hdrop, Nat.add_one_le_iff] at hrest
  rw [walk_split (getElem?_eq_getElem hi) h, ← hrest, ← length_pos_iff]
  simp only [newIndex, length_append, length_cons]
  omega

/-! ## Order of a batch -/

theorem walk_congr {fs : List (Edit α)} (xs : List α)
    (h : ∀ p, es.filter (fun e => e.start = p) = fs.filter (fun e => e.start = p)) :
    walk es xs = walk fs xs := by
  have hins : ∀ p, insertedAt es p = insertedAt fs p := by
    intro p
    have hf := congrArg (fun l => (l.filter fun e => e.stop = p).flatMap Edit.new) (h p)
    simpa only [List.filter_filter, insertedAt, Bool.decide_and, Bool.and_comm] using hf
  have hrep : ∀ p, replacedAt es p = replacedAt fs p := by
    intro p
    have hf := congrArg (fun l => (l.filter fun e => p < e.stop).flatMap Edit.new) (h p)
    simpa only [List.filter_filter, replacedAt, Bool.decide_and, Bool.and_comm] using hf
  have hmem : ∀ e, e ∈ es ↔ e ∈ fs := by
    intro e
    have he : e ∈ es.filter (fun f => f.start = e.start) ↔
        e ∈ fs.filter (fun f => f.start = e.start) := by rw [h]
    simpa using he
  have hcov : ∀ p, Covered es p ↔ Covered fs p := by
    intro p
    simp only [Covered, hmem]
  have hlines : ∀ ys p, walkLines es p ys = walkLines fs p ys := by
    intro ys
    induction ys with
    | nil => intro p; rfl
    | cons y ys ih =>
      intro p
      simp only [walkLines, emitAt, hins, hrep, hcov, ih]
  simp only [walk, walkFrom, hlines, hins]

theorem eq_of_filter_key {β : Type*} {key : β → Nat} {l m : List β}
    (hl : l.Pairwise fun a b => key a ≤ key b) (hm : m.Pairwise fun a b => key a ≤ key b)
    (h : ∀ k, l.filter (fun a => key a = k) = m.filter (fun a => key a = k)) : l = m := by
  have hmem : ∀ a, a ∈ l ↔ a ∈ m := by
    intro a
    have ha : a ∈ l.filter (fun b => key b = key a) ↔ a ∈ m.filter (fun b => key b = key a) := by
      rw [h]
    simpa using ha
  induction l generalizing m with
  | nil =>
    cases m with
    | nil => rfl
    | cons b m => exact absurd ((hmem b).mpr mem_cons_self) not_mem_nil
  | cons a l ih =>
    cases m with
    | nil => exact absurd ((hmem a).mp mem_cons_self) not_mem_nil
    | cons b m =>
      have hab : key a = key b := by
        apply Nat.le_antisymm
        · rcases mem_cons.mp ((hmem b).mpr mem_cons_self) with hb | hb
          · exact (congrArg key hb).ge
          · exact (pairwise_cons.mp hl).1 b hb
        · rcases mem_cons.mp ((hmem a).mp mem_cons_self) with ha | ha
          · exact (congrArg key ha).ge
          · exact (pairwise_cons.mp hm).1 a ha
      have hhead : a = b := by
        have hf := congrArg List.head? (h (key a))
        simpa [hab] using hf
      subst hhead
      have htail : ∀ k, l.filter (fun c => key c = k) = m.filter (fun c => key c = k) := by
        intro k
        have hf := h k
        by_cases hk : key a = k
        · simpa [filter_cons, hk] using hf
        · simpa [filter_cons, hk] using hf
      have hmem' : ∀ c, c ∈ l ↔ c ∈ m := by
        intro c
        have hc : c ∈ l.filter (fun d => key d = key c) ↔
            c ∈ m.filter (fun d => key d = key c) := by rw [htail]
        simpa using hc
      rw [ih hl.of_cons hm.of_cons htail hmem']

end Splice
