import Mathlib.Data.List.Pairwise
import Mathlib.Tactic

/-!
# Epochs of a store

The past of a store that one writer changes, cut into numbered epochs: what
the store held when each began, and which keys were written in it. Going back
to the beginning of an epoch drops it with all later ones; handing later
epochs over to an earlier one keeps what they wrote and forgets where they began.
-/

namespace GrokBuild.Epochs

open List

variable {κ ν : Type}

structure Epoch (κ ν : Type) where
  index : Nat
  before : κ → ν
  written : List κ

/-- What the store held when the first of the epochs began. -/
def stateFrom : List (Epoch κ ν) → (κ → ν) → κ → ν
  | [], now => now
  | e :: _, _ => e.before

def writtenIn (es : List (Epoch κ ν)) : List κ := es.flatMap (·.written)

/-- From epoch to epoch, only the written keys change. -/
def Linked : List (Epoch κ ν) → (κ → ν) → Prop
  | [], _ => True
  | e :: es, now => (∀ k, k ∉ e.written → stateFrom es now k = e.before k) ∧ Linked es now

/-- The epochs from the index on. -/
def since (index : Nat) (es : List (Epoch κ ν)) : List (Epoch κ ν) :=
  es.filter (index ≤ ·.index)

/-- The epochs before the index. -/
def earlier (index : Nat) (es : List (Epoch κ ν)) : List (Epoch κ ν) :=
  es.filter (·.index < index)

/-- Each epoch is later than those listed before it. -/
def Ordered (es : List (Epoch κ ν)) : Prop := es.Pairwise (·.index < ·.index)

/-- What was written from the index on now counts as written just before it. -/
def handOver (index : Nat) (es : List (Epoch κ ν)) : List (Epoch κ ν) :=
  let kept := earlier index es
  let written := writtenIn (since index es)
  if ∃ e ∈ kept, e.index = index - 1 then
    kept.map fun e => if e.index = index - 1 then { e with written := e.written ++ written } else e
  else
    match since index es with
    | [] => kept
    | e :: _ => if written = [] then kept else kept ++ [⟨index - 1, e.before, written⟩]

/-- A write in the epoch of the index. -/
def write (index : Nat) (k : κ) (es : List (Epoch κ ν)) : List (Epoch κ ν) :=
  es.map fun e => if e.index = index then { e with written := e.written ++ [k] } else e

variable {es : List (Epoch κ ν)} {now : κ → ν}

theorem Linked.unchanged (h : Linked es now) {k : κ} (hk : k ∉ writtenIn es) :
    stateFrom es now k = now k := by
  induction es with
  | nil => rfl
  | cons e es ih =>
    obtain ⟨hstep, hrest⟩ := h
    have hk' : k ∉ e.written ∧ k ∉ writtenIn es := by simpa [writtenIn] using hk
    rw [← ih hrest hk'.2, hstep k hk'.1]
    rfl

theorem stateFrom_append (es es' : List (Epoch κ ν)) (now : κ → ν) :
    stateFrom (es ++ es') now = stateFrom es (stateFrom es' now) := by
  cases es <;> rfl

variable {es' : List (Epoch κ ν)}

theorem linked_append : Linked (es ++ es') now ↔ Linked es (stateFrom es' now) ∧ Linked es' now := by
  induction es with
  | nil => simp [Linked]
  | cons e es ih => simp only [cons_append, Linked, ih, stateFrom_append, and_assoc]

theorem split_at {α : Type} {l : List α} {f : α → Nat} (h : l.Pairwise (f · < f ·)) (n : Nat) :
    l = l.filter (f · < n) ++ l.filter (n ≤ f ·) := by
  induction l with
  | nil => rfl
  | cons a l ih =>
    obtain ⟨hfirst, hrest⟩ := pairwise_cons.mp h
    by_cases ha : f a < n
    · rw [filter_cons_of_pos (by simpa using ha), filter_cons_of_neg (by simp; omega),
        cons_append, ← ih hrest]
    · have hnone : (a :: l).filter (f · < n) = [] := by
        apply filter_eq_nil_iff.mpr
        intro b hb
        rcases mem_cons.mp hb with rfl | hb
        · simpa using ha
        · have hlt := hfirst b hb
          simp only [decide_eq_true_eq]
          omega
      have hall : (a :: l).filter (n ≤ f ·) = a :: l := by
        apply filter_eq_self.mpr
        intro b hb
        rcases mem_cons.mp hb with rfl | hb
        · simpa using ha
        · have hlt := hfirst b hb
          simp only [decide_eq_true_eq]
          omega
      rw [hnone, hall, nil_append]

theorem Ordered.split (h : Ordered es) (index : Nat) :
    es = earlier index es ++ since index es := split_at h index

theorem Ordered.earlier (h : Ordered es) (index : Nat) :
    Ordered (earlier index es) := List.Pairwise.filter _ h

theorem Ordered.congr (h : Ordered es) (hindices : es'.map (·.index) = es.map (·.index)) :
    Ordered es' := by
  have hpairwise : (es.map (·.index)).Pairwise (· < ·) := pairwise_map.mpr h
  rw [← hindices] at hpairwise
  exact pairwise_map.mp hpairwise

theorem write_indices (index : Nat) (k : κ) (es : List (Epoch κ ν)) :
    (write index k es).map (·.index) = es.map (·.index) := by
  rw [write, List.map_map]
  apply map_congr_left
  intro e _
  show (if _ then _ else _ : Epoch κ ν).index = e.index
  split <;> rfl

theorem map_ite_of_not {α : Type} {l : List α} {p : α → Prop} [DecidablePred p] {f : α → α}
    (h : ∀ a ∈ l, ¬ p a) : (l.map fun a => if p a then f a else a) = l := by
  induction l with
  | nil => rfl
  | cons a l ih =>
    rw [map_cons, if_neg (h a (.head _)), ih fun b hb => h b (.tail _ hb)]

variable {e : Epoch κ ν}

/-- Only the last epoch has its index. -/
theorem Ordered.apart (h : Ordered (es ++ [e])) : ∀ e' ∈ es, e'.index < e.index := by
  intro e' he'
  exact (pairwise_append.mp h).2.2 e' he' e (.head _)

theorem Ordered.write_last (h : Ordered (es ++ [e])) (k : κ) :
    write e.index k (es ++ [e]) = es ++ [{ e with written := e.written ++ [k] }] := by
  have hes : es.map (fun e' => if e'.index = e.index then
      { e' with written := e'.written ++ [k] } else e') = es := by
    apply map_ite_of_not
    intro e' he'
    have hlt := h.apart e' he'
    omega
  simp [write, hes]

/-- The epoch just before the index is the last one that is kept. -/
theorem Ordered.split_before (h : Ordered es) (he : e ∈ es) {index : Nat}
    (hindex : e.index + 1 = index) : ∃ es', Epochs.earlier index es = es' ++ [e] := by
  have hmem : e ∈ Epochs.earlier index es := by
    refine mem_filter.mpr ⟨he, ?_⟩
    simp only [decide_eq_true_eq]
    omega
  obtain ⟨es', later, hsplit⟩ := append_of_mem hmem
  cases later with
  | nil => exact ⟨es', hsplit⟩
  | cons e' later =>
    have hord := h.earlier index
    rw [hsplit] at hord
    have hlt : e.index < e'.index :=
      rel_of_pairwise_cons (pairwise_append.mp hord).2.1 (.head _)
    have hmem' : e' ∈ Epochs.earlier index es := hsplit ▸ by simp
    have hbelow := (mem_filter.mp hmem').2
    simp only [decide_eq_true_eq] at hbelow
    omega

theorem Ordered.handOver_last (h : Ordered es) {index : Nat} (hindex : e.index + 1 = index)
    (hsplit : Epochs.earlier index es = es' ++ [e]) :
    handOver index es =
      es' ++ [{ e with written := e.written ++ writtenIn (since index es) }] := by
  have hindex' : e.index = index - 1 := by omega
  have hord := h.earlier index
  rw [hsplit] at hord
  have hes : es'.map (fun e' => if e'.index = index - 1 then
      { e' with written := e'.written ++ writtenIn (since index es) } else e') = es' := by
    apply map_ite_of_not
    intro e' he'
    have hlt := hord.apart e' he'
    omega
  unfold handOver
  rw [if_pos ⟨e, by simp [hsplit], hindex'⟩, hsplit]
  simp [hes, hindex']

theorem Linked.goBack (h : Linked es now) (hord : Ordered es) (index : Nat) :
    Linked (Epochs.earlier index es) (stateFrom (since index es) now) := by
  rw [hord.split index] at h
  exact (linked_append.mp h).1

theorem Linked.since (h : Linked es now) (hord : Ordered es) (index : Nat) :
    Linked (Epochs.since index es) now := by
  rw [hord.split index] at h
  exact (linked_append.mp h).2

theorem Linked.begin (h : Linked es now) (index : Nat) : Linked (es ++ [⟨index, now, []⟩]) now := by
  apply linked_append.mpr
  exact ⟨h, fun _ _ => rfl, trivial⟩

theorem Linked.write [DecidableEq κ] (h : Linked (es ++ [e]) now) (k : κ) (v : ν) :
    Linked (es ++ [{ e with written := e.written ++ [k] }]) (Function.update now k v) := by
  obtain ⟨hes, hstep, -⟩ := linked_append.mp h
  refine linked_append.mpr ⟨hes, fun k' hk' => ?_, trivial⟩
  have hnot : k' ∉ e.written ∧ k' ≠ k := by simpa using hk'
  show Function.update now k v k' = e.before k'
  rw [Function.update_of_ne hnot.2]
  exact hstep k' hnot.1

/-- The last kept epoch takes over what the later ones wrote. -/
theorem Linked.takeOver {later : List (Epoch κ ν)} (h : Linked (es ++ e :: later) now) :
    Linked (es ++ [{ e with written := e.written ++ writtenIn later }]) now := by
  obtain ⟨hes, hstep, hlater⟩ := linked_append.mp h
  refine linked_append.mpr ⟨hes, fun k hk => ?_, trivial⟩
  have hnot : k ∉ e.written ∧ k ∉ writtenIn later := by simpa using hk
  show now k = e.before k
  rw [← hlater.unchanged hnot.2]
  exact hstep k hnot.1

end GrokBuild.Epochs
