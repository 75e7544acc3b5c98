import Mathlib.Data.List.AList
import Mathlib.Data.List.Sort

/-!
# Numbered stores

Finite maps whose keys are numbers, gone through in the order of these. A
store that grows at its end is gone through as before, and then comes what
is new.
-/

namespace GrokBuild.Numbered

open List

section Keep

variable {α : Type} {β : α → Type} [DecidableEq α]

/-- The entries that pass the test. -/
def keep (test : (a : α) → β a → Bool) (m : AList β) : AList β where
  entries := m.entries.filter fun e => test e.1 e.2
  nodupKeys := m.nodupKeys.sublist filter_sublist

theorem lookup_keep (test : (a : α) → β a → Bool) (m : AList β) (a : α) :
    (keep test m).lookup a = (m.lookup a).filter (test a) := by
  ext b
  rw [← Option.mem_def, AList.mem_lookup_iff, Option.filter_eq_some_iff, ← Option.mem_def,
    AList.mem_lookup_iff]
  exact mem_filter

end Keep

variable {ν δ : Type} {store : AList fun _ : Nat => ν} {bound k : Nat}

/-- The keys below the bound, in increasing order. -/
def numbersBelow (bound : Nat) (store : AList fun _ : Nat => ν) : List Nat :=
  (store.keys.filter (· < bound)).insertionSort (· ≤ ·)

theorem mem_numbersBelow : k ∈ numbersBelow bound store ↔ k < bound ∧ k ∈ store := by
  simp [numbersBelow, AList.mem_keys, and_comm]

theorem keys_insert_new (hnew : k ∉ store) (v : ν) :
    (store.insert k v).keys = k :: store.keys := by
  rw [AList.keys_insert, erase_of_not_mem (AList.mem_keys.not.mp hnew)]

theorem numbersBelow_insert_ge (hge : bound ≤ k) (hnew : k ∉ store) (v : ν) :
    numbersBelow bound (store.insert k v) = numbersBelow bound store := by
  have hnot : ¬ k < bound := Nat.not_lt.mpr hge
  simp [numbersBelow, keys_insert_new hnew, hnot]

theorem numbersBelow_insert_last (hlt : k < bound) (hlast : ∀ k' ∈ store, k' < k) (v : ν) :
    numbersBelow bound (store.insert k v) = numbersBelow bound store ++ [k] := by
  have hnew : k ∉ store := fun hk => Nat.lt_irrefl k (hlast k hk)
  have hsorted : (numbersBelow bound store).Pairwise (· ≤ ·) :=
    pairwise_insertionSort _ _
  -- both are sorted, and permutations of each other
  refine List.Perm.eq_of_pairwise' (r := (· ≤ ·)) (pairwise_insertionSort _ _) ?_ ?_
  · refine pairwise_append.mpr ⟨hsorted, pairwise_singleton _ _, fun a ha b hb => ?_⟩
    obtain rfl := mem_singleton.mp hb
    exact Nat.le_of_lt (hlast a (mem_numbersBelow.mp ha).2)
  · refine (perm_insertionSort _ _).trans ?_
    rw [keys_insert_new hnew, filter_cons_of_pos (by simpa using hlt)]
    refine List.Perm.trans ?_ (perm_append_singleton _ _).symm
    exact (perm_insertionSort _ _).symm.cons k

/-! ## Going through a store -/

variable (f : δ → Nat → ν → δ) (start : δ)

/-- Through the entries with these keys, one after the other. -/
def foldAt (store : AList fun _ : Nat => ν) (numbers : List Nat) : δ :=
  numbers.foldl (fun d k => match store.lookup k with
    | none => d
    | some v => f d k v) start

theorem foldAt_congr {store' : AList fun _ : Nat => ν} {numbers : List Nat}
    (h : ∀ k ∈ numbers, store'.lookup k = store.lookup k) :
    foldAt f start store' numbers = foldAt f start store numbers := by
  unfold foldAt
  refine foldl_ext _ _ _ fun m k hk => ?_
  rw [h k hk]

def foldBelow (bound : Nat) (store : AList fun _ : Nat => ν) : δ :=
  foldAt f start store (numbersBelow bound store)

theorem foldAt_insert (hnew : k ∉ store) (v : ν) :
    foldAt f start (store.insert k v) (numbersBelow bound store) =
      foldBelow f start bound store := by
  refine foldAt_congr f start fun k' hk' => AList.lookup_insert_ne ?_
  rintro rfl
  exact hnew (mem_numbersBelow.mp hk').2

theorem foldBelow_insert_ge (hge : bound ≤ k) (hnew : k ∉ store) (v : ν) :
    foldBelow f start bound (store.insert k v) = foldBelow f start bound store := by
  conv_lhs => rw [foldBelow, numbersBelow_insert_ge hge hnew]
  exact foldAt_insert f start hnew v

theorem foldBelow_insert_last (hlt : k < bound) (hlast : ∀ k' ∈ store, k' < k) (v : ν) :
    foldBelow f start bound (store.insert k v) = f (foldBelow f start bound store) k v := by
  have hnew : k ∉ store := fun hk => Nat.lt_irrefl k (hlast k hk)
  conv_lhs => rw [foldBelow, numbersBelow_insert_last hlt hlast, foldAt, foldl_append]
  rw [foldl_cons, foldl_nil, AList.lookup_insert]
  exact congrArg (f · k v) (foldAt_insert f start hnew v)

end GrokBuild.Numbered
