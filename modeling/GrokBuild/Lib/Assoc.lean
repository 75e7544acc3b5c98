import Mathlib.Data.List.Basic
import Mathlib.Data.List.Perm.Basic
import Mathlib.Data.List.Nodup

/-!
# Association lists

A finite map as the list of its entries, in the order in which their keys
came in. Inserting keeps the keys distinct; what is proved of a map here is
what its lookups give.
-/

namespace GrokBuild.Assoc

open List

variable {κ ν : Type} [DecidableEq κ]

def get? (m : List (κ × ν)) (k : κ) : Option ν := (m.find? (·.1 = k)).map (·.2)

def keys (m : List (κ × ν)) : List κ := m.map (·.1)

/-- The entry of the key, inserted if there is none. -/
def orInsert (m : List (κ × ν)) (k : κ) (v : ν) : List (κ × ν) :=
  if (get? m k).isSome then m else m ++ [(k, v)]

/-- The entry of the key is replaced, or inserted if there is none. -/
def insert (m : List (κ × ν)) (k : κ) (v : ν) : List (κ × ν) :=
  match m with
  | [] => [(k, v)]
  | e :: m => if e.1 = k then (k, v) :: m else e :: insert m k v

/-- Every entry of the second, where the first has none. -/
def orInsertAll (m entries : List (κ × ν)) : List (κ × ν) :=
  entries.foldl (fun m e => orInsert m e.1 e.2) m

def insertAll (m entries : List (κ × ν)) : List (κ × ν) :=
  entries.foldl (fun m e => insert m e.1 e.2) m

@[simp] theorem get?_nil (k : κ) : get? ([] : List (κ × ν)) k = none := rfl

theorem get?_cons (e : κ × ν) (m : List (κ × ν)) (k : κ) :
    get? (e :: m) k = if e.1 = k then some e.2 else get? m k := by
  unfold get?
  rw [find?_cons]
  by_cases h : e.1 = k <;> simp [h]

theorem get?_append (m m' : List (κ × ν)) (k : κ) :
    get? (m ++ m') k = (get? m k).or (get? m' k) := by
  unfold get?
  rw [find?_append]
  cases m.find? (·.1 = k) <;> rfl

variable {m : List (κ × ν)} {k : κ}

theorem get?_isSome : (get? m k).isSome ↔ k ∈ keys m := by
  simp [get?, keys, find?_isSome]

theorem get?_eq_none : get? m k = none ↔ k ∉ keys m := by
  rw [← get?_isSome, Option.not_isSome_iff_eq_none]

theorem get?_of_mem (hm : (keys m).Nodup) {v : ν} (h : (k, v) ∈ m) : get? m k = some v := by
  induction m with
  | nil => cases h
  | cons e m ih =>
    obtain ⟨hnot, hm⟩ := nodup_cons.mp hm
    rw [get?_cons]
    rcases mem_cons.mp h with rfl | h
    · exact if_pos rfl
    · have hne : e.1 ≠ k := by
        rintro rfl
        exact hnot (List.mem_map.mpr ⟨_, h, rfl⟩)
      rw [if_neg hne]
      exact ih hm h

theorem get?_orInsert (m : List (κ × ν)) (k : κ) (v : ν) (k' : κ) :
    get? (orInsert m k v) k' = (get? m k').or (if k = k' then some v else none) := by
  unfold orInsert
  split
  · rename_i h
    by_cases hk : k = k'
    · subst hk
      obtain ⟨w, hw⟩ := Option.isSome_iff_exists.mp h
      simp [hw]
    · simp [hk]
  · rw [get?_append, get?_cons, get?_nil]

theorem keys_insert (m : List (κ × ν)) (k : κ) (v : ν) :
    keys (insert m k v) = if k ∈ keys m then keys m else keys m ++ [k] := by
  induction m with
  | nil => simp [insert, keys]
  | cons e m ih =>
    unfold insert
    by_cases hek : e.1 = k
    · simp [hek, keys]
    · have hke : k ≠ e.1 := fun h => hek h.symm
      have hcons : keys (e :: insert m k v) = e.1 :: keys (insert m k v) := rfl
      rw [if_neg hek, hcons, ih]
      by_cases hmem : k ∈ keys m
      · simp_all [keys]
      · simp_all [keys]

theorem nodup_insert (hm : (keys m).Nodup) (k : κ) (v : ν) : (keys (insert m k v)).Nodup := by
  rw [keys_insert]
  split
  · exact hm
  · exact nodup_append'.mpr ⟨hm, nodup_singleton _, by simpa using ‹_›⟩

theorem mem_insert {v : ν} {e : κ × ν} (he : e ∈ insert m k v) : e = (k, v) ∨ e ∈ m := by
  induction m with
  | nil => exact .inl (mem_singleton.mp he)
  | cons f m ih =>
    unfold insert at he
    split at he
    · exact (mem_cons.mp he).imp id (mem_cons_of_mem _)
    · rcases mem_cons.mp he with rfl | he
      · exact .inr mem_cons_self
      · exact (ih he).imp id (mem_cons_of_mem _)

theorem keys_orInsert (m : List (κ × ν)) (k : κ) (v : ν) :
    keys (orInsert m k v) = if k ∈ keys m then keys m else keys m ++ [k] := by
  unfold orInsert
  by_cases h : k ∈ keys m
  · rw [if_pos (get?_isSome.mpr h), if_pos h]
  · rw [if_neg (fun hs => h (get?_isSome.mp hs)), if_neg h]
    exact map_append

theorem nodup_orInsert (hm : (keys m).Nodup) (k : κ) (v : ν) : (keys (orInsert m k v)).Nodup := by
  rw [keys_orInsert]
  split
  · exact hm
  · exact nodup_append'.mpr ⟨hm, nodup_singleton _, by simpa using ‹_›⟩

theorem nodup_orInsertAll (hm : (keys m).Nodup) (entries : List (κ × ν)) :
    (keys (orInsertAll m entries)).Nodup := by
  induction entries generalizing m with
  | nil => exact hm
  | cons e entries ih => exact ih (nodup_orInsert hm e.1 e.2)

theorem get?_orInsertAll (m entries : List (κ × ν)) (k : κ) :
    get? (orInsertAll m entries) k = (get? m k).or (get? entries k) := by
  induction entries generalizing m with
  | nil => simp [orInsertAll]
  | cons e entries ih =>
    rw [show orInsertAll m (e :: entries) = orInsertAll (orInsert m e.1 e.2) entries from rfl,
      ih, get?_orInsert, get?_cons]
    by_cases he : e.1 = k
    · cases get? m k <;> simp [he]
    · simp [he]

end GrokBuild.Assoc
