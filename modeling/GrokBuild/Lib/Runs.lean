import Mathlib.Tactic

/-!
# Heads and the runs behind them

A list in which some elements (the followers) belong to the last other
element before them: answers behind a question, indented lines behind a
heading. `cut` takes such a list apart into the heads, each with the run of
followers directly behind it, and `mapRuns` rewrites every run by what its
head says.

A pass over the list that treats each run by itself is a `mapRuns`
(`mapRuns_head`, `mapRuns_follower`, `mapRuns_run` are what a loop meets from
left to right), and several such passes are one (`mapRuns_mapRuns`).
-/

namespace Runs

open List

variable {ι β : Type*}

/-- The followers among the elements, as a type of their own. -/
structure View (ι β : Type*) where
  put : β → ι
  get? : ι → Option β
  get?_put : ∀ b, get? (put b) = some b
  put_of_get? : ∀ x b, get? x = some b → x = put b

/-- A list taken apart: the followers before any head, then the heads with
their runs. -/
@[ext] structure Cut (ι β : Type*) where
  lead : List β
  blocks : List (ι × List β)

variable (v : View ι β)

/-- The element is not a follower. -/
def View.Head (x : ι) : Prop := v.get? x = none

theorem View.head_or_put (x : ι) : v.Head x ∨ ∃ b, x = v.put b := by
  cases h : v.get? x with
  | none => exact .inl h
  | some b => exact .inr ⟨b, v.put_of_get? x b h⟩

theorem View.not_head_put (b : β) : ¬ v.Head (v.put b) := by
  simp [View.Head, v.get?_put]

def cut : List ι → Cut ι β
  | [] => ⟨[], []⟩
  | x :: xs =>
    let c := cut xs
    match v.get? x with
    | some b => ⟨b :: c.lead, c.blocks⟩
    | none => ⟨[], (x, c.lead) :: c.blocks⟩

/-- A head with its run. -/
def block (b : ι × List β) : List ι := b.1 :: b.2.map v.put

def flatten (c : Cut ι β) : List ι := c.lead.map v.put ++ c.blocks.flatMap (block v)

@[simp] theorem cut_nil : cut v [] = ⟨[], []⟩ := rfl

@[simp] theorem cut_put (b : β) (xs : List ι) :
    cut v (v.put b :: xs) = ⟨b :: (cut v xs).lead, (cut v xs).blocks⟩ := by
  rw [cut, v.get?_put]

variable {x : ι}

theorem cut_head (h : v.Head x) (xs : List ι) :
    cut v (x :: xs) = ⟨[], (x, (cut v xs).lead) :: (cut v xs).blocks⟩ := by
  have h' : v.get? x = none := h
  rw [cut, h']

theorem flatten_cut (xs : List ι) : flatten v (cut v xs) = xs := by
  induction xs with
  | nil => rfl
  | cons x xs ih =>
    rw [flatten] at ih
    rcases v.head_or_put x with h | ⟨b, rfl⟩
    · rw [cut_head v h, flatten]
      simp [block, ih]
    · rw [cut_put, flatten]
      simp [ih]

@[simp] theorem cut_map_put_append (run : List β) (xs : List ι) :
    cut v (run.map v.put ++ xs) = ⟨run ++ (cut v xs).lead, (cut v xs).blocks⟩ := by
  induction run with
  | nil => rfl
  | cons b run ih => simp [ih]

theorem cut_blocks {bs : List (ι × List β)} (h : ∀ b ∈ bs, v.Head b.1) :
    cut v (bs.flatMap (block v)) = ⟨[], bs⟩ := by
  induction bs with
  | nil => rfl
  | cons b bs ih =>
    have ih := ih fun b' hb => h b' (mem_cons_of_mem _ hb)
    rw [flatMap_cons, block, cons_append, cut_head v (h b mem_cons_self),
      cut_map_put_append, ih]
    simp

variable {c : Cut ι β}

theorem cut_flatten (h : ∀ b ∈ c.blocks, v.Head b.1) : cut v (flatten v c) = c := by
  rw [flatten, cut_map_put_append, cut_blocks v h]
  simp

variable {xs : List ι}

theorem head_of_mem_blocks : ∀ {b}, b ∈ (cut v xs).blocks → v.Head b.1 := by
  induction xs with
  | nil => simp
  | cons x xs ih =>
    intro b hb
    rcases v.head_or_put x with h | ⟨a, rfl⟩
    · rw [cut_head v h] at hb
      rcases mem_cons.mp hb with rfl | hb
      · exact h
      · exact ih hb
    · exact ih (by simpa using hb)

theorem cut_injective {ys : List ι} (h : cut v xs = cut v ys) : xs = ys := by
  rw [← flatten_cut v xs, h, flatten_cut]

/-! ## Two lists in a row -/

/-- The followers in front of the second list join the last run of the first. -/
def Cut.append (c d : Cut ι β) : Cut ι β :=
  match c.blocks.getLast? with
  | none => ⟨c.lead ++ d.lead, d.blocks⟩
  | some b => ⟨c.lead, c.blocks.dropLast ++ (b.1, b.2 ++ d.lead) :: d.blocks⟩

theorem Cut.append_of_nil {d : Cut ι β} (h : c.blocks = []) :
    c.append d = ⟨c.lead ++ d.lead, d.blocks⟩ := by
  rw [Cut.append, h]
  rfl

theorem Cut.append_of_concat {d : Cut ι β} (bs : List (ι × List β)) (b : ι × List β)
    (h : c.blocks = bs ++ [b]) : c.append d = ⟨c.lead, bs ++ (b.1, b.2 ++ d.lead) :: d.blocks⟩ := by
  rw [Cut.append, h, getLast?_concat]
  simp

theorem cut_append (xs ys : List ι) : cut v (xs ++ ys) = (cut v xs).append (cut v ys) := by
  induction xs with
  | nil => simp [Cut.append]
  | cons x xs ih =>
    rcases eq_nil_or_concat' (cut v xs).blocks with hnil | ⟨bs, b, hbs⟩
    · rw [Cut.append_of_nil hnil] at ih
      rcases v.head_or_put x with h | ⟨a, rfl⟩
      · rw [cons_append, cut_head v h, cut_head v h, ih, hnil,
          Cut.append_of_concat [] (x, (cut v xs).lead) rfl]
        rfl
      · rw [cons_append, cut_put, cut_put, ih]
        exact (Cut.append_of_nil (c := ⟨a :: (cut v xs).lead, (cut v xs).blocks⟩) hnil).symm
    · rw [Cut.append_of_concat bs b hbs] at ih
      rcases v.head_or_put x with h | ⟨a, rfl⟩
      · rw [cons_append, cut_head v h, cut_head v h, ih, hbs,
          Cut.append_of_concat ((x, (cut v xs).lead) :: bs) b rfl]
        rfl
      · rw [cons_append, cut_put, cut_put, ih]
        exact (Cut.append_of_concat (c := ⟨a :: (cut v xs).lead, (cut v xs).blocks⟩) bs b hbs).symm

/-! ## The run in front -/

/-- What is left behind the followers in front. -/
def afterRun (xs : List ι) : List ι := (cut v xs).blocks.flatMap (block v)

theorem lead_append_afterRun (xs : List ι) :
    (cut v xs).lead.map v.put ++ afterRun v xs = xs := flatten_cut v xs

theorem cut_afterRun (xs : List ι) : cut v (afterRun v xs) = ⟨[], (cut v xs).blocks⟩ :=
  cut_blocks v fun _ hb => head_of_mem_blocks v hb

/-! ## Rewriting the runs -/

/-- `f₀` rewrites the followers before any head, `f h` the run behind `h`. -/
def Cut.mapRuns (f₀ : List β → List β) (f : ι → List β → List β) (c : Cut ι β) : Cut ι β where
  lead := f₀ c.lead
  blocks := c.blocks.map fun b => (b.1, f b.1 b.2)

def mapRuns (f₀ : List β → List β) (f : ι → List β → List β) (xs : List ι) : List ι :=
  flatten v ((cut v xs).mapRuns f₀ f)

variable (f₀ g₀ : List β → List β) (f g : ι → List β → List β)

theorem cut_mapRuns (xs : List ι) : cut v (mapRuns v f₀ f xs) = (cut v xs).mapRuns f₀ f := by
  apply cut_flatten
  intro b hb
  obtain ⟨b', hb', rfl⟩ := List.mem_map.mp hb
  exact head_of_mem_blocks v (b := b') hb'

theorem mapRuns_mapRuns (xs : List ι) :
    mapRuns v f₀ f (mapRuns v g₀ g xs) =
      mapRuns v (fun r => f₀ (g₀ r)) (fun h r => f h (g h r)) xs := by
  rw [mapRuns, cut_mapRuns]
  simp [mapRuns, Cut.mapRuns, Function.comp_def]

theorem mapRuns_head (h : v.Head x) (xs : List ι) :
    mapRuns v f₀ f (x :: xs) = (f₀ []).map v.put ++ x :: mapRuns v (f x) f xs := by
  rw [mapRuns, cut_head v h]
  simp [mapRuns, Cut.mapRuns, flatten, block]

theorem mapRuns_follower (b : β) (xs : List ι) :
    mapRuns v (fun r => r) f (v.put b :: xs) = v.put b :: mapRuns v (fun r => r) f xs := by
  simp [mapRuns, Cut.mapRuns, flatten]

theorem mapRuns_run (run : List β) (h : (cut v xs).lead = []) :
    mapRuns v f₀ f (run.map v.put ++ xs) =
      (f₀ run).map v.put ++ mapRuns v (fun r => r) f xs := by
  simp [mapRuns, Cut.mapRuns, flatten, h]

theorem cut_block (hx : v.Head x) (run : List β) (h : (cut v xs).lead = []) :
    cut v (x :: (run.map v.put ++ xs)) = ⟨[], (x, run) :: (cut v xs).blocks⟩ := by
  rw [cut_head v hx, cut_map_put_append, h]
  simp

theorem mapRuns_block (hx : v.Head x) (run : List β) (h : (cut v xs).lead = []) :
    mapRuns v (fun r => r) f (x :: (run.map v.put ++ xs)) =
      x :: ((f x run).map v.put ++ mapRuns v (fun r => r) f xs) := by
  rw [mapRuns_head v _ f hx, mapRuns_run v (f x) f run h]
  rfl

theorem mapRuns_congr (h₀ : f₀ (cut v xs).lead = g₀ (cut v xs).lead)
    (h : ∀ b ∈ (cut v xs).blocks, f b.1 b.2 = g b.1 b.2) : mapRuns v f₀ f xs = mapRuns v g₀ g xs := by
  have hb : (cut v xs).mapRuns f₀ f = (cut v xs).mapRuns g₀ g := by
    rw [Cut.mapRuns, Cut.mapRuns, h₀]
    congr 1
    exact map_congr_left fun b hb => by rw [h b hb]
  rw [mapRuns, mapRuns, hb]

/-- A rewriting that leaves every run alone leaves the list alone. -/
theorem mapRuns_eq_self (h₀ : f₀ (cut v xs).lead = (cut v xs).lead)
    (h : ∀ b ∈ (cut v xs).blocks, f b.1 b.2 = b.2) : mapRuns v f₀ f xs = xs := by
  rw [mapRuns_congr v f₀ (fun r => r) f (fun _ r => r) h₀ h]
  have : (cut v xs).mapRuns (fun r => r) (fun _ r => r) = cut v xs := by
    simp [Cut.mapRuns]
  rw [mapRuns, this, flatten_cut]

/-- The heads, in order. -/
def heads (xs : List ι) : List ι := xs.filter fun x => (v.get? x).isNone

theorem heads_eq (xs : List ι) : heads v xs = (cut v xs).blocks.map (·.1) := by
  induction xs with
  | nil => rfl
  | cons x xs ih =>
    rcases v.head_or_put x with h | ⟨b, rfl⟩
    · have h' : v.get? x = none := h
      rw [cut_head v h]
      simp [heads, h'] at ih ⊢
      exact ih
    · simp [heads, v.get?_put] at ih ⊢
      exact ih

theorem heads_mapRuns (xs : List ι) : heads v (mapRuns v f₀ f xs) = heads v xs := by
  rw [heads_eq, cut_mapRuns, heads_eq]
  simp [Cut.mapRuns]

end Runs
