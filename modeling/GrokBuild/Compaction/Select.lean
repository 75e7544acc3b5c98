import GrokBuild.Compaction.UserQueries

/-!
# Compaction: turn selection

`select.rs`: the newest items that fit the target are kept, from an item on
that is no tool result. `Best` says which split that is, for any list; the
walk back finds the longest suffix that fits, and the snap the longest of
those that start at a safe item.
-/

namespace GrokBuild.Compaction

open CompactionItem List

/-- `u32::MAX`. -/
def u32Max : Nat := 2 ^ 32 - 1

/-- `u32::saturating_add`. -/
def saturatingAddU32 (a b : Nat) : Nat := min (a + b) u32Max

/-- `fold(0u32, u32::saturating_add)`. -/
def saturatingSum (counts : List Nat) : Nat := counts.foldl saturatingAddU32 0

def isToolResult {T : Type} [CompactionItem T] (item : T) : Bool := role item = .tool

structure SplitPlan where
  splitIdx : Nat
  tokensToCompact : Nat
  deriving DecidableEq

/-- The walk back of `select_turns_to_compact`, with `i` items to go. -/
def keepLoop (counts : List Nat) (target : Nat) : Nat → Nat → Nat → Nat
  | 0, _, splitIdx => splitIdx
  | i + 1, kept, _ =>
    let count := counts.getD i 0
    if saturatingAddU32 kept count > target then i + 1
    else keepLoop counts target i (saturatingAddU32 kept count) i

/-- The `while` of `snap_to_safe_boundary`, on the items from `idx` on. -/
def skipToolResults {T : Type} [CompactionItem T] : List T → Nat → Nat
  | [], idx => idx
  | item :: items, idx => if isToolResult item then skipToolResults items (idx + 1) else idx

def snapToSafeBoundary {T : Type} [CompactionItem T] (items : List T) (candidate : Nat) : Nat :=
  match items[candidate]? with
  | none => items.length
  | some item =>
    if isToolResult item then skipToolResults (items.drop candidate) candidate else candidate

def selectTurnsToCompact {T : Type} [CompactionItem T] (counts : List Nat) (items : List T)
    (targetTokens minCompactable : Nat) : Option SplitPlan :=
  let total := items.length
  if total = 0 then none
  else
    let splitIdx := keepLoop counts targetTokens total 0 total
    if splitIdx = 0 then none
    else
      let safeSplitIdx := snapToSafeBoundary items splitIdx
      if total ≤ safeSplitIdx then none
      else
        let tokensToCompact := saturatingSum (counts.take safeSplitIdx)
        if tokensToCompact < minCompactable then none
        else some ⟨safeSplitIdx, tokensToCompact⟩

/-! ## Saturating sums -/

theorem foldl_saturatingAddU32 {counts : List Nat} {a : Nat} (h : a ≤ u32Max) :
    counts.foldl saturatingAddU32 a = min (a + counts.sum) u32Max := by
  induction counts generalizing a with
  | nil => simp [h]
  | cons count counts ih =>
    have hadd : saturatingAddU32 a count ≤ u32Max := Nat.min_le_right _ _
    rw [foldl_cons, ih hadd, sum_cons, saturatingAddU32]
    omega

theorem saturatingSum_eq (counts : List Nat) :
    saturatingSum counts = min counts.sum u32Max := by
  rw [saturatingSum, foldl_saturatingAddU32 (Nat.zero_le _), Nat.zero_add]

theorem saturatingSum_cons (count : Nat) (counts : List Nat) :
    saturatingSum (count :: counts) = saturatingAddU32 (saturatingSum counts) count := by
  rw [saturatingSum_eq, saturatingSum_eq, sum_cons, saturatingAddU32]
  omega

/-! ## What a split is for -/

/-- The items from `i` on fit the target. -/
def Fits (counts : List Nat) (target i : Nat) : Prop := saturatingSum (counts.drop i) ≤ target

/-- There is an item at `i`, and it is no tool result. -/
def Safe {T : Type} [CompactionItem T] (items : List T) (i : Nat) : Prop :=
  ∃ item, items[i]? = some item ∧ isToolResult item = false

/-- The longest safe suffix that fits. -/
structure Best {T : Type} [CompactionItem T] (counts : List Nat) (items : List T)
    (target i : Nat) : Prop where
  safe : Safe items i
  fits : Fits counts target i
  least : ∀ k < i, Fits counts target k → ¬ Safe items k

/-- Every tool result follows, through tool results only, the assistant that
requested it. -/
def Paired {T : Type} [CompactionItem T] (items : List T) (request : Nat → Nat) : Prop :=
  ∀ i item, items[i]? = some item → isToolResult item = true →
    request i < i ∧ (∃ assistant, items[request i]? = some assistant ∧ role assistant = .assistant) ∧
      ∀ k, request i < k → k < i → ¬ Safe items k

section Select

variable {T : Type} [CompactionItem T] {counts : List Nat} {items : List T} {target i j : Nat}

theorem Fits.of_le (h : Fits counts target i) (hij : i ≤ j) : Fits counts target j := by
  unfold Fits at *
  rw [saturatingSum_eq] at *
  have hsum : (counts.drop j).sum ≤ (counts.drop i).sum := by
    obtain ⟨k, rfl⟩ := Nat.exists_eq_add_of_le hij
    rw [← drop_drop]
    exact (drop_sublist k (counts.drop i)).sum_le_sum fun _ _ => Nat.zero_le _
  omega

/-- The walk ends at the longest suffix that fits. -/
theorem keepLoop_spec (hi : i ≤ counts.length) (hfits : Fits counts target i) :
    Fits counts target (keepLoop counts target i (saturatingSum (counts.drop i)) i) ∧
      ∀ k < keepLoop counts target i (saturatingSum (counts.drop i)) i, ¬ Fits counts target k := by
  induction i with
  | zero =>
    rw [keepLoop]
    exact ⟨hfits, fun k hk => absurd hk (Nat.not_lt_zero k)⟩
  | succ i ih =>
    have hdrop : counts.drop i = counts[i] :: counts.drop (i + 1) :=
      drop_eq_getElem_cons (by omega)
    have hkept : saturatingAddU32 (saturatingSum (counts.drop (i + 1))) (counts.getD i 0) =
        saturatingSum (counts.drop i) := by
      rw [hdrop, saturatingSum_cons, getD_eq_getElem?_getD,
        getElem?_eq_getElem (by omega), Option.getD_some]
    rw [keepLoop, hkept]
    by_cases hover : saturatingSum (counts.drop i) > target
    · rw [if_pos hover]
      refine ⟨hfits, fun k hk hk' => ?_⟩
      have hfitsi : saturatingSum (counts.drop i) ≤ target := hk'.of_le (Nat.le_of_lt_succ hk)
      omega
    · rw [if_neg hover]
      exact ih (by omega) (Nat.le_of_not_lt hover)

theorem not_safe_of_le (h : items.length ≤ i) : ¬ Safe items i := by
  rintro ⟨item, hitem, -⟩
  rw [getElem?_eq_none h] at hitem
  cases hitem

/-- The `while` stops at the first item that is no tool result, or at the end. -/
theorem skipToolResults_spec (items : List T) (idx : Nat) :
    ∃ n, skipToolResults items idx = idx + n ∧ (∀ k < n, ¬ Safe items k) ∧
      (Safe items n ∨ n = items.length) := by
  induction items generalizing idx with
  | nil => exact ⟨0, rfl, fun k hk => absurd hk (Nat.not_lt_zero k), .inr rfl⟩
  | cons item items ih =>
    rw [skipToolResults]
    by_cases htool : isToolResult item = true
    · obtain ⟨n, hn, hbefore, hstop⟩ := ih (idx + 1)
      rw [if_pos htool]
      refine ⟨n + 1, by omega, ?_, ?_⟩
      · intro k hk hsafe
        cases k with
        | zero =>
          obtain ⟨item', hitem', hno⟩ := hsafe
          obtain rfl : item = item' := by simpa using hitem'
          rw [htool] at hno
          cases hno
        | succ k => exact hbefore k (by omega) hsafe
      · obtain hsafe | hend := hstop
        · exact .inl hsafe
        · exact .inr (by rw [hend, length_cons])
    · rw [if_neg htool]
      have hsafe : Safe (item :: items) 0 := ⟨item, rfl, by simpa using htool⟩
      exact ⟨0, rfl, fun k hk => absurd hk (Nat.not_lt_zero k), .inl hsafe⟩

theorem safe_drop : Safe (items.drop i) j ↔ Safe items (i + j) := by
  unfold Safe
  rw [getElem?_drop]

/-- The snap goes to the first safe item from the candidate on, or to the end. -/
theorem snapToSafeBoundary_spec (items : List T) (candidate : Nat) (h : candidate ≤ items.length) :
    candidate ≤ snapToSafeBoundary items candidate ∧
      (∀ k, candidate ≤ k → k < snapToSafeBoundary items candidate → ¬ Safe items k) ∧
      (Safe items (snapToSafeBoundary items candidate) ∨
        snapToSafeBoundary items candidate = items.length) := by
  cases hitem : items[candidate]? with
  | none =>
    have hend := List.getElem?_eq_none_iff.mp hitem
    rw [snapToSafeBoundary, hitem]
    exact ⟨h, fun k hk _ => not_safe_of_le (by omega), .inr rfl⟩
  | some item =>
    have hsnap : snapToSafeBoundary items candidate =
        if isToolResult item then skipToolResults (items.drop candidate) candidate
        else candidate := by
      rw [snapToSafeBoundary, hitem]
    rw [hsnap]
    by_cases htool : isToolResult item = true
    · rw [if_pos htool]
      obtain ⟨n, hn, hbefore, hstop⟩ := skipToolResults_spec (items.drop candidate) candidate
      rw [hn]
      refine ⟨by omega, ?_, ?_⟩
      · intro k hk hlt hsafe
        obtain ⟨m, rfl⟩ := Nat.exists_eq_add_of_le hk
        exact hbefore m (by omega) (safe_drop.mpr hsafe)
      · obtain hsafe | hend := hstop
        · exact .inl (safe_drop.mp hsafe)
        · rw [length_drop] at hend
          exact .inr (by omega)
    · rw [if_neg htool]
      exact ⟨Nat.le_refl _, fun k hk hlt => by omega, .inl ⟨item, hitem, by simpa using htool⟩⟩

theorem Paired.kept {request : Nat → Nat} {item : T} (hpaired : Paired items request)
    (hsafe : Safe items i) (hij : i ≤ j) (hitem : items[j]? = some item)
    (htool : isToolResult item = true) : i ≤ request j := by
  obtain ⟨-, -, hbetween⟩ := hpaired j item hitem htool
  by_contra hlt
  have hne : i ≠ j := by
    rintro rfl
    obtain ⟨item', hitem', hno⟩ := hsafe
    obtain rfl := Option.some.inj (hitem.symm.trans hitem')
    rw [htool] at hno
    cases hno
  exact hbetween i (by omega) (by omega) hsafe

/-- What a plan is. -/
structure GoodPlan (counts : List Nat) (items : List T) (target minimum : Nat)
    (plan : SplitPlan) : Prop where
  positive : 0 < plan.splitIdx
  inside : plan.splitIdx < items.length
  best : Best counts items target plan.splitIdx
  tokens : plan.tokensToCompact = saturatingSum (counts.take plan.splitIdx)
  enough : minimum ≤ plan.tokensToCompact
  paired : ∀ request, Paired items request → ∀ j item, plan.splitIdx ≤ j →
    items[j]? = some item → isToolResult item = true → plan.splitIdx ≤ request j

/-- Why there is no plan. -/
def NoPlan (counts : List Nat) (items : List T) (target minimum : Nat) : Prop :=
  Fits counts target 0 ∨ (∀ i, Safe items i → ¬ Fits counts target i) ∨
    ∃ i, Best counts items target i ∧ saturatingSum (counts.take i) < minimum

theorem selectTurnsToCompact_cases (counts : List Nat) (items : List T) (target minimum : Nat)
    (hlength : counts.length = items.length) :
    (∃ plan, selectTurnsToCompact counts items target minimum = some plan ∧
      GoodPlan counts items target minimum plan) ∨
      selectTurnsToCompact counts items target minimum = none ∧
        NoPlan counts items target minimum := by
  have hall : Fits counts target items.length := by
    rw [← hlength, Fits, drop_length]
    exact Nat.zero_le target
  have hwalk := keepLoop_spec (Nat.le_of_eq hlength.symm) hall
  have hstart : saturatingSum (counts.drop items.length) = 0 := by
    rw [← hlength, drop_length]
    rfl
  rw [hstart] at hwalk
  unfold selectTurnsToCompact
  dsimp only
  generalize keepLoop counts target items.length 0 items.length = splitIdx at hwalk ⊢
  obtain ⟨hfits, hleast⟩ := hwalk
  have hle : splitIdx ≤ items.length := by
    by_contra hgt
    exact hleast items.length (by omega) hall
  obtain ⟨hsnap, hskipped, hstop⟩ := snapToSafeBoundary_spec items splitIdx hle
  have hbefore : ∀ k < snapToSafeBoundary items splitIdx, Fits counts target k → ¬ Safe items k := by
    intro k hk hfitsk
    by_cases hlt : k < splitIdx
    · exact absurd hfitsk (hleast k hlt)
    · exact hskipped k (by omega) hk
  have hfits_zero : splitIdx = 0 → Fits counts target 0 := by
    rintro rfl
    exact hfits
  by_cases hempty : items.length = 0
  · rw [if_pos hempty]
    exact .inr ⟨rfl, .inl (hfits_zero (by omega))⟩
  rw [if_neg hempty]
  by_cases hzero : splitIdx = 0
  · rw [if_pos hzero]
    exact .inr ⟨rfl, .inl (hfits_zero hzero)⟩
  rw [if_neg hzero]
  by_cases hend : items.length ≤ snapToSafeBoundary items splitIdx
  · rw [if_pos hend]
    refine .inr ⟨rfl, .inr (.inl fun i hsafe hfitsi => ?_)⟩
    by_cases hi : i < snapToSafeBoundary items splitIdx
    · exact hbefore i hi hfitsi hsafe
    · exact not_safe_of_le (by omega) hsafe
  rw [if_neg hend]
  have hsafe := hstop.resolve_right (by omega)
  have hbest : Best counts items target (snapToSafeBoundary items splitIdx) :=
    ⟨hsafe, hfits.of_le hsnap, hbefore⟩
  by_cases hmin : saturatingSum (counts.take (snapToSafeBoundary items splitIdx)) < minimum
  · rw [if_pos hmin]
    exact .inr ⟨rfl, .inr (.inr ⟨_, hbest, hmin⟩)⟩
  rw [if_neg hmin]
  refine .inl ⟨_, rfl, ?_, ?_, hbest, rfl, Nat.le_of_not_lt hmin, ?_⟩
  · show 0 < snapToSafeBoundary items splitIdx
    omega
  · show snapToSafeBoundary items splitIdx < items.length
    omega
  · intro request hpaired j item hij hitem htool
    exact hpaired.kept hsafe hij hitem htool

/-- The split is the longest safe suffix that fits; there is none only for a reason. -/
theorem select_turns_to_compact (counts : List Nat) (items : List T) (target minimum : Nat)
    (hlength : counts.length = items.length) :
    match selectTurnsToCompact counts items target minimum with
    | some plan => GoodPlan counts items target minimum plan
    | none => NoPlan counts items target minimum := by
  obtain ⟨plan, hplan, hgood⟩ | ⟨hnone, hno⟩ :=
    selectTurnsToCompact_cases counts items target minimum hlength
  · rw [hplan]
    exact hgood
  · rw [hnone]
    exact hno

end Select

/-- An item that is nothing but its role. -/
instance : CompactionItem CompactionRole where
  role := id
  text _ := none
  isCompactionSummary _ := false
  attachmentRefs _ := []

theorem select_turns_to_compact_snaps :
    GoodPlan [10, 10, 10, 50, 50, 10]
      [CompactionRole.user, .assistant, .assistant, .tool, .tool, .assistant] 60 5 ⟨5, 130⟩ :=
  select_turns_to_compact [10, 10, 10, 50, 50, 10]
    [CompactionRole.user, .assistant, .assistant, .tool, .tool, .assistant] 60 5 rfl

end GrokBuild.Compaction
