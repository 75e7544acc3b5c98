import Mathlib.Data.List.Dedup
import Mathlib.Data.List.Forall2
import GrokBuild.Compaction.Select

/-!
# Compaction: fitting the summarizer's input

`intra_compaction/fit.rs`: the ladder that brings `history ++ steps` under a
token budget. A run of the ladder also keeps a ghost, the positions of the
turns that were handed to the truncation.
-/

namespace GrokBuild.Compaction

open CompactionItem List

/-- The part of `CompactionItemBuilder` that the ladder uses. -/
class TruncatePayload (T : Type) extends CompactionItem T where
  truncatePayloadForCompaction : T → Nat → T

open TruncatePayload

/-- The cast `as u32`. -/
def asU32 (n : Nat) : Nat := n % 2 ^ 32

inductive FitRung where
  | verbatim
  | historyTurnSelected
  | toolTruncated
  | stepTurnsSelected
  | emergency
  deriving DecidableEq

structure FitPlan (T : Type) where
  llmTurns : List T
  tokensRaw : Nat
  tokensFit : Nat
  rung : FitRung
  itemsTruncated : Nat
  historyTurnsOmitted : Nat
  stepTurnsOmitted : Nat
  deriving DecidableEq

/-- A plan, and the positions in `history ++ steps` of the turns that were
handed to the truncation, in order. -/
structure FitRun (T : Type) where
  plan : FitPlan T
  passed : List Nat
  deriving DecidableEq

/-- The result of `shrink_oversized_tool_results`, with its share of the ghost. -/
structure Shrunk (T : Type) where
  turns : List T
  n : Nat
  passed : List Nat

/-- One side of the input while the ladder works on it. -/
structure Side (T : Type) where
  turns : List T
  counts : List Nat
  omitted : Nat

section Ladder

variable {T : Type} [TruncatePayload T] (count : T → Nat)

def sumTokens (turns : List T) : Nat := saturatingSum (turns.map count)

def tokenCounts (turns : List T) : List Nat := turns.map count

def shrinkItemToTokenBudget (item : T) (maxTokens : Nat) : T :=
  truncatePayloadForCompaction item maxTokens

/-- A tool result that alone is over the budget. -/
def isOversized (maxTokens : Nat) (t : T) : Bool := isToolResult t && maxTokens < count t

/-- The turns stand at the positions from `pos` on. -/
def shrinkOversizedToolResults (maxTokens : Nat) : Nat → List T → Shrunk T
  | _, [] => ⟨[], 0, []⟩
  | pos, t :: turns =>
    let rest := shrinkOversizedToolResults maxTokens (pos + 1) turns
    if isOversized count maxTokens t then
      ⟨shrinkItemToTokenBudget t maxTokens :: rest.turns, asU32 (rest.n + 1), pos :: rest.passed⟩
    else ⟨t :: rest.turns, rest.n, rest.passed⟩

def keepRecentUnderBudget (turns : List T) (counts : List Nat) (budget : Nat) :
    Option (List T × Nat) :=
  if turns = [] then some ([], 0)
  else if budget = 0 then some ([], asU32 turns.length)
  else if saturatingSum counts ≤ budget then some (turns, 0)
  else
    (selectTurnsToCompact counts turns budget 0).map fun plan =>
      (turns.drop plan.splitIdx, asU32 plan.splitIdx)

/-- What the first and the third rung do to the history and to the steps:
make room beside the `other` tokens, or give the whole side up. -/
def selectSide (turns : List T) (counts : List Nat) (other budget : Nat) : Side T :=
  if other < budget then
    if budget - other < saturatingSum counts then
      match keepRecentUnderBudget turns counts (budget - other) with
      | some (keep, omitted) => ⟨keep, counts.drop omitted, omitted⟩
      | none => ⟨[], [], asU32 turns.length⟩
    else ⟨turns, counts, 0⟩
  else ⟨[], [], asU32 turns.length⟩

def planOk (history steps : List T) (tokensRaw : Nat) (rung : FitRung)
    (itemsTruncated historyTurnsOmitted stepTurnsOmitted : Nat) : FitPlan T :=
  ⟨history ++ steps, tokensRaw, sumTokens count (history ++ steps), rung, itemsTruncated,
    historyTurnsOmitted, stepTurnsOmitted⟩

/-- The turns that the last rung takes the newest of, and what it reports as omitted. -/
def emergencySource (history steps hist step : List T) (histOmitted stepOmitted : Nat) :
    List T × Nat × Nat :=
  if hist ++ step = [] then
    if steps = [] then (history ++ steps, asU32 (history.length - 1), 0)
    else (history ++ steps, asU32 history.length, asU32 (steps.length - 1))
  else if step = [] then
    (hist ++ step, saturatingAddU32 histOmitted (asU32 (hist.length - 1)), stepOmitted)
  else
    (hist ++ step, saturatingAddU32 histOmitted (asU32 hist.length),
      saturatingAddU32 stepOmitted (asU32 (step.length - 1)))

/-- The last rung, after `itemsTruncated` truncations at the positions `passed`. -/
def emergency (history steps hist step : List T) (budget tokensRaw itemsTruncated histOmitted
    stepOmitted : Nat) (passed : List Nat) : FitRun T :=
  let source := emergencySource history steps hist step histOmitted stepOmitted
  match source.1.getLast? with
  | none => ⟨⟨[], tokensRaw, 0, .emergency, itemsTruncated, source.2.1, source.2.2⟩, passed⟩
  | some newest =>
    let last := [shrinkItemToTokenBudget newest budget]
    ⟨⟨last, tokensRaw, sumTokens count last, .emergency, saturatingAddU32 itemsTruncated 1,
      source.2.1, source.2.2⟩, passed ++ [(history ++ steps).length - 1]⟩

/-- `fit_turns_for_summarizer`, with the ghost. -/
def fitRun (history steps : List T) (budget : Nat) : FitRun T :=
  let histCounts := tokenCounts count history
  let stepCounts := tokenCounts count steps
  let tokensRaw := saturatingAddU32 (saturatingSum histCounts) (saturatingSum stepCounts)
  if budget = 0 then
    ⟨⟨[], tokensRaw, 0, .emergency, 0, asU32 history.length, asU32 steps.length⟩, []⟩
  else if tokensRaw ≤ budget then
    ⟨planOk count history steps tokensRaw .verbatim 0 0 0, []⟩
  else
    let hist := selectSide history histCounts (saturatingSum stepCounts) budget
    if saturatingAddU32 (saturatingSum hist.counts) (saturatingSum stepCounts) ≤ budget then
      ⟨planOk count hist.turns steps tokensRaw .historyTurnSelected 0 hist.omitted 0, []⟩
    else
      let hist2 := shrinkOversizedToolResults count budget
        (history.length - hist.turns.length) hist.turns
      let step2 := shrinkOversizedToolResults count budget history.length steps
      let itemsTruncated := saturatingAddU32 hist2.n step2.n
      let passed := hist2.passed ++ step2.passed
      let histCounts := tokenCounts count hist2.turns
      let stepCounts := tokenCounts count step2.turns
      if saturatingAddU32 (saturatingSum histCounts) (saturatingSum stepCounts) ≤ budget then
        ⟨planOk count hist2.turns step2.turns tokensRaw .toolTruncated itemsTruncated
          hist.omitted 0, passed⟩
      else
        let step := selectSide step2.turns stepCounts (saturatingSum histCounts) budget
        if saturatingAddU32 (saturatingSum histCounts) (saturatingSum step.counts) ≤ budget ∧
            (hist2.turns ≠ [] ∨ step.turns ≠ []) then
          ⟨planOk count hist2.turns step.turns tokensRaw .stepTurnsSelected itemsTruncated
            hist.omitted step.omitted, passed⟩
        else
          emergency count history steps hist2.turns step.turns budget tokensRaw itemsTruncated
            hist.omitted step.omitted passed

def fitTurnsForSummarizer (history steps : List T) (budget : Nat) : FitPlan T :=
  (fitRun count history steps budget).plan

/-! ## The truncation of tool results -/

/-- A turn as it was, or a tool result with its payload truncated. -/
def Clipped (budget : Nat) (t t' : T) : Prop :=
  t' = t ∨ isToolResult t = true ∧ t' = shrinkItemToTokenBudget t budget

variable {count} {turns : List T} {budget other pos i k : Nat}

theorem asU32_of_lt {n : Nat} (h : n < 2 ^ 32) : asU32 n = n := Nat.mod_eq_of_lt h

theorem asU32_lt (n : Nat) : asU32 n < 2 ^ 32 := Nat.mod_lt _ (by omega)

omit [TruncatePayload T] in
theorem sumTokens_eq (turns : List T) :
    sumTokens count turns = min (turns.map count).sum u32Max := saturatingSum_eq _

omit [TruncatePayload T] in
theorem saturatingAddU32_sum (hist step : List T) :
    saturatingAddU32 (saturatingSum (tokenCounts count hist))
      (saturatingSum (tokenCounts count step)) = sumTokens count (hist ++ step) := by
  rw [sumTokens_eq, saturatingSum_eq, saturatingSum_eq, saturatingAddU32, tokenCounts, tokenCounts,
    map_append, List.sum_append]
  omega

variable (count) in
theorem shrink_clipped (budget pos : Nat) (turns : List T) :
    List.Forall₂ (Clipped budget) turns
      (shrinkOversizedToolResults count budget pos turns).turns := by
  induction turns generalizing pos with
  | nil => exact .nil
  | cons t turns ih =>
    rw [shrinkOversizedToolResults]
    by_cases hover : isOversized count budget t = true
    · have htool : isToolResult t = true := (Bool.and_eq_true_iff.mp hover).1
      rw [if_pos hover]
      exact .cons (.inr ⟨htool, rfl⟩) (ih (pos + 1))
    · rw [if_neg hover]
      exact .cons (.inl rfl) (ih (pos + 1))

@[simp] theorem length_shrink (budget pos : Nat) (turns : List T) :
    (shrinkOversizedToolResults count budget pos turns).turns.length = turns.length :=
  (shrink_clipped _ budget pos turns).length_eq.symm

theorem shrink_n (budget pos : Nat) (turns : List T) :
    (shrinkOversizedToolResults count budget pos turns).n =
      asU32 (shrinkOversizedToolResults count budget pos turns).passed.length := by
  induction turns generalizing pos with
  | nil => rfl
  | cons t turns ih =>
    rw [shrinkOversizedToolResults]
    split
    · show asU32 (_ + 1) = asU32 (_ + 1)
      rw [ih, asU32, asU32, asU32, Nat.mod_add_mod]
    · exact ih (pos + 1)

theorem mem_shrink_passed {p : Nat} :
    p ∈ (shrinkOversizedToolResults count budget pos turns).passed ↔
      ∃ i t, turns[i]? = some t ∧ isOversized count budget t = true ∧ p = pos + i := by
  induction turns generalizing pos with
  | nil => simp [shrinkOversizedToolResults]
  | cons t turns ih =>
    have hrest : p ∈ (shrinkOversizedToolResults count budget (pos + 1) turns).passed ↔
        ∃ i t', (t :: turns)[i + 1]? = some t' ∧ isOversized count budget t' = true ∧
          p = pos + (i + 1) := by
      rw [ih]
      simp only [getElem?_cons_succ, Nat.add_assoc, Nat.add_comm 1]
    rw [shrinkOversizedToolResults]
    constructor
    · intro hp
      split at hp
      · obtain rfl | hp := mem_cons.mp hp
        · exact ⟨0, t, rfl, by assumption, rfl⟩
        · obtain ⟨i, t', ht'⟩ := hrest.mp hp
          exact ⟨i + 1, t', ht'⟩
      · obtain ⟨i, t', ht'⟩ := hrest.mp hp
        exact ⟨i + 1, t', ht'⟩
    · rintro ⟨i, t', hget, hover, rfl⟩
      cases i with
      | zero =>
        obtain rfl : t = t' := by simpa using hget
        rw [if_pos hover]
        exact .head _
      | succ i =>
        have hmem := hrest.mpr ⟨i, t', hget, hover, rfl⟩
        split
        · exact .tail _ hmem
        · exact hmem

variable (count) in
theorem nodup_shrink_passed (budget pos : Nat) (turns : List T) :
    (shrinkOversizedToolResults count budget pos turns).passed.Nodup := by
  induction turns generalizing pos with
  | nil => exact .nil
  | cons t turns ih =>
    rw [shrinkOversizedToolResults]
    split
    · refine nodup_cons.mpr ⟨fun hpos => ?_, ih (pos + 1)⟩
      obtain ⟨i, t', -, -, heq⟩ := mem_shrink_passed.mp hpos
      omega
    · exact ih (pos + 1)

variable (count) in
theorem length_shrink_passed_le (budget pos : Nat) (turns : List T) :
    (shrinkOversizedToolResults count budget pos turns).passed.length ≤ turns.length := by
  induction turns generalizing pos with
  | nil => exact Nat.le_refl _
  | cons t turns ih =>
    have hrest := ih (pos + 1)
    rw [shrinkOversizedToolResults]
    split
    · exact Nat.succ_le_succ hrest
    · exact Nat.le_succ_of_le hrest

theorem shrink_of_fits (h : (turns.map count).sum ≤ budget) (pos : Nat) :
    shrinkOversizedToolResults count budget pos turns = ⟨turns, 0, []⟩ := by
  induction turns generalizing pos with
  | nil => rfl
  | cons t turns ih =>
    rw [map_cons, sum_cons] at h
    have hno : isOversized count budget t = false := by
      rw [isOversized, decide_eq_false (by omega), Bool.and_false]
    rw [shrinkOversizedToolResults, ih (by omega), hno]
    rfl

/-! ## Making room on one side -/

variable (count) in
/-- The selection keeps nothing: the turns are over the budget, and so is
every part of them that could be kept. -/
def NothingFits (turns : List T) (budget : Nat) : Prop :=
  budget < sumTokens count turns ∧ ∀ i, Safe turns i → ¬ Fits (tokenCounts count turns) budget i

omit [TruncatePayload T] in
theorem fits_iff : Fits (tokenCounts count turns) budget i ↔
    sumTokens count (turns.drop i) ≤ budget := by
  rw [Fits, tokenCounts, sumTokens, map_drop]

/-- What is left of a side: the turns from `k` on. -/
structure Selected (count : T → Nat) (turns : List T) (other budget : Nat) (r : Side T)
    (k : Nat) : Prop where
  le : k ≤ turns.length
  left : r.turns = turns.drop k
  omitted : r.omitted = asU32 k
  fits : k < turns.length → other < budget ∧ sumTokens count (turns.drop k) ≤ budget - other
  safe : k < turns.length → k = 0 ∨ Safe turns k
  cleared : k = turns.length → r.counts = []
  tallied : turns.length < 2 ^ 32 → r.counts = tokenCounts count (turns.drop k)
  nothing : k = turns.length → turns = [] ∨ budget ≤ other ∨ NothingFits count turns (budget - other)

theorem selected_none (h : turns = [] ∨ budget ≤ other ∨ NothingFits count turns (budget - other)) :
    Selected count turns other budget ⟨[], [], asU32 turns.length⟩ turns.length where
  le := Nat.le_refl _
  left := by rw [drop_length]
  omitted := rfl
  fits := fun hlt => absurd hlt (Nat.lt_irrefl _)
  safe := fun hlt => absurd hlt (Nat.lt_irrefl _)
  cleared := fun _ => rfl
  tallied := fun _ => by rw [drop_length]; rfl
  nothing := fun _ => h

theorem selected_all (hlt : other < budget) (hfits : sumTokens count turns ≤ budget - other) :
    Selected count turns other budget ⟨turns, tokenCounts count turns, 0⟩ 0 where
  le := Nat.zero_le _
  left := rfl
  omitted := rfl
  fits := fun _ => ⟨hlt, hfits⟩
  safe := fun _ => .inl rfl
  cleared := fun h => by rw [eq_nil_of_length_eq_zero h.symm]; rfl
  tallied := fun _ => rfl
  nothing := fun h => .inl (eq_nil_of_length_eq_zero h.symm)

theorem selectSide_selected (turns : List T) (other budget : Nat) :
    ∃ k, Selected count turns other budget
      (selectSide turns (tokenCounts count turns) other budget) k := by
  unfold selectSide
  by_cases hother : other < budget
  · rw [if_pos hother]
    by_cases hover : budget - other < saturatingSum (tokenCounts count turns)
    · rw [if_pos hover]
      have hne : turns ≠ [] := by
        rintro rfl
        exact absurd hover (Nat.not_lt_zero _)
      have hroom : budget - other ≠ 0 := by omega
      have hlength : (tokenCounts count turns).length = turns.length := length_map _
      rw [keepRecentUnderBudget, if_neg hne, if_neg hroom, if_neg (Nat.not_le.mpr hover)]
      obtain ⟨plan, hplan, hgood⟩ | ⟨hnone, hno⟩ := selectTurnsToCompact_cases
        (tokenCounts count turns) turns (budget - other) 0 hlength
      · rw [hplan]
        have hfits := fits_iff.mp hgood.best.fits
        have hinside := hgood.inside
        refine ⟨plan.splitIdx, hinside.le, rfl, rfl, fun _ => ⟨hother, hfits⟩,
          fun _ => .inr hgood.best.safe, fun h => by omega, fun hshort => ?_, fun h => by omega⟩
        show (tokenCounts count turns).drop (asU32 plan.splitIdx) = _
        rw [asU32_of_lt (by omega), tokenCounts, tokenCounts, map_drop]
      · rw [hnone]
        refine ⟨turns.length, selected_none (.inr (.inr ⟨hover, ?_⟩))⟩
        obtain hall | hno | ⟨i, -, hmin⟩ := hno
        · exact absurd hall (Nat.not_le.mpr hover)
        · exact hno
        · exact absurd hmin (Nat.not_lt_zero _)
    · rw [if_neg hover]
      exact ⟨0, selected_all hother (Nat.le_of_not_lt hover)⟩
  · rw [if_neg hother]
    exact ⟨turns.length, selected_none (.inr (.inl (Nat.le_of_not_lt hother)))⟩

theorem Selected.eq_length_iff {r : Side T} (h : Selected count turns 0 budget r k)
    (hbudget : 0 < budget) (hover : budget < sumTokens count turns) :
    k = turns.length ↔ NothingFits count turns budget := by
  constructor
  · intro hk
    obtain rfl | hother | hnothing := h.nothing hk
    · exact absurd hover (Nat.not_lt_zero _)
    · omega
    · exact hnothing
  · intro hnothing
    by_contra hne
    have hlt : k < turns.length := Nat.lt_of_le_of_ne h.le hne
    have hfits := (h.fits hlt).2
    obtain rfl | hsafe := h.safe hlt
    · rw [drop_zero] at hfits
      omega
    · exact hnothing.2 k hsafe (fits_iff.mpr hfits)

end Ladder

end GrokBuild.Compaction
