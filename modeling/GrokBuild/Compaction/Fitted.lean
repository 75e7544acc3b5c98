import GrokBuild.Compaction.Fit
import Mathlib.Logic.Relation
import Mathlib.Tactic

/-!
# Compaction: what the ladder leaves

Every run of the ladder ends in one of a few ways (`fitRun_outcome`), each
with what is left of the input and why. The two accounts of the plan, that
the newest turn is in it and that every turn is counted, are read off the
ways a run can end.
-/

namespace GrokBuild.Compaction

open CompactionItem TruncatePayload List Option

section Outcomes

variable {T : Type} [TruncatePayload T] (count : T → Nat)

/-- How a run ends. The history is never over the budget where a tool result
is truncated, so the only turns that are truncated are steps. -/
inductive Outcome (history steps : List T) (budget : Nat) : FitRun T → Prop
  | zero (hbudget : budget = 0) :
    Outcome history steps budget
      ⟨⟨[], sumTokens count (history ++ steps), 0, .emergency, 0, asU32 history.length,
        asU32 steps.length⟩, []⟩
  | verbatim (hfits : sumTokens count (history ++ steps) ≤ budget) :
    Outcome history steps budget
      ⟨planOk count history steps (sumTokens count (history ++ steps)) .verbatim 0 0 0, []⟩
  | history (k : Nat) (hk : k ≤ history.length)
      (hfits : sumTokens count (history.drop k ++ steps) ≤ budget)
      (hnothing : steps = [] → (k = history.length ↔ NothingFits count history budget)) :
    Outcome history steps budget
      ⟨planOk count (history.drop k) steps (sumTokens count (history ++ steps))
        .historyTurnSelected 0 (asU32 k) 0, []⟩
  | tools (k : Nat) (hk : k ≤ history.length) (shrunk : Shrunk T)
      (hshrunk : shrunk = shrinkOversizedToolResults count budget history.length steps)
      (hfits : sumTokens count (history.drop k ++ shrunk.turns) ≤ budget)
      (hsome : steps = [] → k < history.length ∧ ¬ NothingFits count history budget) :
    Outcome history steps budget
      ⟨planOk count (history.drop k) shrunk.turns (sumTokens count (history ++ steps))
        .toolTruncated shrunk.n (asU32 k) 0, shrunk.passed⟩
  | steps (k : Nat) (hk : k < steps.length) (shrunk : Shrunk T)
      (hshrunk : shrunk = shrinkOversizedToolResults count budget history.length steps)
      (hfits : sumTokens count (shrunk.turns.drop k) ≤ budget)
      (hkeeps : ¬ NothingFits count shrunk.turns budget) :
    Outcome history steps budget
      ⟨planOk count [] (shrunk.turns.drop k) (sumTokens count (history ++ steps))
        .stepTurnsSelected shrunk.n (asU32 history.length) (asU32 k), shrunk.passed⟩
  | newest (newest : T) (hnewest : steps.getLast? = some newest) (shrunk : Shrunk T)
      (hshrunk : shrunk = shrinkOversizedToolResults count budget history.length steps)
      (hbudget : 0 < budget) (hsteps : budget < sumTokens count steps)
      (hnothing : NothingFits count shrunk.turns budget) :
    Outcome history steps budget
      ⟨⟨[shrinkItemToTokenBudget newest budget], sumTokens count (history ++ steps),
        sumTokens count [shrinkItemToTokenBudget newest budget], .emergency,
        saturatingAddU32 shrunk.n 1, asU32 history.length, asU32 (steps.length - 1)⟩,
        shrunk.passed ++ [(history ++ steps).length - 1]⟩
  -- a position that `as u32` changed: the counts are split in the wrong place
  | wrapped (hlong : 2 ^ 32 ≤ steps.length) (newest : T) (shrunk : Shrunk T)
      (hshrunk : shrunk = shrinkOversizedToolResults count budget history.length steps)
      (hnewest : shrunk.turns.getLast? = some newest) (run : FitRun T)
      (hrun : run.plan.llmTurns = [shrinkItemToTokenBudget newest budget]) :
    Outcome history steps budget run

variable {count} {history steps hist step : List T} {budget k : Nat}

theorem saturatingAddU32_zero {n : Nat} (h : n ≤ u32Max) : saturatingAddU32 0 n = n := by
  rw [saturatingAddU32]
  omega

theorem shrink_n_le (pos : Nat) :
    (shrinkOversizedToolResults count budget pos steps).n ≤ u32Max := by
  rw [shrink_n]
  exact Nat.le_pred_of_lt (asU32_lt _)

omit [TruncatePayload T] in
theorem sumTokens_le (h : sumTokens count steps ≤ k) (hk : k < u32Max) :
    (steps.map count).sum ≤ k := by
  rw [sumTokens_eq] at h
  omega

omit [TruncatePayload T] in
theorem sumTokens_append_le (hlt : saturatingSum (tokenCounts count steps) < budget)
    (h : sumTokens count hist ≤ budget - saturatingSum (tokenCounts count steps)) :
    sumTokens count (hist ++ steps) ≤ budget := by
  have h' : saturatingSum (tokenCounts count hist) ≤
      budget - saturatingSum (tokenCounts count steps) := h
  rw [← saturatingAddU32_sum, saturatingAddU32]
  omega

theorem emergency_empty {newest : T} (hnewest : steps.getLast? = some newest)
    (raw n histOmitted stepOmitted : Nat) (passed : List Nat) :
    emergency count history steps [] [] budget raw n histOmitted stepOmitted passed =
      ⟨⟨[shrinkItemToTokenBudget newest budget], raw,
        sumTokens count [shrinkItemToTokenBudget newest budget], .emergency,
        saturatingAddU32 n 1, asU32 history.length, asU32 (steps.length - 1)⟩,
        passed ++ [(history ++ steps).length - 1]⟩ := by
  have hne : steps ≠ [] := by
    rintro rfl
    cases hnewest
  have hsource : emergencySource history steps [] [] histOmitted stepOmitted =
      (history ++ steps, asU32 history.length, asU32 (steps.length - 1)) := by
    rw [emergencySource, append_nil, if_pos rfl, if_neg hne]
  have hlast : (history ++ steps).getLast? = some newest := by
    rw [getLast?_append, hnewest]
    rfl
  unfold emergency
  simp only [hsource, hlast]

theorem emergency_left {newest : T} (hnewest : step.getLast? = some newest)
    (raw n histOmitted stepOmitted : Nat) (passed : List Nat) :
    (emergency count history steps [] step budget raw n histOmitted stepOmitted
      passed).plan.llmTurns = [shrinkItemToTokenBudget newest budget] := by
  have hne : step ≠ [] := by
    rintro rfl
    cases hnewest
  have hsource : (emergencySource history steps [] step histOmitted stepOmitted).1 = step := by
    rw [emergencySource, nil_append, if_neg hne, if_neg hne]
  unfold emergency
  simp only [hsource, hnewest]

theorem stepRung_outcome (hbudget : 0 < budget) {shrunk : Shrunk T}
    (hshrunk : shrunk = shrinkOversizedToolResults count budget history.length steps)
    (hsteps : budget < sumTokens count steps) (hover : budget < sumTokens count shrunk.turns)
    (histOmitted : Nat) (hhist : histOmitted = asU32 history.length) :
    Outcome count history steps budget
      (let side := selectSide shrunk.turns (tokenCounts count shrunk.turns) 0 budget
       if saturatingAddU32 0 (saturatingSum side.counts) ≤ budget ∧
          (([] : List T) ≠ [] ∨ side.turns ≠ []) then
        ⟨planOk count [] side.turns (sumTokens count (history ++ steps)) .stepTurnsSelected
          shrunk.n histOmitted side.omitted, shrunk.passed⟩
       else
        emergency count history steps [] side.turns budget (sumTokens count (history ++ steps))
          shrunk.n histOmitted side.omitted shrunk.passed) := by
  obtain ⟨k, hside⟩ := selectSide_selected shrunk.turns 0 budget
  generalize selectSide shrunk.turns (tokenCounts count shrunk.turns) 0 budget = side at hside
  have hlength : shrunk.turns.length = steps.length := by
    rw [hshrunk, length_shrink]
  have hne : steps ≠ [] := by
    rintro rfl
    exact absurd hsteps (Nat.not_lt_zero _)
  subst hhist
  dsimp only
  by_cases hk : k = shrunk.turns.length
  · have hempty : side.turns = [] := by
      rw [hside.left, hk, drop_length]
    have hnothing := (hside.eq_length_iff hbudget hover).mp hk
    rw [hempty, if_neg (by simp)]
    obtain ⟨newest, hnewest⟩ : ∃ newest, steps.getLast? = some newest :=
      isSome_iff_exists.mp (getLast?_isSome.mpr hne)
    rw [emergency_empty hnewest]
    exact .newest newest hnewest shrunk hshrunk hbudget hsteps hnothing
  · have hlt : k < shrunk.turns.length := Nat.lt_of_le_of_ne hside.le hk
    have hfits : sumTokens count (shrunk.turns.drop k) ≤ budget := (hside.fits hlt).2
    have hleft : side.turns ≠ [] := by
      rw [hside.left, ne_eq, drop_eq_nil_iff]
      omega
    split
    · rw [hside.left, hside.omitted]
      refine .steps k (by omega) shrunk hshrunk hfits fun hnothing => ?_
      exact hk ((hside.eq_length_iff hbudget hover).mpr hnothing)
    · rename_i hno
      obtain ⟨newest, hnewest⟩ : ∃ newest, side.turns.getLast? = some newest :=
        isSome_iff_exists.mp (getLast?_isSome.mpr hleft)
      have hlong : 2 ^ 32 ≤ steps.length := by
        by_contra hshort
        refine hno ⟨?_, .inr hleft⟩
        rw [hside.tallied (by omega)]
        have hle : saturatingSum (tokenCounts count (shrunk.turns.drop k)) ≤ budget := hfits
        rw [saturatingAddU32]
        omega
      refine .wrapped hlong newest shrunk hshrunk ?_ _ (emergency_left hnewest _ _ _ _ _)
      rw [← hnewest, hside.left, getLast?_drop, if_neg (by omega)]

variable (count) in
/-- Every run ends in one of these ways. -/
theorem fitRun_outcome (history steps : List T) (budget : Nat) :
    Outcome count history steps budget (fitRun count history steps budget) := by
  unfold fitRun
  simp only [saturatingAddU32_sum]
  by_cases hzero : budget = 0
  · rw [if_pos hzero]
    exact .zero hzero
  rw [if_neg hzero]
  by_cases hverbatim : sumTokens count (history ++ steps) ≤ budget
  · rw [if_pos hverbatim]
    exact .verbatim hverbatim
  rw [if_neg hverbatim]
  have hraw : sumTokens count (history ++ steps) ≤ u32Max := by
    rw [sumTokens_eq]
    exact Nat.min_le_right _ _
  obtain ⟨k, hhist⟩ := selectSide_selected history
    (saturatingSum (tokenCounts count steps)) budget
  generalize selectSide history (tokenCounts count history)
    (saturatingSum (tokenCounts count steps)) budget = hist at hhist
  have hnothing : steps = [] → (k = history.length ↔ NothingFits count history budget) := by
    rintro rfl
    rw [append_nil] at hverbatim
    exact hhist.eq_length_iff (by omega) (Nat.lt_of_not_le hverbatim)
  rw [hhist.left, hhist.omitted]
  by_cases hselected :
      saturatingAddU32 (saturatingSum hist.counts) (saturatingSum (tokenCounts count steps)) ≤ budget
  · rw [if_pos hselected]
    refine .history k hhist.le ?_ hnothing
    by_cases hk : k = history.length
    · rw [hhist.cleared hk] at hselected
      rw [hk, drop_length, ← saturatingAddU32_sum]
      exact hselected
    · obtain ⟨hlt, hfits⟩ := hhist.fits (Nat.lt_of_le_of_ne hhist.le hk)
      exact sumTokens_append_le hlt hfits
  rw [if_neg hselected]
  -- what is left of the history fits, so nothing of it is truncated
  have hkept : ∀ pos, shrinkOversizedToolResults count budget pos (history.drop k) =
      ⟨history.drop k, 0, []⟩ := by
    intro pos
    by_cases hk : k = history.length
    · rw [hk, drop_length]
      rfl
    · have hfits := (hhist.fits (Nat.lt_of_le_of_ne hhist.le hk)).2
      exact shrink_of_fits (sumTokens_le (Nat.le_trans hfits (Nat.sub_le _ _)) (by omega)) pos
  simp only [hkept, saturatingAddU32_zero (shrink_n_le _), nil_append]
  generalize hshrunk : shrinkOversizedToolResults count budget history.length steps = shrunk
  by_cases htools : sumTokens count (history.drop k ++ shrunk.turns) ≤ budget
  · rw [if_pos htools]
    refine .tools k hhist.le shrunk hshrunk.symm htools fun hempty => ?_
    have hne : k ≠ history.length := by
      intro hk
      apply hselected
      rw [hhist.cleared hk, hempty]
      exact Nat.zero_le _
    exact ⟨Nat.lt_of_le_of_ne hhist.le hne, fun h => hne ((hnothing hempty).mpr h)⟩
  rw [if_neg htools]
  have hk : k = history.length := by
    by_contra hne
    obtain ⟨hlt, hfits⟩ := hhist.fits (Nat.lt_of_le_of_ne hhist.le hne)
    have hsum : (steps.map count).sum ≤ budget :=
      sumTokens_le (Nat.le_of_lt hlt) (by omega)
    rw [shrink_of_fits hsum] at hshrunk
    apply htools
    rw [← hshrunk]
    exact sumTokens_append_le hlt hfits
  subst hk
  rw [drop_length] at htools ⊢
  have hsteps : budget < sumTokens count steps := by
    have hcleared := hhist.cleared rfl
    rw [hcleared] at hselected
    have hle : sumTokens count steps ≤ u32Max := by
      rw [sumTokens_eq]
      exact Nat.min_le_right _ _
    have hzeroAdd := saturatingAddU32_zero hle
    rw [← hzeroAdd]
    exact Nat.lt_of_not_le hselected
  exact stepRung_outcome (by omega) hshrunk.symm hsteps (Nat.lt_of_not_le htools) _ rfl

/-! ## The newest turn -/

/-- The turn, or what truncations of its payload made of it. -/
def Shortened (budget : Nat) : T → T → Prop :=
  Relation.ReflTransGen fun t t' => t' = shrinkItemToTokenBudget t budget

/-- The last of the turns is the newest of the input. -/
def EndsInNewest (history steps : List T) (budget : Nat) (turns : List T) : Prop :=
  ∃ newest turn, (history ++ steps).getLast? = some newest ∧ turns.getLast? = some turn ∧
    Shortened budget newest turn

variable {turns turns' : List T} {newest : T}

theorem Clipped.shortened {t t' : T} (h : Clipped budget t t') : Shortened budget t t' := by
  obtain rfl | ⟨-, rfl⟩ := h
  · exact .refl
  · exact .single rfl

omit [TruncatePayload T] in
theorem getLast?_of_forall₂ {R : T → T → Prop} (h : List.Forall₂ R turns turns') {t : T}
    (ht : turns.getLast? = some t) : ∃ t', turns'.getLast? = some t' ∧ R t t' := by
  induction h with
  | nil => cases ht
  | @cons a b l l' hab hl ih =>
    cases l with
    | nil =>
      cases hl
      obtain rfl : a = t := by simpa using ht
      exact ⟨b, rfl, hab⟩
    | cons c l =>
      obtain ⟨t', ht', hR⟩ := ih (by rwa [getLast?_cons_cons] at ht)
      cases l' with
      | nil => cases ht'
      | cons d l' => exact ⟨t', by rwa [getLast?_cons_cons], hR⟩

theorem clipped_refl (turns : List T) : List.Forall₂ (Clipped budget) turns turns :=
  forall₂_same.mpr fun _ _ => .inl rfl

theorem endsInNewest_of_clipped (h : List.Forall₂ (Clipped budget) turns turns') (hne : turns ≠ [])
    (hsuffix : turns <:+ history ++ steps) : EndsInNewest history steps budget turns' := by
  obtain ⟨newest, hnewest⟩ : ∃ newest, turns.getLast? = some newest :=
    isSome_iff_exists.mp (getLast?_isSome.mpr hne)
  obtain ⟨turn, hturn, hclipped⟩ := getLast?_of_forall₂ h hnewest
  obtain ⟨before, hbefore⟩ := hsuffix
  refine ⟨newest, turn, ?_, hturn, hclipped.shortened⟩
  rw [← hbefore, getLast?_append, hnewest]
  rfl

theorem not_endsInNewest_nil : ¬ EndsInNewest history steps budget [] := by
  rintro ⟨-, turn, -, hturn, -⟩
  cases hturn

omit [TruncatePayload T] in
theorem suffix_drop_append (k : Nat) : history.drop k ++ steps <:+ history ++ steps :=
  (suffix_append_self_iff.mpr (drop_suffix k history))

/-- The summarizer gets the newest turn, except from a history without steps
of which the selection keeps nothing: it then gets no turn at all. -/
theorem fit_keeps_newest_iff (count : T → Nat) (history steps : List T) (budget : Nat)
    (hbudget : 0 < budget) (hne : history ++ steps ≠ []) :
    EndsInNewest history steps budget
        (fitTurnsForSummarizer count history steps budget).llmTurns ↔
      (steps = [] → ¬ NothingFits count history budget) := by
  have houtcome := fitRun_outcome count history steps budget
  rw [fitTurnsForSummarizer]
  generalize fitRun count history steps budget = run at houtcome
  have hclipped (pos : Nat) := shrink_clipped count budget pos steps
  cases houtcome with
  | zero hzero => omega
  | verbatim hfits =>
    refine iff_of_true (endsInNewest_of_clipped (clipped_refl _) hne (suffix_refl _)) ?_
    rintro rfl hnothing
    rw [append_nil] at hfits
    exact absurd hnothing.1 (Nat.not_lt.mpr hfits)
  | history k hk hfits hnothing =>
    by_cases hleft : history.drop k ++ steps = []
    · obtain ⟨hdrop, rfl⟩ := append_eq_nil_iff.mp hleft
      have hlength : k = history.length := by
        rw [drop_eq_nil_iff] at hdrop
        omega
      have hturns : ¬ EndsInNewest history [] budget (history.drop k ++ []) := by
        rw [hleft]
        exact not_endsInNewest_nil
      exact iff_of_false hturns fun h => h rfl ((hnothing rfl).mp hlength)
    · refine iff_of_true (endsInNewest_of_clipped (clipped_refl _) hleft (suffix_drop_append k)) ?_
      rintro rfl hno
      rw [append_nil, drop_eq_nil_iff] at hleft
      have hlength := (hnothing rfl).mpr hno
      omega
  | tools k hk shrunk hshrunk hfits hsome =>
    refine iff_of_true ?_ fun hempty => (hsome hempty).2
    subst hshrunk
    refine endsInNewest_of_clipped (rel_append (clipped_refl (history.drop k)) (hclipped _))
      ?_ (suffix_drop_append k)
    intro hleft
    obtain ⟨hdrop, hempty⟩ := append_eq_nil_iff.mp hleft
    have hlt := (hsome hempty).1
    rw [drop_eq_nil_iff] at hdrop
    omega
  | steps k hk shrunk hshrunk hfits hkeeps =>
    subst hshrunk
    refine iff_of_true ?_ fun hempty => ?_
    · refine endsInNewest_of_clipped (forall₂_drop k (hclipped _)) ?_ ?_
      · rw [ne_eq, drop_eq_nil_iff]
        omega
      · exact (drop_suffix k steps).trans (suffix_append history steps)
    · rw [hempty] at hk
      exact absurd hk (Nat.not_lt_zero k)
  | newest newest hnewest shrunk hshrunk hpos hsteps hnothing =>
    refine iff_of_true ⟨newest, _, ?_, rfl, .single rfl⟩ ?_
    · rw [getLast?_append, hnewest]
      rfl
    · rintro rfl
      cases hnewest
  | wrapped hlong newest shrunk hshrunk hnewest _ hrun =>
    have hsteps : steps ≠ [] := by
      rintro rfl
      rw [length_nil] at hlong
      omega
    refine iff_of_true ?_ fun hempty => absurd hempty hsteps
    subst hshrunk
    obtain ⟨first, turn, hfirst, hturn, hshort⟩ := endsInNewest_of_clipped (hclipped _) hsteps
      (suffix_append history steps)
    obtain rfl : turn = newest := some.inj (hturn.symm.trans hnewest)
    exact ⟨first, _, hfirst, by rw [hrun]; rfl, hshort.tail rfl⟩

/-! ## The account of the turns -/

/-- What a plan says about the turns is true: none is left out uncounted, and
what is there is the end of the input, tool results or the single turn of the
last rung truncated. -/
structure Accounted (history steps : List T) (budget : Nat) (run : FitRun T) : Prop where
  counted : run.plan.historyTurnsOmitted + run.plan.stepTurnsOmitted +
    run.plan.llmTurns.length = history.length + steps.length
  suffix : (∃ k, List.Forall₂ (Clipped budget) ((history ++ steps).drop k) run.plan.llmTurns) ∨
    run.plan.rung = .emergency ∧ ∃ newest, (history ++ steps).getLast? = some newest ∧
      run.plan.llmTurns = [shrinkItemToTokenBudget newest budget]
  truncated : run.plan.itemsTruncated = run.passed.dedup.length
  fits : run.plan.rung ≠ .emergency → run.plan.tokensFit ≤ budget

/-- The last rung takes a tool result that the second rung truncated already. -/
def CountedTwice (count : T → Nat) (history steps : List T) (budget : Nat) : Prop :=
  0 < budget ∧ budget < sumTokens count steps ∧
    NothingFits count (shrinkOversizedToolResults count budget history.length steps).turns budget ∧
    ∃ newest, steps.getLast? = some newest ∧ isOversized count budget newest = true

omit [TruncatePayload T] in
theorem clipped_suffix {R : T → T → Prop} (hsuffix : turns <:+ history ++ steps)
    (h : List.Forall₂ R turns turns') :
    ∃ k, List.Forall₂ R ((history ++ steps).drop k) turns' := by
  obtain ⟨before, hbefore⟩ := hsuffix
  exact ⟨before.length, by rwa [← hbefore, drop_left]⟩

theorem shrink_n_eq (hshort : steps.length < u32Max) (pos : Nat) :
    (shrinkOversizedToolResults count budget pos steps).n =
      (shrinkOversizedToolResults count budget pos steps).passed.dedup.length := by
  have hle := length_shrink_passed_le count budget pos steps
  have hu32 : u32Max < 2 ^ 32 := by decide
  rw [(nodup_shrink_passed _ budget pos steps).dedup, shrink_n, asU32_of_lt (by omega)]

theorem last_mem_passed_iff (hnewest : steps.getLast? = some newest) :
    (history ++ steps).length - 1 ∈
        (shrinkOversizedToolResults count budget history.length steps).passed ↔
      isOversized count budget newest = true := by
  have hne : steps ≠ [] := by
    rintro rfl
    cases hnewest
  have hpos := length_pos_iff.mpr hne
  rw [getLast?_eq_getElem?] at hnewest
  rw [mem_shrink_passed, length_append]
  constructor
  · rintro ⟨i, t, hget, hover, hi⟩
    obtain rfl : i = steps.length - 1 := by omega
    obtain rfl : newest = t := some.inj (hnewest.symm.trans hget)
    exact hover
  · intro hover
    exact ⟨steps.length - 1, newest, hnewest, hover, by omega⟩

/-- What the last rung adds to the count is right unless its turn was counted before. -/
theorem emergency_truncated_iff (hshort : steps.length < u32Max)
    (hnewest : steps.getLast? = some newest) {shrunk : Shrunk T}
    (hshrunk : shrunk = shrinkOversizedToolResults count budget history.length steps) :
    saturatingAddU32 shrunk.n 1 =
        (shrunk.passed ++ [(history ++ steps).length - 1]).dedup.length ↔
      ¬ isOversized count budget newest = true := by
  have hle := length_shrink_passed_le count budget history.length steps
  have hnodup := nodup_shrink_passed count budget history.length steps
  have hn : saturatingAddU32 shrunk.n 1 =
      (shrunk.passed ++ [(history ++ steps).length - 1]).length := by
    have hu32 : u32Max < 2 ^ 32 := by decide
    rw [hshrunk, shrink_n, asU32_of_lt (by omega), length_append, length_singleton,
      saturatingAddU32]
    omega
  rw [← last_mem_passed_iff hnewest, ← hshrunk, hn]
  constructor
  · intro hlength hmem
    have hself := (List.dedup_sublist _).eq_of_length hlength.symm
    have hboth := dedup_eq_self.mp hself
    rw [nodup_append] at hboth
    exact hboth.2.2 _ hmem _ (.head _) rfl
  · intro hmem
    have hboth : (shrunk.passed ++ [(history ++ steps).length - 1]).Nodup := by
      rw [← hshrunk] at hnodup
      refine nodup_append.mpr ⟨hnodup, nodup_singleton _, ?_⟩
      intro a ha b hb hab
      rw [mem_singleton] at hb
      rw [hab, hb] at ha
      exact hmem ha
    rw [hboth.dedup]

theorem not_countedTwice_of_fits (h : sumTokens count steps ≤ budget) :
    ¬ CountedTwice count history steps budget := by
  rintro ⟨-, hsteps, -⟩
  omega

omit [TruncatePayload T] in
theorem sumTokens_right_le (h : sumTokens count (turns ++ steps) ≤ budget) :
    sumTokens count steps ≤ budget := by
  rw [sumTokens_eq] at *
  rw [map_append, List.sum_append] at h
  omega

/-- The plan accounts for every turn, except where the newest step is
truncated twice: it is counted twice then. -/
theorem fit_accounts_iff (count : T → Nat) (history steps : List T) (budget : Nat)
    (hhistory : history.length < u32Max) (hsteps : steps.length < u32Max) :
    Accounted history steps budget (fitRun count history steps budget) ↔
      ¬ CountedTwice count history steps budget := by
  have houtcome := fitRun_outcome count history steps budget
  generalize fitRun count history steps budget = run at houtcome
  have hclipped (pos : Nat) := shrink_clipped count budget pos steps
  have hu32 : u32Max < 2 ^ 32 := by decide
  have hcast : ∀ n, n < u32Max → asU32 n = n := fun n hn => asU32_of_lt (by omega)
  cases houtcome with
  | zero hzero =>
    refine iff_of_true ⟨?_, .inl ⟨(history ++ steps).length, ?_⟩, rfl, ?_⟩ ?_
    · show asU32 history.length + asU32 steps.length + 0 = _
      rw [hcast _ hhistory, hcast _ hsteps]
      omega
    · rw [drop_length]
      exact .nil
    · exact fun hrung => absurd rfl hrung
    · rintro ⟨hpos, -⟩
      omega
  | verbatim hfits =>
    refine iff_of_true ⟨?_, .inl ⟨0, clipped_refl _⟩, rfl, fun _ => hfits⟩
      (not_countedTwice_of_fits (sumTokens_right_le hfits))
    show 0 + 0 + (history ++ steps).length = _
    rw [length_append]
    omega
  | history k hk hfits hnothing =>
    refine iff_of_true ⟨?_, .inl (clipped_suffix (suffix_drop_append k) (clipped_refl _)), rfl,
      fun _ => hfits⟩ (not_countedTwice_of_fits (sumTokens_right_le hfits))
    show asU32 k + 0 + (history.drop k ++ steps).length = _
    rw [hcast k (by omega), length_append, length_drop]
    omega
  | tools k hk shrunk hshrunk hfits hsome =>
    have hturns : List.Forall₂ (Clipped budget) (history.drop k ++ steps)
        (history.drop k ++ shrunk.turns) := by
      rw [hshrunk]
      exact rel_append (clipped_refl _) (hclipped _)
    have htruncated : shrunk.n = shrunk.passed.dedup.length := by
      rw [hshrunk]
      exact shrink_n_eq hsteps _
    refine iff_of_true ⟨?_, .inl (clipped_suffix (suffix_drop_append k) hturns), htruncated,
      fun _ => hfits⟩ ?_
    · show asU32 k + 0 + (history.drop k ++ shrunk.turns).length = _
      rw [← hturns.length_eq, hcast k (by omega), length_append, length_drop]
      omega
    · rintro ⟨-, -, ⟨hover, -⟩, -⟩
      rw [← hshrunk] at hover
      have hle := sumTokens_right_le hfits
      omega
  | steps k hk shrunk hshrunk hfits hkeeps =>
    have hturns : List.Forall₂ (Clipped budget) (steps.drop k) (shrunk.turns.drop k) := by
      rw [hshrunk]
      exact forall₂_drop k (hclipped _)
    have htruncated : shrunk.n = shrunk.passed.dedup.length := by
      rw [hshrunk]
      exact shrink_n_eq hsteps _
    have hsuffix : steps.drop k <:+ history ++ steps :=
      (drop_suffix k steps).trans (suffix_append history steps)
    refine iff_of_true ⟨?_, .inl (clipped_suffix hsuffix hturns), htruncated, fun _ => hfits⟩ ?_
    · show asU32 history.length + asU32 k + (shrunk.turns.drop k).length = _
      rw [← hturns.length_eq, hcast _ hhistory, hcast k (by omega), length_drop]
      omega
    · rintro ⟨-, -, hnothing, -⟩
      rw [← hshrunk] at hnothing
      exact hkeeps hnothing
  | newest newest hnewest shrunk hshrunk hpos hover hnothing =>
    have hlast : (history ++ steps).getLast? = some newest := by
      rw [getLast?_append, hnewest]
      rfl
    have hne : steps ≠ [] := by
      rintro rfl
      cases hnewest
    have hlength := length_pos_iff.mpr hne
    have htruncated := emergency_truncated_iff hsteps hnewest hshrunk
    constructor
    · rintro haccounted ⟨-, -, -, newest', hnewest', htwice⟩
      obtain rfl : newest = newest' := some.inj (hnewest.symm.trans hnewest')
      exact htruncated.mp haccounted.truncated htwice
    · intro honce
      refine ⟨?_, .inr ⟨rfl, newest, hlast, rfl⟩, ?_, fun hrung => absurd rfl hrung⟩
      · show asU32 history.length + asU32 (steps.length - 1) + 1 = _
        rw [hcast _ hhistory, hcast _ (by omega)]
        omega
      · refine htruncated.mpr fun htwice => honce ⟨hpos, hover, ?_, newest, hnewest, htwice⟩
        rw [← hshrunk]
        exact hnothing
  | wrapped hlong => omega

end Outcomes

/-- The truncation that `CompactionItemBuilder` has by default. -/
instance : TruncatePayload CompactionRole where
  truncatePayloadForCompaction item _ := item

theorem fit_keeps_newest_iff_steps :
    EndsInNewest [CompactionRole.user] [.assistant] 1
        (fitTurnsForSummarizer (fun _ => 5) [CompactionRole.user] [.assistant] 1).llmTurns ↔
      ([CompactionRole.assistant] = [] → ¬ NothingFits (fun _ => 5) [CompactionRole.user] 1) :=
  fit_keeps_newest_iff (fun _ => 5) [CompactionRole.user] [.assistant] 1 (by decide) (by decide)

/-- One turn that is over the budget, and no steps. -/
theorem fit_hands_over_nothing :
    (fitTurnsForSummarizer (fun _ => 5) [CompactionRole.user] [] 1).llmTurns = [] ∧
      ¬ EndsInNewest [CompactionRole.user] [] 1
        (fitTurnsForSummarizer (fun _ => 5) [CompactionRole.user] [] 1).llmTurns := by
  have hempty : (fitTurnsForSummarizer (fun _ => 5) [CompactionRole.user] [] 1).llmTurns = [] := by
    decide
  rw [hempty]
  exact ⟨rfl, not_endsInNewest_nil⟩

theorem fit_accounts_iff_steps :
    Accounted [CompactionRole.user] [.assistant] 1
        (fitRun (fun _ => 5) [CompactionRole.user] [.assistant] 1) ↔
      ¬ CountedTwice (fun _ => 5) [CompactionRole.user] [.assistant] 1 :=
  fit_accounts_iff (fun _ => 5) [CompactionRole.user] [.assistant] 1 (by decide) (by decide)

/-- A single tool result that stays over the budget is counted as two. -/
theorem fit_counts_twice :
    (fitRun (fun _ => 5) [] [CompactionRole.tool] 1).plan.itemsTruncated = 2 ∧
      ¬ Accounted [] [CompactionRole.tool] 1
        (fitRun (fun _ => 5) [] [CompactionRole.tool] 1) := by
  have hpassed : (fitRun (fun _ => 5) [] [CompactionRole.tool] 1).passed.dedup.length = 1 := by
    decide
  have htwo : (fitRun (fun _ => 5) [] [CompactionRole.tool] 1).plan.itemsTruncated = 2 := by
    decide
  refine ⟨htwo, fun haccounted => ?_⟩
  have heq := haccounted.truncated
  rw [htwo, hpassed] at heq
  cases heq

end GrokBuild.Compaction
