import Mathlib.Data.List.Infix
import Mathlib.Tactic

/-!
# Runs that keep a property

A machine takes step after step. When a property survives exactly the steps
that meet a condition on the state before them, it holds all along a run if
and only if every step of the run meets the condition.
-/

namespace GrokBuild.Guided

open List

variable {σ ε : Type*} (step : σ → ε → σ)

/-- The property holds at the start and in every state the run reaches. -/
def Throughout (P : σ → Prop) (s : σ) (es : List ε) : Prop :=
  ∀ past, past <+: es → P (past.foldl step s)

/-- Every step of the run meets the condition, in the state it is taken in. -/
def EachStep (H : σ → ε → Prop) (s : σ) (es : List ε) : Prop :=
  ∀ past e, past ++ [e] <+: es → H (past.foldl step s) e

variable {step} {P Inv : σ → Prop} {H : σ → ε → Prop} {s : σ} {es : List ε}

theorem throughout_of_step (hstart : P s) (hstep : ∀ s e, P s → P (step s e)) :
    Throughout step P s es := by
  intro past hpast
  clear hpast
  induction past using List.reverseRecOn with
  | nil => exact hstart
  | append_singleton past e ih =>
    rw [foldl_append]
    exact hstep _ _ ih

/-- What every step that meets the condition keeps holds throughout a run of such steps. -/
theorem throughout_of_eachStep (hstart : P s) (hstep : ∀ s e, P s → H s e → P (step s e))
    (h : EachStep step H s es) : Throughout step P s es := by
  intro past
  induction past using List.reverseRecOn with
  | nil => exact fun _ => hstart
  | append_singleton past e ih =>
    intro hpast
    have hbefore : P (past.foldl step s) := ih ((prefix_append _ _).trans hpast)
    rw [foldl_append]
    exact hstep _ _ hbefore (h past e hpast)

theorem eachStep_nil : EachStep step H s [] := by
  intro past e h
  simp at h

theorem eachStep_cons {e : ε} :
    EachStep step H s (e :: es) ↔ H s e ∧ EachStep step H (step s e) es := by
  constructor
  · intro h
    refine ⟨h [] e (cons_prefix_cons.mpr ⟨rfl, nil_prefix⟩), fun past e' hpast => ?_⟩
    exact h (e :: past) e' (cons_prefix_cons.mpr ⟨rfl, hpast⟩)
  · rintro ⟨hfirst, hrest⟩ past e' hpast
    cases past with
    | nil =>
      obtain ⟨rfl, -⟩ := cons_prefix_cons.mp hpast
      exact hfirst
    | cons x past =>
      obtain ⟨rfl, hlater⟩ := cons_prefix_cons.mp hpast
      exact hrest past e' hlater

instance decidableEachStep [∀ s e, Decidable (H s e)] :
    (s : σ) → (es : List ε) → Decidable (EachStep step H s es)
  | _, [] => .isTrue eachStep_nil
  | s, e :: es =>
    have := decidableEachStep (step s e) es
    decidable_of_iff' _ eachStep_cons

theorem eachStep_congr {K : σ → ε → Prop} (hinv : Inv s)
    (hkeep : ∀ s, ∀ e ∈ es, Inv s → Inv (step s e)) (h : ∀ s e, Inv s → (H s e ↔ K s e)) :
    EachStep step H s es ↔ EachStep step K s es := by
  induction es generalizing s with
  | nil => exact iff_of_true eachStep_nil eachStep_nil
  | cons e es ih =>
    rw [eachStep_cons, eachStep_cons, h s e hinv]
    have hnext : Inv (step s e) := hkeep s e mem_cons_self hinv
    rw [ih hnext fun s e he => hkeep s e (mem_cons_of_mem _ he)]

theorem throughout_iff_eachStep (hinv : Inv s) (hstart : P s)
    (hkeep : ∀ s e, Inv s → Inv (step s e))
    (hstep : ∀ s e, Inv s → P s → (P (step s e) ↔ H s e)) :
    Throughout step P s es ↔ EachStep step H s es := by
  have hInv : Throughout step Inv s es := throughout_of_step hinv hkeep
  constructor
  · intro h past e hpast
    have hbefore : past <+: es := (prefix_append _ _).trans hpast
    have hafter : P ((past ++ [e]).foldl step s) := h _ hpast
    rw [foldl_append] at hafter
    exact (hstep _ e (hInv past hbefore) (h past hbefore)).mp hafter
  · intro h
    have hboth : Throughout step (fun s => Inv s ∧ P s) s es := by
      refine throughout_of_eachStep ⟨hinv, hstart⟩ ?_ h
      intro s e hs hH
      exact ⟨hkeep s e hs.1, (hstep s e hs.1 hs.2).mpr hH⟩
    exact fun past hpast => (hboth past hpast).2

/-! ## Steps that may fail -/

section Fallible

/-- Every step that the run comes to meets the condition, in the state it is taken in. -/
def EachTaken (take : σ → ε → Option σ) (H : σ → ε → Prop) : σ → List ε → Prop
  | _, [] => True
  | s, e :: es => H s e ∧ ∀ t, take s e = some t → EachTaken take H t es

variable {take : σ → ε → Option σ}

/-- What every step that meets the condition keeps holds at the end of a run of such steps. -/
theorem of_eachTaken {t : σ} (hstep : ∀ s e s', P s → H s e → take s e = some s' → P s')
    (hstart : P s) (h : EachTaken take H s es) (hrun : es.foldlM take s = some t) : P t := by
  induction es generalizing s with
  | nil =>
    obtain rfl := Option.some.inj hrun
    exact hstart
  | cons e es ih =>
    rw [foldlM_cons] at hrun
    obtain ⟨next, hnext, hrest⟩ := Option.bind_eq_some_iff.mp hrun
    exact ih (hstep s e next hstart h.1 hnext) (h.2 next hnext) hrest

end Fallible

end GrokBuild.Guided
