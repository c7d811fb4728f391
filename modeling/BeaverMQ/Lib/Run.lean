import Mathlib.Logic.Relation

/-!
# Run — reachability in a system with labelled partial steps

A system is a partial step function `σ → ε → Option σ`. `Reach step good s t` says
that a finite run leads from `s` to `t` all of whose steps satisfy `good`; the
predicate is told the state before the step, the label and the state after it.
-/

namespace Run

variable {σ ε γ : Type} {step : σ → ε → Option σ} {good : σ → ε → σ → Prop}

/-- Reachability by good steps. -/
inductive Reach (step : σ → ε → Option σ) (good : σ → ε → σ → Prop) (s : σ) : σ → Prop
  | refl : Reach step good s s
  | next {t u : σ} {e : ε} (hReach : Reach step good s t) (hStep : step t e = some u)
      (hGood : good t e u) : Reach step good s u

theorem Reach.trans {s t u : σ} (hst : Reach step good s t) (htu : Reach step good t u) :
    Reach step good s u := by
  induction htu with
  | refl => exact hst
  | next _ hStep hGood ih => exact .next ih hStep hGood

theorem Reach.mono {good' : σ → ε → σ → Prop} {s t : σ}
    (hImp : ∀ a e b, good a e b → good' a e b) (hReach : Reach step good s t) :
    Reach step good' s t := by
  induction hReach with
  | refl => exact .refl
  | next _ hStep hGood ih => exact .next ih hStep (hImp _ _ _ hGood)

/-- A property that every good step preserves holds in every reachable state. -/
theorem Reach.invariant {P : σ → Prop} {s t : σ}
    (hStep : ∀ a e b, P a → step a e = some b → good a e b → P b)
    (hInit : P s) (hReach : Reach step good s t) : P t := by
  induction hReach with
  | refl => exact hInit
  | next _ hs hGood ih => exact hStep _ _ _ ih hs hGood

def runList (step : σ → ε → Option σ) : σ → List ε → Option σ
  | s, [] => some s
  | s, e :: es => (step s e).bind fun t => runList step t es

theorem runList_append (step : σ → ε → Option σ) (s : σ) (es fs : List ε) :
    runList step s (es ++ fs) = (runList step s es).bind fun t => runList step t fs := by
  induction es generalizing s with
  | nil => rfl
  | cons e es ih =>
    rw [List.cons_append, runList, runList, Option.bind_assoc]
    exact congrArg _ (funext fun t => ih t)

/-- A run without conditions on its steps is the execution of its labels. -/
theorem Reach.exists_runList {s t : σ} (hReach : Reach step good s t) :
    ∃ es, runList step s es = some t := by
  induction hReach with
  | refl => exact ⟨[], rfl⟩
  | @next t u e _ hStep _ ih =>
    obtain ⟨es, hRun⟩ := ih
    refine ⟨es ++ [e], ?_⟩
    rw [runList_append, hRun, Option.bind_some, runList, hStep]
    rfl

def runChecked (step : σ → ε → Option σ) (check : σ → ε → σ → Bool) :
    σ → List ε → Option σ
  | s, [] => some s
  | s, e :: es => (step s e).bind fun t => if check s e t then runChecked step check t es else none

theorem reach_of_runChecked {check : σ → ε → σ → Bool}
    (hCheck : ∀ a e b, check a e b = true → good a e b) {s t : σ} {es : List ε}
    (hRun : runChecked step check s es = some t) : Reach step good s t := by
  induction es generalizing s with
  | nil =>
    cases hRun
    exact .refl
  | cons e es ih =>
    simp only [runChecked, Option.bind_eq_some_iff] at hRun
    obtain ⟨u, hu, hRest⟩ := hRun
    split at hRest
    · rename_i hOk
      exact (Reach.next .refl hu (hCheck _ _ _ hOk)).trans (ih hRest)
    · cases hRest

section Tests

variable {P : σ → Prop} [DecidablePred P] {s : σ}

/-- An executed run that ends in a state which passes a test. -/
theorem exists_of_runChecked {check : σ → ε → σ → Bool}
    (hCheck : ∀ a e b, check a e b = true → good a e b) (es : List ε)
    (hRun : (runChecked step check s es).any (fun t => decide (P t)) = true) :
    ∃ t, Reach step good s t ∧ P t := by
  obtain ⟨t, hEnd, hTest⟩ := (Option.any_eq_true _ _).mp hRun
  exact ⟨t, reach_of_runChecked hCheck hEnd, of_decide_eq_true hTest⟩

/-- The same with a condition on the steps that can be decided. -/
theorem exists_reach [∀ a e b, Decidable (good a e b)] (es : List ε)
    (hRun : (runChecked step (fun a e b => decide (good a e b)) s es).any
      (fun t => decide (P t)) = true) : ∃ t, Reach step good s t ∧ P t :=
  exists_of_runChecked (fun _ _ _ => of_decide_eq_true) es hRun

/-- The same for a run whose steps are not checked, with the run itself. -/
theorem exists_of_runList {es : List ε}
    (hRun : (runList step s es).any (fun t => decide (P t)) = true) :
    ∃ t, runList step s es = some t ∧ P t := by
  obtain ⟨t, hEnd, hTest⟩ := (Option.any_eq_true _ _).mp hRun
  exact ⟨t, hEnd, of_decide_eq_true hTest⟩

end Tests

end Run
