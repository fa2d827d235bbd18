/-
**Labelled transition systems: runs and their invariants.**

A system is given by its initial states and a labelled step relation.  A run is a finite sequence of
steps from an initial state, recorded by the list of its labels.  Everything a protocol or a
simulator of this development guarantees "in every reachable state" or "along every run" is proved
through the two induction rules below.

Main definitions:

* `Lts.Run` — a run, by the labels it has performed and the state it has reached;
* `Lts.Reachable` — a state at the end of some run.

Main results:

* `Lts.Run.invariant` — a property of labels and state that holds at the start and is kept by every
  step holds at the end of every run;
* `Lts.Run.mono` — a run of a system is a run of every system that has its steps;
* `Lts.Run.step_at` — every label of a run is that of a step from a state the run has reached.
-/

import Mathlib.Logic.Basic

set_option relaxedAutoImplicit false
set_option autoImplicit false

namespace Lts

variable {σ ℓ : Type}

/-- `Run init step ls s` — the labels `ls` lead from an initial state to `s`. -/
inductive Run (init : σ → Prop) (step : σ → ℓ → σ → Prop) : List ℓ → σ → Prop
  | start {s : σ} : init s → Run init step [] s
  | snoc {ls : List ℓ} {s s' : σ} {l : ℓ} :
      Run init step ls s → step s l s' → Run init step (ls ++ [l]) s'

/-- A state at the end of some run. -/
def Reachable (init : σ → Prop) (step : σ → ℓ → σ → Prop) (s : σ) : Prop :=
  ∃ ls, Run init step ls s

variable {init : σ → Prop} {step : σ → ℓ → σ → Prop}

/-- **Induction over a run**: what holds at the start and is kept by every step from a state that a
run has reached holds at the end of every run. -/
theorem Run.invariant {P : List ℓ → σ → Prop} (h₀ : ∀ s, init s → P [] s)
    (hstep : ∀ ls s l s', Run init step ls s → P ls s → step s l s' → P (ls ++ [l]) s')
    {ls : List ℓ} {s : σ} (h : Run init step ls s) : P ls s := by
  induction h with
  | start hs => exact h₀ _ hs
  | snoc hr hs ih => exact hstep _ _ _ _ hr ih hs

/-- The same rule for a property of the state alone. -/
theorem Reachable.invariant {P : σ → Prop} (h₀ : ∀ s, init s → P s)
    (hstep : ∀ s l s', Reachable init step s → P s → step s l s' → P s') {s : σ}
    (h : Reachable init step s) : P s := by
  obtain ⟨ls, hr⟩ := h
  exact hr.invariant (P := fun _ s => P s) h₀ fun ls s l s' hr hp hs => hstep s l s' ⟨ls, hr⟩ hp hs

/-- A run of a system is a run of every system that has its steps. -/
theorem Run.mono {step' : σ → ℓ → σ → Prop} (hle : ∀ s l s', step s l s' → step' s l s')
    {ls : List ℓ} {s : σ} (h : Run init step ls s) : Run init step' ls s := by
  induction h with
  | start hs => exact Run.start hs
  | snoc _ hs ih => exact ih.snoc (hle _ _ _ hs)

/-- A label of a run is that of a step from a state that the labels before it lead to. -/
theorem Run.step_at {before after : List ℓ} {l : ℓ} {s : σ}
    (h : Run init step (before ++ l :: after) s) :
    ∃ s₁ s₂, Run init step before s₁ ∧ step s₁ l s₂ := by
  generalize e : before ++ l :: after = ls at h
  induction h generalizing after with
  | start => simp at e
  | snoc hr hs ih =>
      rcases List.eq_nil_or_concat after with rfl | ⟨after', l', rfl⟩
      · obtain ⟨rfl, hl⟩ := List.append_inj' e rfl
        cases hl
        exact ⟨_, _, hr, hs⟩
      · rw [List.concat_eq_append, ← List.cons_append, ← List.append_assoc] at e
        exact ih (List.append_inj_left' e rfl)

end Lts
