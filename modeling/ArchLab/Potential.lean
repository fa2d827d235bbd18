/-
**Potential functions.**

A system whose every step lowers a natural number makes only so many steps.  This module has the
rule for labelled transition systems, and what is needed to work with a potential that is a sum over
all the queues of a system: the weight of a list, a sum of which one term changes, the weight of all
the copies of a multicast, and the growth of a quantity over a loop.

Main definitions:

* `Potential.weigh` — the total weight of a list.

Main results:

* `Lts.Run.length_add_le` — **a run is no longer than the potential it uses up**;
* `Lts.exists_stuck` — every state leads to one from which there is no step;
* `Potential.sum_off` — a sum of which one term changes;
* `Potential.sum_ite_mem_le`, `Potential.sum_ite_le_card` — the copies of a multicast;
* `Potential.foldlM_le` — a loop adds at most the sum of what its rounds add.
-/

import Mathlib.Algebra.BigOperators.Group.Finset.Basic
import Mathlib.Algebra.BigOperators.Ring.Finset
import Mathlib.Algebra.Order.BigOperators.Group.Finset
import Mathlib.Data.Fintype.BigOperators
import ArchLab.Lts
import ArchLab.Refine

set_option relaxedAutoImplicit false
set_option autoImplicit false

namespace Lts

variable {σ ℓ : Type} {step : σ → ℓ → σ → Prop} {Φ : σ → ℕ} {s₀ : σ}

/-- **A run is no longer than the potential it uses up.** -/
theorem Run.length_add_le (hΦ : ∀ s l s', step s l s' → Φ s' < Φ s) {ls : List ℓ} {s : σ}
    (h : Run (· = s₀) step ls s) : ls.length + Φ s ≤ Φ s₀ := by
  induction h with
  | start hs => simp [hs]
  | snoc _ hs ih =>
      have := hΦ _ _ _ hs
      rw [List.length_append, List.length_singleton]
      omega

/-- A run, and one from where it leads. -/
theorem Run.append {init : σ → Prop} {ls ls' : List ℓ} {s s' : σ} (h : Run init step ls s)
    (h' : Run (· = s) step ls' s') : Run init step (ls ++ ls') s' := by
  induction h' with
  | start hs =>
      subst hs
      rwa [List.append_nil]
  | snoc _ hs ih =>
      rw [← List.append_assoc]
      exact ih.snoc hs

/-- A step, and a run from where it leads. -/
theorem Run.cons {s₁ : σ} {l : ℓ} (hs : step s₀ l s₁) {ls : List ℓ} {s : σ}
    (h : Run (· = s₁) step ls s) : Run (· = s₀) step (l :: ls) s := by
  have h₀ : Run (· = s₀) step [] s₀ := .start rfl
  exact (h₀.snoc hs).append h

/-- As long as there is a potential, every state leads to one from which there is no step. -/
theorem exists_stuck (hΦ : ∀ s l s', step s l s' → Φ s' < Φ s) (s₀ : σ) :
    ∃ ls s, Run (· = s₀) step ls s ∧ ∀ l s', ¬ step s l s' := by
  induction hn : Φ s₀ using Nat.strong_induction_on generalizing s₀ with
  | _ n ih =>
      subst hn
      by_cases hstuck : ∀ l s', ¬ step s₀ l s'
      · exact ⟨[], s₀, .start rfl, hstuck⟩
      · push Not at hstuck
        obtain ⟨l, s₁, hs⟩ := hstuck
        obtain ⟨ls, s, hr, hs'⟩ := ih (Φ s₁) (hΦ _ _ _ hs) s₁ rfl
        exact ⟨l :: ls, s, hr.cons hs, hs'⟩

end Lts

namespace Potential

variable {α β ι : Type}

/-- The total weight of a list. -/
def weigh (w : α → ℕ) (q : List α) : ℕ := (q.map w).sum

@[simp] theorem weigh_nil (w : α → ℕ) : weigh w [] = 0 := rfl

@[simp] theorem weigh_cons (w : α → ℕ) (a : α) (q : List α) : weigh w (a :: q) = w a + weigh w q :=
  rfl

@[simp] theorem weigh_append (w : α → ℕ) (p q : List α) :
    weigh w (p ++ q) = weigh w p + weigh w q := by
  simp [weigh]

/-- A sum of which one term changes. -/
theorem sum_off [Fintype ι] [DecidableEq ι] (f f' : ι → ℕ) (i : ι)
    (h : ∀ j, j ≠ i → f' j = f j) : (∑ j, f' j) + f i = (∑ j, f j) + f' i := by
  have hrest : ∑ j ∈ Finset.univ.erase i, f' j = ∑ j ∈ Finset.univ.erase i, f j :=
    Finset.sum_congr rfl fun j hj => h j (Finset.ne_of_mem_erase hj)
  rw [← Finset.sum_erase_add _ _ (Finset.mem_univ i), ← Finset.sum_erase_add _ f
    (Finset.mem_univ i), hrest]
  omega

/-- The same for a double sum. -/
theorem sum_off₂ {κ : Type} [Fintype ι] [DecidableEq ι] [Fintype κ] [DecidableEq κ]
    (f f' : ι → κ → ℕ) (i : ι) (k : κ) (h : ∀ j l, (j, l) ≠ (i, k) → f' j l = f j l) :
    (∑ j, ∑ l, f' j l) + f i k = (∑ j, ∑ l, f j l) + f' i k := by
  have hrow := sum_off (f i) (f' i) k fun l hl => h i l fun e => hl (congrArg Prod.snd e)
  have hrows := sum_off (fun j => ∑ l, f j l) (fun j => ∑ l, f' j l) i fun j hj =>
    Finset.sum_congr rfl fun l _ => h j l fun e => hj (congrArg Prod.fst e)
  omega

/-- **The head of one of the channels is handed over.** -/
theorem sum_handover {κ : Type} [Fintype ι] [DecidableEq ι] [Fintype κ] [DecidableEq κ]
    (w : α → ℕ) (f : ι → κ → List α) {i : ι} {k : κ} {a : α} {q : List α} (h : f i k = a :: q) :
    (∑ j, ∑ l, weigh w (Function.update f i (Function.update (f i) k q) j l)) + w a =
      ∑ j, ∑ l, weigh w (f j l) := by
  have hoff := sum_off₂ (fun j l => weigh w (f j l))
    (fun j l => weigh w (Function.update f i (Function.update (f i) k q) j l)) i k fun j l hjl => by
      by_cases hj : j = i
      · subst hj
        have hl : l ≠ k := fun e => hjl (by rw [e])
        rw [Function.update_self, Function.update_of_ne hl]
      · rw [Function.update_of_ne hj]
  simp only [h, weigh_cons, Function.update_self] at hoff
  omega

/-- The weight of what a queue passes on to one place, after one more element. -/
theorem weigh_filter_snoc (w : α → ℕ) (p : α → Bool) (q : List α) (a : α) :
    weigh w ((q ++ [a]).filter p) = weigh w (q.filter p) + if p a = true then w a else 0 := by
  rw [List.filter_append, weigh_append, List.filter_singleton]
  cases p a <;> simp

/-- **The copies of a multicast**: there are at most as many as there are destinations. -/
theorem sum_ite_mem_le [Fintype ι] [DecidableEq β] {f : ι → β} (hf : Function.Injective f)
    (t : Finset β) (k : ℕ) : ∑ i, (if f i ∈ t then k else 0) ≤ t.card * k := by
  rw [← Finset.sum_filter, Finset.sum_const, nsmul_eq_mul, Nat.cast_id]
  refine Nat.mul_le_mul_right k ?_
  calc (Finset.univ.filter fun i => f i ∈ t).card
      = ((Finset.univ.filter fun i => f i ∈ t).image f).card :=
        (Finset.card_image_of_injective _ hf).symm
    _ ≤ t.card := Finset.card_le_card fun b hb => by
        obtain ⟨i, hi, rfl⟩ := Finset.mem_image.1 hb
        exact (Finset.mem_filter.1 hi).2

/-- There are at most as many copies as there are places. -/
theorem sum_ite_le_card [Fintype ι] (p : ι → Prop) [DecidablePred p] (k : ℕ) :
    ∑ i, (if p i then k else 0) ≤ Fintype.card ι * k := by
  calc ∑ i, (if p i then k else 0) ≤ ∑ _i : ι, k :=
        Finset.sum_le_sum fun i _ => by split <;> simp
    _ = Fintype.card ι * k := by rw [Finset.sum_const, nsmul_eq_mul, Nat.cast_id, Finset.card_univ]

/-- A loop adds at most the sum of what its rounds add. -/
theorem foldlM_le {E : Type} {f : β → α → Except E β} {Ψ : β → ℕ} {w : α → ℕ}
    (hf : ∀ b a b', f b a = .ok b' → Ψ b' ≤ Ψ b + w a) {as : List α} {b b' : β}
    (h : as.foldlM f b = .ok b') : Ψ b' ≤ Ψ b + weigh w as := by
  induction as generalizing b with
  | nil =>
      cases h
      simp
  | cons a as ih =>
      rw [List.foldlM_cons] at h
      obtain ⟨b₁, h₁, h₂⟩ := Refine.bind_ok.1 h
      have := hf b a b₁ h₁
      have := ih h₂
      rw [weigh_cons]
      omega

end Potential
