/-
**Walks, and matrices of distances.**

In a graph that is given by a matrix of weights, a walk is named by the vertices it goes through.
Costs of any kind are summed up along it.  A matrix of distances that is no larger than the weights
and satisfies the triangle inequality is below the cost of every walk; if each of its entries is the
cost of a walk, then it holds the least costs.  From a vertex that is not the goal there is then a
first edge that leads closer, as far as its own weight says.

Main definitions:

* `Walks.cost` — what is summed up along a walk;
* `Walks.Goes` — where a walk leads;
* `Walks.Closed` — the triangle inequality.

Main results:

* `Walks.le_cost` — **no walk is cheaper than a closed matrix says**;
* `Walks.exists_first` — **a first edge on the way**.
-/

import Mathlib.Data.List.Basic
import Mathlib.Algebra.Order.Ring.Nat

set_option relaxedAutoImplicit false
set_option autoImplicit false

namespace Walks

variable {V M : Type}

/-- What is summed up along the walk from `i` through the vertices `vs`. -/
def cost [Zero M] [Add M] (c : V → V → M) : V → List V → M
  | _, [] => 0
  | i, v :: vs => c i v + cost c v vs

/-- The walk from `i` through the vertices `vs` has an edge at least, and leads to `j`. -/
inductive Goes : V → V → List V → Prop
  | edge (i j : V) : Goes i j [j]
  | step (i : V) {v j : V} {vs : List V} : Goes v j vs → Goes i j (v :: vs)

/-- Two walks one after the other. -/
theorem Goes.append {i j k : V} {us vs : List V} (h : Goes i k us) (h' : Goes k j vs) :
    Goes i j (us ++ vs) := by
  induction h with
  | edge i k => exact .step i h'
  | step i _ ih => exact .step i (ih h')

theorem Goes.cost_append [AddMonoid M] {c : V → V → M} {i k : V} {us vs : List V}
    (h : Goes i k us) : cost c i (us ++ vs) = cost c i us + cost c k vs := by
  induction h with
  | edge i k =>
      rw [List.singleton_append, cost, cost, cost, add_zero]
  | step i _ ih => rw [List.cons_append, cost, cost, ih, add_assoc]

/-- A matrix of distances satisfies the triangle inequality. -/
def Closed (d : V → V → ℕ) : Prop := ∀ i k j, d i j ≤ d i k + d k j

variable {w d : V → V → ℕ}

/-- **No walk is cheaper than a closed matrix says.** -/
theorem le_cost (hc : Closed d) (hle : ∀ i j, d i j ≤ w i j) {i j : V} {vs : List V}
    (h : Goes i j vs) : d i j ≤ cost w i vs := by
  induction h with
  | edge i j => exact hle i j
  | step i _ ih =>
      calc
        d i _ ≤ d i _ + d _ _ := hc i _ _
        _ ≤ w i _ + cost w _ _ := Nat.add_le_add (hle i _) ih

/-- **A first edge on the way.** If nothing but staying where one is costs nothing, and a walk to
another vertex is as cheap as a closed matrix says, then some edge leads from its start to a vertex
from which the rest of the distance is left. -/
theorem exists_first (hc : Closed d) (hle : ∀ i j, d i j ≤ w i j)
    (hzero : ∀ i j, w i j = 0 ↔ i = j) {i j : V} {vs : List V} (h : Goes i j vs) (hne : i ≠ j)
    (hcost : cost w i vs = d i j) : ∃ v, 0 < w i v ∧ w i v + d v j = d i j := by
  induction h with
  | edge i j =>
      refine ⟨j, Nat.pos_of_ne_zero fun h0 => hne ((hzero i j).1 h0), ?_⟩
      have hself : d j j = 0 := Nat.le_zero.1 ((hzero j j).2 rfl ▸ hle j j)
      rw [hself, add_zero]
      exact hcost
  | @step i v j vs h ih =>
      by_cases h0 : w i v = 0
      · -- an edge without a weight stays where it is
        obtain rfl := (hzero i v).1 h0
        rw [cost, h0, zero_add] at hcost
        exact ih hne hcost
      · refine ⟨v, Nat.pos_of_ne_zero h0, ?_⟩
        rw [cost] at hcost
        have h₁ := le_cost hc hle h
        have h₂ := hc i v j
        have h₃ := hle i v
        omega

end Walks
