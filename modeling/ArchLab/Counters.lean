/-
**Saturating counters as predictors.**

A saturating counter predicts an outcome to be `true` from some value on, and moves by one towards
every outcome it sees, within its bounds.  It errs more often than the rarer outcome occurs, but not
much more: at most twice for each occurrence of the rarer outcome, and a few times until it has left
the side it started on.  Both bounds come from a potential: the distance of the counter from the
values that predict the more frequent outcome.

Main definitions:

* `Counters.train` — the counter after an outcome;
* `Counters.misses` — the mispredictions for a list of outcomes.

Main results:

* `Counters.misses_le_false`, `Counters.misses_le_true` — **a counter errs at most twice for each
  occurrence of one of the outcomes**, up to the distance it starts at;
* `Counters.sum_misses_concat` — the mispredictions of a table of counters, outcome by outcome.
-/

import ArchLab.Potential

set_option relaxedAutoImplicit false
set_option autoImplicit false

namespace Counters

variable {top mid : ℕ}

/-- A saturating counter from 0 to `top` after an outcome. -/
def train (top cnt : ℕ) (taken : Bool) : ℕ := if taken then min (cnt + 1) top else cnt - 1

/-- A counter that predicts an outcome is wrong, or is not. -/
def miss (mid cnt : ℕ) (taken : Bool) : ℕ := if decide (mid ≤ cnt) = taken then 0 else 1

/-- The mispredictions of a counter that predicts `true` from `mid` on. -/
def misses (top mid : ℕ) : ℕ → List Bool → ℕ
  | _, [] => 0
  | cnt, o :: os => miss mid cnt o + misses top mid (train top cnt o) os

/-- More outcomes. -/
theorem misses_append (os os' : List Bool) (cnt : ℕ) :
    misses top mid cnt (os ++ os') =
      misses top mid cnt os + misses top mid (os.foldl (train top) cnt) os' := by
  induction os generalizing cnt with
  | nil => simp [misses]
  | cons p os ih => simp only [List.cons_append, misses, ih, List.foldl_cons, Nat.add_assoc]

/-- One outcome: the misprediction, and the change of the distance from the values that predict
`true`. -/
theorem miss_add_below (hmid : mid ≤ top) (cnt : ℕ) (o : Bool) :
    miss mid cnt o + (mid - train top cnt o) ≤ (if o then 0 else 2) + (mid - cnt) := by
  unfold miss train
  by_cases h : mid ≤ cnt <;> cases o <;> simp [h] <;> omega

/-- The same for the values that predict `false`. -/
theorem miss_add_above (top : ℕ) (hmid : 0 < mid) (cnt : ℕ) (o : Bool) :
    miss mid cnt o + (train top cnt o + 1 - mid) ≤ (if o then 2 else 0) + (cnt + 1 - mid) := by
  unfold miss train
  by_cases h : mid ≤ cnt <;> cases o <;> simp [h] <;> omega

/-- **At most two mispredictions for each `false`**, and those until the counter predicts `true`. -/
theorem misses_le_false (hmid : mid ≤ top) (cnt : ℕ) (os : List Bool) :
    misses top mid cnt os ≤ 2 * os.count false + (mid - cnt) := by
  induction os generalizing cnt with
  | nil => exact Nat.zero_le _
  | cons o os ih =>
      have hstep := miss_add_below hmid cnt o
      have hrest := ih (train top cnt o)
      rw [misses, List.count_cons]
      cases o <;> simp at hstep ⊢ <;> omega

/-- **At most two mispredictions for each `true`**, and those until the counter predicts `false`. -/
theorem misses_le_true (hmid : 0 < mid) (cnt : ℕ) (os : List Bool) :
    misses top mid cnt os ≤ 2 * os.count true + (cnt + 1 - mid) := by
  induction os generalizing cnt with
  | nil => exact Nat.zero_le _
  | cons o os ih =>
      have hstep := miss_add_above top hmid cnt o
      have hrest := ih (train top cnt o)
      rw [misses, List.count_cons]
      cases o <;> simp at hstep ⊢ <;> omega

/-- **One more outcome for a table of counters**: the outcomes of one counter are extended. -/
theorem sum_misses_concat {κ : Type} [Fintype κ] [DecidableEq κ] {seen seen' : κ → List Bool}
    {k : κ} {o : Bool} (hk : seen' k = seen k ++ [o]) (hother : ∀ j, j ≠ k → seen' j = seen j)
    (cnt : ℕ) :
    ∑ j, misses top mid cnt (seen' j) =
      ∑ j, misses top mid cnt (seen j) + miss mid ((seen k).foldl (train top) cnt) o := by
  have hoff := Potential.sum_off (fun j => misses top mid cnt (seen j))
    (fun j => misses top mid cnt (seen' j)) k fun j hj => by rw [hother j hj]
  simp only [hk, misses_append, misses, Nat.add_zero] at hoff
  omega

end Counters
