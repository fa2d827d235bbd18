/-
**LRU stacks.**

A store of blocks with LRU replacement keeps, for each of its sets, the blocks of the set in the
order of their last use, at most a fixed number of them.  A use moves a block to the front, and what
does not fit drops out at the end; a block can also be taken out.

Two such stores that see the same requests are compared.  If the sets of the second refine the sets
of the first, and its lists may be at least as long, then the first holds no block that the second
does not hold: the blocks of a finer set, in the order in which the first store has them, are always
a prefix of the list of the second store.  So a larger store never misses where a smaller one hits.

Main definitions:

* `Lru.touch`, `Lru.step`, `Lru.after` — what requests do to a store;
* `Lru.Included` — one store is included in another one.

Main results:

* `Lru.Included.step`, `Lru.Included.after` — **inclusion is kept by all requests**;
* `Lru.Included.mem` — what is in the smaller store is in the larger one.
-/

import Mathlib.Data.List.Infix
import Mathlib.Logic.Function.Basic

set_option relaxedAutoImplicit false
set_option autoImplicit false

namespace Lru

variable {B ι κ : Type} [DecidableEq B] [DecidableEq ι] [DecidableEq κ]

/-- What is done to a store. -/
inductive Request (B : Type) where
  | use (b : B)
  | remove (b : B)
  | clear

/-- A block is moved to the front of its list, which has room for `n` blocks. -/
def touch (n : ℕ) (b : B) (l : List B) : List B := (b :: l.erase b).take n

/-- The lists of a store after a request. -/
def step (set : B → ι) (n : ℕ) (r : ι → List B) : Request B → ι → List B
  | .use b => Function.update r (set b) (touch n b (r (set b)))
  | .remove b => Function.update r (set b) ((r (set b)).erase b)
  | .clear => fun _ => []

/-- The lists of a store after some requests. -/
def after (set : B → ι) (n : ℕ) (r : ι → List B) (qs : List (Request B)) : ι → List B :=
  qs.foldl (step set n) r

theorem length_touch_le (n : ℕ) (b : B) (l : List B) : (touch n b l).length ≤ n :=
  List.length_take_le n _

/-- Taking a block out of a list keeps what the list begins with. -/
theorem isPrefix_erase {l₁ l₂ : List B} (h : l₁ <+: l₂) (b : B) : l₁.erase b <+: l₂.erase b := by
  obtain ⟨t, rfl⟩ := h
  by_cases hb : b ∈ l₁
  · rw [List.erase_append_left t hb]
    exact List.prefix_append _ _
  · rw [List.erase_append_right t hb, List.erase_of_not_mem hb]
    exact List.prefix_append _ _

/-- The blocks of a finer set, in the order in which the first store has them, are what the list of
the second store begins with. -/
def Included (set₂ : B → κ) (f : κ → ι) (r₁ : ι → List B) (r₂ : κ → List B) : Prop :=
  ∀ j, (r₁ (f j)).filter (fun b => set₂ b = j) <+: r₂ j

namespace Included

variable {set₁ : B → ι} {set₂ : B → κ} {f : κ → ι} {r₁ : ι → List B} {r₂ : κ → List B}
  {n₁ n₂ : ℕ}

omit [DecidableEq B] [DecidableEq ι] in
theorem empty : Included set₂ f (fun _ => []) fun _ => [] := fun _ => List.prefix_rfl

omit [DecidableEq B] [DecidableEq ι] in
/-- What is in the first store is in the second one. -/
theorem mem (h : Included set₂ f r₁ r₂) (hf : ∀ b, set₁ b = f (set₂ b)) {b : B}
    (hb : b ∈ r₁ (set₁ b)) : b ∈ r₂ (set₂ b) := by
  rw [hf] at hb
  exact (h (set₂ b)).subset (List.mem_filter.2 ⟨hb, decide_eq_true rfl⟩)

omit [DecidableEq B] in
/-- One list of the first store changes, and so does the list of one of its finer sets. -/
theorem update (h : Included set₂ f r₁ r₂) {k : κ} {l₁ l₂ : List B}
    (hself : l₁.filter (fun b => set₂ b = k) <+: l₂)
    (hother : ∀ j, j ≠ k → l₁.filter (fun b => set₂ b = j) <+:
      (r₁ (f k)).filter (fun b => set₂ b = j)) :
    Included set₂ f (Function.update r₁ (f k) l₁) (Function.update r₂ k l₂) := by
  intro j
  by_cases hj : j = k
  · subst hj
    rw [Function.update_self, Function.update_self]
    exact hself
  · rw [Function.update_of_ne hj]
    by_cases hi : f j = f k
    · rw [hi, Function.update_self]
      exact (hother j hj).trans (hi ▸ h j)
    · rw [Function.update_of_ne hi]
      exact h j

omit [DecidableEq ι] in
/-- The blocks of a finer set after one block has been taken out of the list. -/
theorem filter_erase (l : List B) (b : B) (j : κ) :
    (l.erase b).filter (fun b => set₂ b = j) = (l.filter fun b => set₂ b = j).erase b :=
  List.erase_filter.symm

omit [DecidableEq ι] in
/-- A block of another finer set does not matter. -/
theorem filter_erase_of_ne (l : List B) {b : B} {j : κ} (hj : j ≠ set₂ b) :
    (l.erase b).filter (fun b => set₂ b = j) = l.filter fun b => set₂ b = j := by
  rw [filter_erase, List.erase_of_not_mem]
  intro hb
  exact hj (of_decide_eq_true (List.mem_filter.1 hb).2).symm

/-- **A request keeps the inclusion.** -/
theorem step (h : Included set₂ f r₁ r₂) (hf : ∀ b, set₁ b = f (set₂ b)) (hn : n₁ ≤ n₂)
    (q : Request B) : Included set₂ f (step set₁ n₁ r₁ q) (step set₂ n₂ r₂ q) := by
  cases q with
  | use b =>
      simp only [Lru.step, hf]
      refine h.update ?_ ?_
      · -- both lists have the block in front, and the first one is not longer than the second
        refine List.prefix_take_iff.2 ⟨?_, ?_⟩
        · refine ((List.take_prefix n₁ _).filter _).trans ?_
          rw [List.filter_cons_of_pos (by simp), filter_erase]
          exact (List.cons_prefix_cons).2 ⟨rfl, isPrefix_erase (h _) b⟩
        · exact Nat.le_trans (List.length_filter_le _ _) (Nat.le_trans (length_touch_le n₁ b _) hn)
      · intro j hj
        refine ((List.take_prefix n₁ _).filter _).trans ?_
        rw [List.filter_cons_of_neg (by simpa using Ne.symm hj), filter_erase_of_ne _ hj]
  | remove b =>
      simp only [Lru.step, hf]
      refine h.update ?_ ?_
      · rw [filter_erase]
        exact isPrefix_erase (h _) b
      · intro j hj
        rw [filter_erase_of_ne _ hj]
  | clear => exact empty

/-- **Inclusion is kept by all requests.** -/
theorem after (h : Included set₂ f r₁ r₂) (hf : ∀ b, set₁ b = f (set₂ b)) (hn : n₁ ≤ n₂)
    (qs : List (Request B)) : Included set₂ f (after set₁ n₁ r₁ qs) (after set₂ n₂ r₂ qs) := by
  induction qs generalizing r₁ r₂ with
  | nil => exact h
  | cons q qs ih => exact ih (h.step hf hn q)

end Included

end Lru
