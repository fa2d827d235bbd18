/-
**Arrays of slots.**

A machine keeps what it works on in small arrays whose entries are empty or hold the name of an
item: reservation stations, functional units, buffers.  What matters about such an array is which
items it holds, and that it holds no item twice; this module says how the two change when a slot is
filled or emptied.

Main definitions:

* `Slots.Holds`, `Slots.Distinct` — an item is in some slot; no item is in two slots;
* `Slots.contents` — the items of some slots, in their order;
* `Slots.count` — the number of slots that hold an item.

Main results:

* `Slots.holds_put`, `Slots.Distinct.put` — filling an empty slot;
* `Slots.Distinct.holds_clear` — emptying a slot;
* `Slots.count_put`, `Slots.Distinct.count_of_holds` — how often an item is in the array.
-/

import Mathlib.Data.Fintype.Basic
import Mathlib.Data.Finset.Card
import Mathlib.Data.List.Basic
import Mathlib.Logic.Function.Basic

set_option relaxedAutoImplicit false
set_option autoImplicit false

namespace Slots

variable {ι α : Type} {a b : ι → Option α} {i : ι} {x y : α}

/-- An item is in some slot. -/
def Holds (a : ι → Option α) (x : α) : Prop := ∃ i, a i = some x

/-- No item is in two slots. -/
def Distinct (a : ι → Option α) : Prop := ∀ i j x, a i = some x → a j = some x → i = j

/-- The items in some slots, in their order. -/
def contents (a : ι → Option α) (is : List ι) : List α := is.filterMap a

theorem mem_contents {is : List ι} : x ∈ contents a is ↔ ∃ i ∈ is, a i = some x :=
  List.mem_filterMap

/-- An array that has lost some of its items still holds none twice. -/
theorem Distinct.mono (h : Distinct a) (hle : ∀ i x, b i = some x → a i = some x) : Distinct b :=
  fun i j x hi hj => h i j x (hle i x hi) (hle j x hj)

section Update

variable [DecidableEq ι]

/-- A slot is filled. -/
theorem holds_put (hi : a i = none) :
    Holds (Function.update a i (some x)) y ↔ Holds a y ∨ y = x := by
  constructor
  · rintro ⟨j, hj⟩
    by_cases hji : j = i
    · subst hji
      rw [Function.update_self] at hj
      exact .inr (Option.some.inj hj).symm
    · rw [Function.update_of_ne hji] at hj
      exact .inl ⟨j, hj⟩
  · rintro (⟨j, hj⟩ | rfl)
    · refine ⟨j, ?_⟩
      rw [Function.update_of_ne]
      · exact hj
      · rintro rfl
        rw [hi] at hj
        cases hj
    · exact ⟨i, Function.update_self i _ a⟩

theorem Distinct.put (h : Distinct a) (hx : ¬ Holds a x) :
    Distinct (Function.update a i (some x)) := by
  intro j k y hj hk
  by_cases hji : j = i
  · subst hji
    rw [Function.update_self] at hj
    by_cases hkj : k = j
    · exact hkj.symm
    · rw [Function.update_of_ne hkj] at hk
      rw [Option.some.inj hj] at hx
      exact absurd ⟨k, hk⟩ hx
  · rw [Function.update_of_ne hji] at hj
    by_cases hki : k = i
    · subst hki
      rw [Function.update_self] at hk
      rw [Option.some.inj hk] at hx
      exact absurd ⟨j, hj⟩ hx
    · rw [Function.update_of_ne hki] at hk
      exact h j k y hj hk

/-- What is left in an array after a slot has been emptied was there before. -/
theorem of_clear {j : ι} (hj : Function.update a i none j = some x) : a j = some x := by
  by_cases hji : j = i
  · subst hji
    rw [Function.update_self] at hj
    cases hj
  · rwa [Function.update_of_ne hji] at hj

/-- A slot is emptied. -/
theorem Distinct.holds_clear (h : Distinct a) (hi : a i = some x) :
    Holds (Function.update a i none) y ↔ Holds a y ∧ y ≠ x := by
  constructor
  · rintro ⟨j, hj⟩
    have hj' := of_clear hj
    refine ⟨⟨j, hj'⟩, ?_⟩
    rintro rfl
    rw [h j i y hj' hi, Function.update_self] at hj
    cases hj
  · rintro ⟨⟨j, hj⟩, hne⟩
    refine ⟨j, ?_⟩
    rw [Function.update_of_ne]
    · exact hj
    · rintro rfl
      exact hne (Option.some.inj (hj.symm.trans hi))

end Update

section Count

variable [Fintype ι] [DecidableEq α]

/-- The number of slots that hold an item. -/
def count (a : ι → Option α) (x : α) : ℕ := (Finset.univ.filter fun i => a i = some x).card

theorem count_of_not_holds (h : ¬ Holds a x) : count a x = 0 := by
  refine Finset.card_eq_zero.2 (Finset.filter_eq_empty_iff.2 fun i _ hi => ?_)
  exact h ⟨i, hi⟩

theorem Distinct.count_of_holds (h : Distinct a) (hx : Holds a x) : count a x = 1 := by
  obtain ⟨i, hi⟩ := hx
  refine Finset.card_eq_one.2 ⟨i, Finset.ext fun j => ?_⟩
  rw [Finset.mem_filter, Finset.mem_singleton]
  refine ⟨fun hj => h j i x hj.2 hi, ?_⟩
  rintro rfl
  exact ⟨Finset.mem_univ j, hi⟩

/-- A slot is filled: its item is there once more. -/
theorem count_put [DecidableEq ι] (hi : a i = none) :
    count (Function.update a i (some x)) y = count a y + if y = x then 1 else 0 := by
  by_cases hyx : y = x
  · subst hyx
    rw [if_pos rfl]
    have hnew : (Finset.univ.filter fun j => Function.update a i (some y) j = some y) =
        insert i (Finset.univ.filter fun j => a j = some y) := by
      ext j
      by_cases hji : j = i
      · subst hji
        simp
      · simp [hji]
    rw [count, hnew, Finset.card_insert_of_notMem (by simp [hi])]
    rfl
  · rw [if_neg hyx, Nat.add_zero, count, count]
    congr 1
    refine Finset.filter_congr fun j _ => ?_
    by_cases hji : j = i
    · subst hji
      simp [hi, Ne.symm hyx]
    · rw [Function.update_of_ne hji]

end Count

end Slots
