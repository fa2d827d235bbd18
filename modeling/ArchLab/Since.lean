/-
**Since: what has happened, and has not been undone.**

A flag that some events set and some events clear says something about the past: the last event that
concerned it set it.  `Since start keep l` is this statement about the list `l` of all events so
far: some event of `l` starts it, and all events after that one keep it.

Main definitions:

* `Since` — an event that starts, and none after it that does not keep.

Main results:

* `since_append_singleton` — what one more event does to it.
-/

import Mathlib.Data.List.Basic

set_option relaxedAutoImplicit false
set_option autoImplicit false

variable {α : Type}

/-- Some element of the list satisfies `start`, and all elements after it satisfy `keep`. -/
def Since (start keep : α → Prop) (l : List α) : Prop :=
  ∃ l₁ x l₂, l = l₁ ++ x :: l₂ ∧ start x ∧ ∀ y ∈ l₂, keep y

variable {start keep : α → Prop} {l : List α} {x : α}

theorem not_since_nil : ¬ Since start keep ([] : List α) := by
  rintro ⟨l₁, x, l₂, h, -⟩
  simp at h

/-- **One more event**: it starts, or it keeps what has been started before. -/
theorem since_append_singleton :
    Since start keep (l ++ [x]) ↔ start x ∨ keep x ∧ Since start keep l := by
  constructor
  · rintro ⟨l₁, y, l₂, h, hy, hl₂⟩
    rcases List.eq_nil_or_concat l₂ with rfl | ⟨l₃, z, rfl⟩
    · obtain ⟨-, e⟩ := List.append_inj' h rfl
      cases e
      exact .inl hy
    · -- the new event is the last one after the start
      have h' : l ++ [x] = (l₁ ++ y :: l₃) ++ [z] := by simpa using h
      obtain ⟨rfl, e⟩ := List.append_inj' h' rfl
      cases e
      refine .inr ⟨hl₂ x (by simp), l₁, y, l₃, rfl, hy, fun w hw => hl₂ w ?_⟩
      simp [hw]
  · rintro (hx | ⟨hx, l₁, y, l₂, rfl, hy, hl₂⟩)
    · exact ⟨l, x, [], rfl, hx, by simp⟩
    · refine ⟨l₁, y, l₂ ++ [x], by simp, hy, fun w hw => ?_⟩
      rcases List.mem_append.1 hw with hw | hw
      · exact hl₂ w hw
      · rwa [List.mem_singleton.1 hw]
