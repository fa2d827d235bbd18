/-
**Refinement of computations that may fail.**

Two programs that compute on different representations of the same data are compared step by step:
if the first one succeeds, so does the second, and the results are related; if it fails, the second
one fails in the same way, or the failure is of a kind that is specific to the first.  This relation
goes through the sequence of two computations and through loops.

Main definitions:

* `Refine.Sim` — a computation refines another one, up to failures of its own;
* `Refine.Fails` — the failures of a computation are of some kind;
* `Refine.Meets` — its result has a property, or its failure is of some kind.

Main results:

* `Refine.bind_ok`, `Refine.foldlM_ok`, `Refine.foldlM_each` — what is behind the result of a
  sequence, and of a loop;
* `Refine.foldlM_exists` — a loop the rounds of which succeed;
* `Refine.Sim.bind`, `Refine.Sim.foldlM` — the relation goes through sequences and loops;
* `Refine.Sim.ok`, `Refine.Sim.error_cases` — what it says about a result, and about a failure;
* `Refine.Fails.bind`, `Refine.Fails.foldlM` — the failures of sequences and loops;
* `Refine.Meets.bind`, `Refine.Meets.foldlM` — their results, and the failures in between.
-/

import Mathlib.Logic.Basic

set_option relaxedAutoImplicit false
set_option autoImplicit false

namespace Refine

variable {E α β α' β' γ : Type} {bad : E → Prop} {R : α → β → Prop} {R' : α' → β' → Prop}
  {x : Except E α} {y : Except E β}

/-! ### Results -/

theorem exists_ok (h : x.isOk = true) : ∃ a, x = .ok a := by
  cases x with
  | error e => cases h
  | ok a => exact ⟨a, rfl⟩

/-- The result of a sequence. -/
theorem bind_ok {f : α → Except E β} {b : β} :
    (x >>= f) = .ok b ↔ ∃ a, x = .ok a ∧ f a = .ok b := by
  cases x with
  | error e =>
      constructor
      · intro h
        cases h
      · rintro ⟨_, h, _⟩
        cases h
  | ok a =>
      constructor
      · exact fun h => ⟨a, rfl, h⟩
      · rintro ⟨_, h, hf⟩
        cases h
        exact hf

/-- What every round of a loop keeps holds of its result. -/
theorem foldlM_ok {f : α → γ → Except E α} {P : α → Prop} {cs : List γ} {a a' : α}
    (hf : ∀ c ∈ cs, ∀ a a', P a → f a c = .ok a' → P a') (h : P a) (he : cs.foldlM f a = .ok a') :
    P a' := by
  induction cs generalizing a with
  | nil =>
      cases he
      exact h
  | cons c cs ih =>
      rw [List.foldlM_cons] at he
      obtain ⟨a₁, h₁, h₂⟩ := bind_ok.1 he
      exact ih (fun d hd => hf d (List.mem_cons_of_mem c hd)) (hf c List.mem_cons_self a a₁ h h₁) h₂

/-- A loop succeeds if every round does, and keeps what the next one needs. -/
theorem foldlM_exists {f : α → γ → Except E α} {P : α → Prop} {cs : List γ} {a : α}
    (hf : ∀ c ∈ cs, ∀ a, P a → ∃ a', f a c = .ok a' ∧ P a') (h : P a) :
    ∃ a', cs.foldlM f a = .ok a' ∧ P a' := by
  induction cs generalizing a with
  | nil => exact ⟨a, rfl, h⟩
  | cons c cs ih =>
      obtain ⟨a₁, h₁, hp⟩ := hf c List.mem_cons_self a h
      obtain ⟨a', h', hp'⟩ := ih (fun d hd => hf d (List.mem_cons_of_mem c hd)) hp
      refine ⟨a', ?_, hp'⟩
      rw [List.foldlM_cons, h₁]
      exact h'

/-- What a round of a loop establishes for its own element, and what the other rounds keep, holds
for all elements in the end. -/
theorem foldlM_each {f : α → γ → Except E α} {I : α → Prop} {P : γ → α → Prop}
    {cs : List γ} {a a' : α} (hf : ∀ c ∈ cs, ∀ a a', I a → f a c = .ok a' → I a' ∧ P c a')
    (hkeep : ∀ c ∈ cs, ∀ d ∈ cs, ∀ a a', I a → P c a → f a d = .ok a' → P c a') (h : I a)
    (he : cs.foldlM f a = .ok a') : ∀ c ∈ cs, P c a' := by
  induction cs generalizing a with
  | nil => exact nofun
  | cons c cs ih =>
      rw [List.foldlM_cons] at he
      obtain ⟨a₁, h₁, h₂⟩ := bind_ok.1 he
      obtain ⟨hI, hc⟩ := hf c List.mem_cons_self a a₁ h h₁
      have hcs : ∀ d ∈ cs, d ∈ c :: cs := fun d hd => List.mem_cons_of_mem c hd
      intro d hd
      rcases List.mem_cons.1 hd with rfl | hd
      · -- the rounds after the one for `d` keep what it has established
        have hrest : ∀ d' ∈ cs, ∀ x x', I x ∧ P d x → f x d' = .ok x' → I x' ∧ P d x' := by
          intro d' hd' x x' hx hfx
          exact ⟨(hf d' (hcs d' hd') x x' hx.1 hfx).1,
            hkeep d List.mem_cons_self d' (hcs d' hd') x x' hx.1 hx.2 hfx⟩
        exact (foldlM_ok hrest ⟨hI, hc⟩ h₂).2
      · exact ih (fun d hd => hf d (hcs d hd))
          (fun d hd d' hd' => hkeep d (hcs d hd) d' (hcs d' hd')) hI h₂ d hd

/-! ### Refinement -/

/-- The first computation refines the second, up to failures of a `bad` kind. -/
def Sim (bad : E → Prop) (R : α → β → Prop) : Except E α → Except E β → Prop
  | .ok a, .ok b => R a b
  | .ok _, .error _ => False
  | .error e, y => bad e ∨ y = .error e

theorem Sim.fault {e : E} (h : bad e) : Sim bad R (.error e) y := .inl h

/-- The same failure on both sides. -/
theorem Sim.error {e : E} : Sim bad R (.error e) (.error e) := .inr rfl

/-- The same computation on both sides. -/
theorem Sim.refl {R : α → α → Prop} (h : ∀ a, x = .ok a → R a a) : Sim bad R x x := by
  cases x with
  | ok a => exact h a rfl
  | error e => exact Sim.error

/-- **Sequences.** -/
theorem Sim.bind {f : α → Except E α'} {f' : β → Except E β'} (h : Sim bad R x y)
    (hf : ∀ a b, R a b → Sim bad R' (f a) (f' b)) : Sim bad R' (x >>= f) (y >>= f') := by
  cases x with
  | error e =>
      rcases h with h | rfl
      · exact .inl h
      · exact .inr rfl
  | ok a =>
      cases y with
      | error e => exact h.elim
      | ok b => exact hf a b h

/-- **Loops.** -/
theorem Sim.foldlM {f : α → γ → Except E α} {f' : β → γ → Except E β} {cs : List γ} {a : α} {b : β}
    (hf : ∀ c ∈ cs, ∀ a b, R a b → Sim bad R (f a c) (f' b c)) (h : R a b) :
    Sim bad R (cs.foldlM f a) (cs.foldlM f' b) := by
  induction cs generalizing a b with
  | nil => exact h
  | cons c cs ih =>
      rw [List.foldlM_cons, List.foldlM_cons]
      refine (hf c List.mem_cons_self a b h).bind fun a' b' h' => ?_
      exact ih (fun d hd => hf d (List.mem_cons_of_mem c hd)) h'

/-- A result of the first computation is one of the second. -/
theorem Sim.ok {a : α} (h : Sim bad R (.ok a) y) : ∃ b, y = .ok b ∧ R a b := by
  cases y with
  | error e => exact h.elim
  | ok b => exact ⟨b, rfl, h⟩

/-- A failure of the first computation is its own, or one of the second. -/
theorem Sim.error_cases {e : E} (h : Sim bad R (.error e) y) : bad e ∨ y = .error e := h

/-! ### Failures -/

/-- All failures of a computation are of some kind. -/
def Fails (P : E → Prop) (x : Except E α) : Prop := ∀ e, x = .error e → P e

variable {P : E → Prop}

theorem Fails.ok {a : α} : Fails P (.ok a : Except E α) := nofun

theorem Fails.error {e : E} (h : P e) : Fails P (.error e : Except E α) := by
  rintro _ ⟨⟩
  exact h

theorem Fails.bind {f : α → Except E β} (h : Fails P x) (hf : ∀ a, x = .ok a → Fails P (f a)) :
    Fails P (x >>= f) := by
  cases x with
  | error e => exact Fails.error (h e rfl)
  | ok a => exact hf a rfl

theorem Fails.foldlM {f : α → γ → Except E α} (hf : ∀ a c, Fails P (f a c)) {cs : List γ} {a : α} :
    Fails P (cs.foldlM f a) := by
  induction cs generalizing a with
  | nil => exact Fails.ok
  | cons c cs ih =>
      rw [List.foldlM_cons]
      exact (hf a c).bind fun _ _ => ih

/-! ### Results and failures -/

/-- The result of a computation has a property, or its failure is of a `bad` kind. -/
def Meets (bad : E → Prop) (Q : α → Prop) : Except E α → Prop
  | .ok a => Q a
  | .error e => bad e

variable {Q Q' : α → Prop} {Q₁ : β → Prop}

theorem Meets.of_ok {a : α} (hx : x = .ok a) (h : Q a) : Meets bad Q x := by
  rw [hx]
  exact h

/-- A step that is known to succeed. -/
theorem Meets.of_bind {f : α → Except E β} {a : α} (hx : x = .ok a) (h : Meets bad Q₁ (f a)) :
    Meets bad Q₁ (x >>= f) := by
  rw [hx]
  exact h

theorem Meets.imp (h : Meets bad Q x) (hQ : ∀ a, Q a → Q' a) : Meets bad Q' x := by
  cases x with
  | error e => exact h
  | ok a => exact hQ a h

theorem Meets.bind {f : α → Except E β} (h : Meets bad Q x) (hf : ∀ a, Q a → Meets bad Q₁ (f a)) :
    Meets bad Q₁ (x >>= f) := by
  cases x with
  | error e => exact h
  | ok a => exact hf a h

theorem Meets.foldlM {f : α → γ → Except E α} {cs : List γ} {a : α}
    (hf : ∀ c ∈ cs, ∀ a, Q a → Meets bad Q (f a c)) (h : Q a) : Meets bad Q (cs.foldlM f a) := by
  induction cs generalizing a with
  | nil => exact h
  | cons c cs ih =>
      rw [List.foldlM_cons]
      refine (hf c List.mem_cons_self a h).bind fun a' h' => ?_
      exact ih (fun d hd => hf d (List.mem_cons_of_mem c hd)) h'

theorem Meets.result {a : α} (h : Meets bad Q x) (hx : x = .ok a) : Q a := by
  subst hx
  exact h

theorem Meets.cases (h : Meets bad Q x) : (∃ a, x = .ok a ∧ Q a) ∨ ∃ e, x = .error e ∧ bad e := by
  cases x with
  | error e => exact .inr ⟨e, rfl, h⟩
  | ok a => exact .inl ⟨a, rfl, h⟩

end Refine
