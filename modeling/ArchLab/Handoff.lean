/-
**Handing on a token: links, invalidations and acknowledgements.**

A directory protocol serialises requests at one place and lets the parties settle the rest among
themselves.  Three patterns carry the bookkeeping of that, whatever the messages look like:

* a *token* that at most one party holds, and that only exists while the serialising place has given
  it out (`Handoff.Token`);
* *links*: a party `o` has been told to serve party `r`, and `r` knows that it is `o` it waits for
  (`Handoff.Links`).  The parties form chains, and along a chain the times at which the links were
  made increase;
* *waits*: a party `r` waits for the acknowledgement of every member of a set, each of which either
  still has the notice in its queue or has answered (`Handoff.Waits`).

Each pattern is a property of a few functions on the set of parties; the lemmas say how it is kept
when these are changed at one or two places.

Main results:

* `Handoff.Token.move`, `Handoff.Token.give`, `Handoff.Token.drop` — the token changes hands;
* `Handoff.Links.add`, `Handoff.Links.remove` — a link is made and used up;
* `Handoff.Waits.multicast`, `Handoff.Waits.answer`, `Handoff.Waits.collect` — notices are sent to a
  set, one is answered, one answer is collected;
* `Handoff.proj_update` — a projection of a family that is changed at one place.
-/

import Mathlib.Data.Finset.Basic
import Mathlib.Data.Finset.Union
import Mathlib.Logic.Function.Basic

set_option relaxedAutoImplicit false
set_option autoImplicit false

namespace Handoff

variable {C κ : Type} [DecidableEq C]

/-- A projection of a family changed at one place is the projection changed at that place. -/
theorem proj_update {α β : Type} (f : α → β) (g : C → α) (c : C) (p : α) :
    (fun x => f (Function.update g c p x)) = Function.update (fun x => f (g x)) c (f p) := by
  funext x
  by_cases hx : x = c
  · subst hx
    simp
  · simp [hx]

/-- A projection that the change does not affect. -/
theorem proj_update_self {α β : Type} {f : α → β} {g : C → α} {c : C} {p : α}
    (h : f p = f (g c)) : (fun x => f (Function.update g c p x)) = fun x => f (g x) := by
  rw [proj_update, h]
  exact Function.update_eq_self c fun x => f (g x)

/-! ### The token -/

/-- At most one party holds the token, and only while it is given out. -/
structure Token (tok : C → Bool) (out : Prop) : Prop where
  unique : ∀ c c', tok c = true → tok c' = true → c = c'
  given : ∀ c, tok c = true → out

namespace Token

variable {tok : C → Bool} {out : Prop}

omit [DecidableEq C] in
theorem mono (h : Token tok out) {out' : Prop} (hout : out → out') : Token tok out' :=
  ⟨h.unique, fun c hc => hout (h.given c hc)⟩

omit [DecidableEq C] in
/-- A token that is not given out can be counted as given out or not. -/
theorem absent (h : Token tok out) (hout : ¬ out) (out' : Prop) : Token tok out' :=
  ⟨fun c _ hc => absurd (h.given c hc) hout, fun c hc => absurd (h.given c hc) hout⟩

omit [DecidableEq C] in
/-- Who does not hold the token while another does. -/
theorem not_of_ne (h : Token tok out) {c c' : C} (hc : tok c = true) (hne : c' ≠ c) :
    tok c' = false := by
  cases hc' : tok c' with
  | false => rfl
  | true => exact absurd (h.unique c' c hc' hc) hne

/-- A party that keeps or lacks the token as before. -/
theorem keep (h : Token tok out) {c : C} {b : Bool} (hb : b = tok c) :
    Token (Function.update tok c b) out := by
  rwa [Function.update_eq_self_iff.2 hb]

/-- The holder passes the token on. -/
theorem move (h : Token tok out) {c r : C} (hc : tok c = true) :
    Token (Function.update (Function.update tok c false) r true) out := by
  have hnone : ∀ x, Function.update tok c false x = false := by
    intro x
    by_cases hx : x = c
    · simp [hx]
    · simp [hx, h.not_of_ne hc hx]
  refine ⟨?_, fun _ _ => h.given c hc⟩
  intro x y hx hy
  simp only [Function.update_apply _ r, hnone, Bool.if_false_right, Bool.and_true,
    decide_eq_true_eq] at hx hy
  rw [hx, hy]

/-- The holder gives the token back: nobody holds it. -/
theorem drop (h : Token tok out) {c : C} (hc : tok c = true) (out' : Prop) :
    Token (Function.update tok c false) out' := by
  have hnone : ∀ x, Function.update tok c false x = false := by
    intro x
    by_cases hx : x = c
    · simp [hx]
    · simp [hx, h.not_of_ne hc hx]
  constructor <;> simp [hnone]

/-- The token is given out to a party. -/
theorem give (h : Token tok out) (hout : ¬ out) {r : C} {out' : Prop} (hout' : out') :
    Token (Function.update tok r true) out' := by
  have hnone : ∀ x, tok x = false := by
    intro x
    cases hx : tok x with
    | false => rfl
    | true => exact absurd (h.given x hx) hout
  refine ⟨?_, fun _ _ => hout'⟩
  intro x y hx hy
  simp only [Function.update_apply, hnone, Bool.if_false_right, Bool.and_true,
    decide_eq_true_eq] at hx hy
  rw [hx, hy]

end Token

/-! ### Links -/

/-- The links between parties: `own o = some (k, r, t)` — party `o` was told at time `t` to serve
party `r` with a request of kind `k`; `fwd r = some o` — party `r` waits for `o`.  `ok` is what a
link of a kind requires of the party that waits. -/
structure Links (own : C → Option (κ × C × ℕ)) (fwd : C → Option C) (ok : κ → C → Prop)
    (now : ℕ) : Prop where
  link : ∀ o r, fwd r = some o ↔ ∃ k t, own o = some (k, r, t)
  kind : ∀ o k r t, own o = some (k, r, t) → ok k r
  order : ∀ o k r t, own o = some (k, r, t) → ∀ k' r' t', own r = some (k', r', t') → t < t'
  past : ∀ o k r t, own o = some (k, r, t) → t < now

namespace Links

variable {own : C → Option (κ × C × ℕ)} {fwd : C → Option C} {ok : κ → C → Prop} {now : ℕ}

omit [DecidableEq C] in
theorem fwd_of_own (h : Links own fwd ok now) {o r : C} {k : κ} {t : ℕ}
    (ho : own o = some (k, r, t)) : fwd r = some o := (h.link o r).2 ⟨k, t, ho⟩

omit [DecidableEq C] in
/-- Time passes, and what a link requires may be restated for the parties that wait. -/
theorem mono (h : Links own fwd ok now) {ok' : κ → C → Prop} {now' : ℕ} (hle : now ≤ now')
    (hok : ∀ k r o, fwd r = some o → ok k r → ok' k r) : Links own fwd ok' now' where
  link := h.link
  kind o k r t ho := hok k r o (h.fwd_of_own ho) (h.kind o k r t ho)
  order := h.order
  past o k r t ho := lt_of_lt_of_le (h.past o k r t ho) hle

/-- A link is made: `o`, which serves nobody, is told to serve `r`, which waits for nobody and
serves nobody. -/
theorem add (h : Links own fwd ok now) {o r : C} {k : κ} (ho : own o = none) (hr : own r = none)
    (hf : fwd r = none) (hor : o ≠ r) (hok : ok k r) :
    Links (Function.update own o (some (k, r, now))) (Function.update fwd r (some o)) ok
      (now + 1) where
  link o' r' := by
    have hl := h.link o' r'
    by_cases hr' : r' = r
    · subst hr'
      by_cases ho' : o' = o
      · subst ho'
        simp
      · have hne : ∀ k t, own o' ≠ some (k, r', t) := by
          intro k' t' e
          rw [h.fwd_of_own e] at hf
          cases hf
        simp [ho', Ne.symm ho', hne]
    · by_cases ho' : o' = o
      · subst ho'
        simp only [ho] at hl
        simpa [hr', Ne.symm hr'] using hl
      · simpa [hr', ho'] using hl
  kind o' k' r' t' e := by
    by_cases ho' : o' = o
    · subst ho'
      simp only [Function.update_self, Option.some.injEq, Prod.mk.injEq] at e
      obtain ⟨rfl, rfl, -⟩ := e
      exact hok
    · rw [Function.update_of_ne ho'] at e
      exact h.kind o' k' r' t' e
  order o' k' r' t' e k'' r'' t'' e' := by
    have hro : r' ≠ o → o' ≠ o → t' < t'' := by
      intro hr' ho'
      rw [Function.update_of_ne ho'] at e
      rw [Function.update_of_ne hr'] at e'
      exact h.order o' k' r' t' e k'' r'' t'' e'
    by_cases ho' : o' = o
    · -- the new link leads to `r`, which serves nobody
      subst ho'
      simp only [Function.update_self, Option.some.injEq, Prod.mk.injEq] at e
      obtain ⟨-, rfl, -⟩ := e
      rw [Function.update_of_ne (Ne.symm hor), hr] at e'
      cases e'
    · by_cases hr' : r' = o
      · subst hr'
        rw [Function.update_of_ne ho'] at e
        simp only [Function.update_self, Option.some.injEq, Prod.mk.injEq] at e'
        obtain ⟨-, -, rfl⟩ := e'
        exact h.past o' k' r' t' e
      · exact hro hr' ho'
  past o' k' r' t' e := by
    by_cases ho' : o' = o
    · subst ho'
      simp only [Function.update_self, Option.some.injEq, Prod.mk.injEq] at e
      omega
    · rw [Function.update_of_ne ho'] at e
      exact Nat.lt_succ_of_lt (h.past o' k' r' t' e)

/-- A link is used up: `o` has served `r`. -/
theorem remove (h : Links own fwd ok now) {o r : C} {k : κ} {t : ℕ} (ho : own o = some (k, r, t)) :
    Links (Function.update own o none) (Function.update fwd r none) ok now where
  link o' r' := by
    have hl := h.link o' r'
    by_cases ho' : o' = o
    · subst ho'
      by_cases hr' : r' = r
      · simp [hr']
      · have : fwd r' ≠ some o' := by
          rw [Ne, hl, ho]
          simp [Ne.symm hr']
        simp [hr', this]
    · by_cases hr' : r' = r
      · subst hr'
        have hne : ∀ k t, own o' ≠ some (k, r', t) := by
          intro k' t' e
          have := h.fwd_of_own e
          rw [h.fwd_of_own ho] at this
          exact ho' (Option.some.inj this).symm
        simp [ho', hne]
      · simpa [ho', hr'] using hl
  kind o' k' r' t' e := by
    by_cases ho' : o' = o
    · simp [ho'] at e
    · rw [Function.update_of_ne ho'] at e
      exact h.kind o' k' r' t' e
  order o' k' r' t' e k'' r'' t'' e' := by
    by_cases ho' : o' = o
    · simp [ho'] at e
    · by_cases hr' : r' = o
      · simp [hr'] at e'
      · rw [Function.update_of_ne ho'] at e
        rw [Function.update_of_ne hr'] at e'
        exact h.order o' k' r' t' e k'' r'' t'' e'
  past o' k' r' t' e := by
    by_cases ho' : o' = o
    · simp [ho'] at e
    · rw [Function.update_of_ne ho'] at e
      exact h.past o' k' r' t' e

end Links

/-! ### Waiting for acknowledgements -/

/-- Party `r` waits for the members of `wait r`.  A member `b` either has the notice in its queue,
`inv b = some (r, t)`, sent at time `t`, or has answered, `b ∈ ackIn r`.  A party that is told to
serve another is told so after the notices of its own request were sent. -/
structure Waits (inv : C → Option (C × ℕ)) (ackIn wait : C → Finset C)
    (own : C → Option (κ × C × ℕ)) (now : ℕ) : Prop where
  mem : ∀ b r, b ∈ wait r ↔ (∃ t, inv b = some (r, t)) ∨ b ∈ ackIn r
  once : ∀ b r t, inv b = some (r, t) → b ∉ ackIn r
  order : ∀ b r t, inv b = some (r, t) → ∀ k r' t', own r = some (k, r', t') → t < t'
  past : ∀ b r t, inv b = some (r, t) → t < now

namespace Waits

variable {inv : C → Option (C × ℕ)} {ackIn wait : C → Finset C} {own : C → Option (κ × C × ℕ)}
  {now : ℕ}

omit [DecidableEq C] in
theorem mem_of_inv (h : Waits inv ackIn wait own now) {b r : C} {t : ℕ} (hb : inv b = some (r, t)) :
    b ∈ wait r := (h.mem b r).2 (Or.inl ⟨t, hb⟩)

omit [DecidableEq C] in
theorem mem_of_ack (h : Waits inv ackIn wait own now) {b r : C} (hb : b ∈ ackIn r) : b ∈ wait r :=
  (h.mem b r).2 (Or.inr hb)

omit [DecidableEq C] in
/-- Time passes, and links change at parties that nobody acknowledges to, or to later ones. -/
theorem mono (h : Waits inv ackIn wait own now) {own' : C → Option (κ × C × ℕ)} {now' : ℕ}
    (hle : now ≤ now')
    (hown : ∀ r k r' t', own' r = some (k, r', t') → own r = some (k, r', t') ∨ now ≤ t') :
    Waits inv ackIn wait own' now' where
  mem := h.mem
  once := h.once
  order b r t hb k r' t' ho := by
    rcases hown r k r' t' ho with ho | ht
    · exact h.order b r t hb k r' t' ho
    · exact lt_of_lt_of_le (h.past b r t hb) ht
  past b r t hb := lt_of_lt_of_le (h.past b r t hb) hle

/-- A party answers the notice in its queue. -/
theorem answer (h : Waits inv ackIn wait own now) {b r : C} {t : ℕ} (hb : inv b = some (r, t)) :
    Waits (Function.update inv b none) (Function.update ackIn r (insert b (ackIn r))) wait own
      now where
  mem b' r' := by
    rw [h.mem b' r']
    by_cases hb' : b' = b
    · subst hb'
      by_cases hr' : r' = r
      · subst hr'
        simp [hb]
      · have : ∀ t, inv b' ≠ some (r', t) := by simp [hb, Ne.symm hr']
        simp [hr', this]
    · by_cases hr' : r' = r
      · subst hr'
        simp [hb']
      · simp [hb', hr']
  once b' r' t' e := by
    by_cases hb' : b' = b
    · simp [hb'] at e
    · rw [Function.update_of_ne hb'] at e
      by_cases hr' : r' = r
      · subst hr'
        simpa [hb'] using h.once b' r' t' e
      · simpa [hr'] using h.once b' r' t' e
  order b' r' t' e := by
    by_cases hb' : b' = b
    · simp [hb'] at e
    · rw [Function.update_of_ne hb'] at e
      exact h.order b' r' t' e
  past b' r' t' e := by
    by_cases hb' : b' = b
    · simp [hb'] at e
    · rw [Function.update_of_ne hb'] at e
      exact h.past b' r' t' e

/-- A party collects one answer. -/
theorem collect (h : Waits inv ackIn wait own now) {b r : C} (hb : b ∈ ackIn r) :
    Waits inv (Function.update ackIn r ((ackIn r).erase b))
      (Function.update wait r ((wait r).erase b)) own now where
  mem b' r' := by
    by_cases hr' : r' = r
    · subst hr'
      by_cases hb' : b' = b
      · subst hb'
        have : ∀ t, inv b' ≠ some (r', t) := fun t e => h.once b' r' t e hb
        simp [this]
      · simp [hb', h.mem b' r']
    · simp [hr', h.mem b' r']
  once b' r' t' e := by
    by_cases hr' : r' = r
    · subst hr'
      simp only [Function.update_self, Finset.mem_erase, not_and]
      exact fun _ => h.once b' r' t' e
    · simpa [hr'] using h.once b' r' t' e
  order := h.order
  past := h.past

/-- Notices are sent to the members of a set on behalf of a party that waits for nobody and serves
nobody. -/
theorem multicast (h : Waits inv ackIn wait own now) {r : C} {sh : Finset C} (hw : wait r = ∅)
    (ho : own r = none) (hsh : ∀ b ∈ sh, inv b = none) :
    Waits (fun b => if b ∈ sh then some (r, now) else inv b) ackIn (Function.update wait r sh) own
      (now + 1) where
  mem b r' := by
    have hm := h.mem b r'
    by_cases hr' : r' = r
    · subst hr'
      simp only [hw, Finset.notMem_empty, false_iff, not_or, not_exists] at hm
      by_cases hb : b ∈ sh
      · simp [hb]
      · simp [hb, hm.1, hm.2]
    · by_cases hb : b ∈ sh
      · simp only [hsh b hb] at hm
        simpa [hr', hb, Ne.symm hr'] using hm
      · simpa [hr', hb] using hm
  once b r' t e := by
    by_cases hb : b ∈ sh
    · simp only [hb, if_true, Option.some.injEq, Prod.mk.injEq] at e
      obtain ⟨rfl, -⟩ := e
      intro hack
      have := h.mem_of_ack hack
      rw [hw] at this
      simp at this
    · simp only [hb, if_false] at e
      exact h.once b r' t e
  order b r' t e := by
    by_cases hb : b ∈ sh
    · simp only [hb, if_true, Option.some.injEq, Prod.mk.injEq] at e
      obtain ⟨rfl, -⟩ := e
      simp [ho]
    · simp only [hb, if_false] at e
      exact h.order b r' t e
  past b r' t e := by
    by_cases hb : b ∈ sh
    · simp only [hb, if_true, Option.some.injEq, Prod.mk.injEq] at e
      omega
    · simp only [hb, if_false] at e
      exact Nat.lt_succ_of_lt (h.past b r' t e)

end Waits

end Handoff
