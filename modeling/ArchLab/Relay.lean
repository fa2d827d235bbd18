/-
**Relays of queues.**

Messages travel from queue to queue.  A routing names, for a queue and a destination, the queue that
comes next, and leads to an end.  The head of a queue is forwarded by putting a copy into each queue
that is next for some of its destinations, with just these destinations.  So the queues on the way
to a destination are one long queue: what leaves one of them enters the next one, at its end.

Messages are told apart by a property of their content, such as where they were sent from.  For the
messages with the property that are for one destination, the contents of all queues on the way, from
the last one to the first, are a list that forwarding does not change.

Main definitions:

* `Relay.Routing`, `Relay.Route` — which queue comes next, and which are on the way;
* `Relay.Pipe` — what is on the way, the first to arrive in front;
* `Relay.OnRoute` — messages are nowhere but on their way;
* `Relay.Forward` — the head of a queue is forwarded.

Main results:

* `Relay.Pipe.push`, `Relay.Pipe.receive` — messages enter at the end, and leave in front;
* `Relay.Pipe.last_append` — what is in the last queue comes first;
* `Relay.Forward.pipe` — **forwarding changes nothing on the way**.
-/

import Mathlib.Data.Finset.Filter
import Mathlib.Logic.Function.Basic

set_option relaxedAutoImplicit false
set_option autoImplicit false

namespace Relay

variable {Q D M : Type}

/-- A copy of a message, and the destinations it is for. -/
structure Copy (D M : Type) where
  payload : M
  dests : Finset D

/-- Which queue comes next on the way to a destination, if any.  Every hop leads closer. -/
structure Routing (Q D : Type) where
  next : Q → D → Option Q
  rank : Q → D → ℕ
  rank_lt {x y : Q} {d : D} : next x d = some y → rank y d < rank x d

/-- The second queue is on the way from the first one. -/
inductive Route (R : Routing Q D) (d : D) : Q → Q → Prop
  | here (x : Q) : Route R d x x
  | hop {x y z : Q} : R.next x d = some y → Route R d y z → Route R d x z

/-- What is in the queues on the way from a queue, the first to arrive in front. -/
inductive Pipe (R : Routing Q D) (d : D) (f : Q → List M) : Q → List M → Prop
  | last {x : Q} : R.next x d = none → Pipe R d f x (f x)
  | hop {x y : Q} {l : List M} : R.next x d = some y → Pipe R d f y l → Pipe R d f x (l ++ f x)

variable {R : Routing Q D} {d : D} {x y z x₀ : Q} {f f' : Q → List M} {l : List M} {m : M}

/-! ### The way to a destination -/

theorem Route.trans (h : Route R d x y) (h' : Route R d y z) : Route R d x z := by
  induction h with
  | here _ => exact h'
  | hop hn _ ih => exact .hop hn (ih h')

theorem Route.rank_le (h : Route R d x y) : R.rank y d ≤ R.rank x d := by
  induction h with
  | here _ => exact Nat.le_refl _
  | hop hn _ ih => exact Nat.le_of_lt (Nat.lt_of_le_of_lt ih (R.rank_lt hn))

/-- There is nothing behind the last queue. -/
theorem Route.eq_of_none (h : Route R d x y) (hx : R.next x d = none) : y = x := by
  cases h with
  | here _ => rfl
  | hop hn _ =>
      rw [hn] at hx
      cases hx

theorem Route.of_hop (h : Route R d x z) (hne : x ≠ z) (hn : R.next x d = some y) :
    Route R d y z := by
  cases h with
  | here _ => exact absurd rfl hne
  | hop hn' h =>
      obtain rfl := Option.some.inj (hn.symm.trans hn')
      exact h

/-- Nothing is on the way if all queues are empty. -/
theorem Pipe.empty (x : Q) : Pipe R d (fun _ => ([] : List M)) x [] := by
  induction hk : R.rank x d using Nat.strongRecOn generalizing x with
  | _ k ih =>
      cases hn : R.next x d with
      | none => exact .last hn
      | some y => exact .hop hn (ih _ (hk ▸ R.rank_lt hn) y rfl)

/-- If all queues are empty, nothing is on the way. -/
theorem Pipe.eq_nil (h : Pipe R d f x l) (hf : ∀ y, f y = []) : l = [] := by
  induction h with
  | last _ => exact hf _
  | hop _ _ ih => rw [ih, hf, List.append_nil]

/-- The same is on the way if the queues on it have the same content. -/
theorem Pipe.congr (h : Pipe R d f x l) (he : ∀ y, Route R d x y → f' y = f y) :
    Pipe R d f' x l := by
  induction h with
  | last hn =>
      rw [← he _ (.here _)]
      exact .last hn
  | hop hn _ ih =>
      rw [← he _ (.here _)]
      exact .hop hn (ih fun y hy => he y (.hop hn hy))

/-- What enters the first queue is the last on the way. -/
theorem Pipe.push (h : Pipe R d f x l) (hx : f' x = f x ++ [m])
    (he : ∀ y, Route R d x y → y ≠ x → f' y = f y) : Pipe R d f' x (l ++ [m]) := by
  cases h with
  | last hn =>
      rw [← hx]
      exact .last hn
  | @hop _ y l hn h =>
      rw [List.append_assoc, ← hx]
      refine .hop hn (h.congr fun z hz => he z (.hop hn hz) ?_)
      rintro rfl
      exact Nat.lt_irrefl _ (Nat.lt_of_le_of_lt hz.rank_le (R.rank_lt hn))

/-- **What goes from one queue to the next stays where it is on the way.** -/
theorem Pipe.move (h : Pipe R d f x₀ l) (hroute : Route R d x₀ x) (hn : R.next x d = some z)
    (hx : f x = m :: f' x) (hz : f' z = f z ++ [m]) (he : ∀ y, y ≠ x → y ≠ z → f' y = f y) :
    Pipe R d f' x₀ l := by
  have hlt : R.rank z d < R.rank x d := R.rank_lt hn
  induction h with
  | last hn' =>
      obtain rfl := hroute.eq_of_none hn'
      rw [hn] at hn'
      cases hn'
  | @hop x₁ y l hn' h ih =>
      by_cases hx₁ : x₁ = x
      · subst hx₁
        obtain rfl : z = y := Option.some.inj (hn.symm.trans hn')
        rw [hx, List.append_cons]
        refine .hop hn (h.push hz fun y hy hyz => he y ?_ hyz)
        rintro rfl
        exact Nat.lt_irrefl _ (Nat.lt_of_le_of_lt hy.rank_le hlt)
      · have hroute' := hroute.of_hop hx₁ hn'
        have hx₁z : x₁ ≠ z := by
          rintro rfl
          exact Nat.lt_irrefl _ ((hroute'.rank_le.trans_lt (R.rank_lt hn')).trans hlt)
        rw [← he x₁ hx₁ hx₁z]
        exact .hop hn' (ih hroute')

/-- The content of the last queue is in front. -/
theorem Pipe.last_append (h : Pipe R d f x l) (hroute : Route R d x z)
    (hz : R.next z d = none) : ∃ chan, l = f z ++ chan := by
  induction h with
  | last hn =>
      obtain rfl := hroute.eq_of_none hn
      exact ⟨[], (List.append_nil _).symm⟩
  | @hop x y l hn h ih =>
      have hne : x ≠ z := by
        rintro rfl
        rw [hz] at hn
        cases hn
      obtain ⟨chan, rfl⟩ := ih (hroute.of_hop hne hn)
      exact ⟨chan ++ f x, List.append_assoc _ _ _⟩

/-- What is taken from the last queue is the first on the way. -/
theorem Pipe.receive (h : Pipe R d f x (f z ++ l)) (hroute : Route R d x z)
    (hz : R.next z d = none) (he : ∀ y, y ≠ z → f' y = f y) : Pipe R d f' x (f' z ++ l) := by
  generalize hl : f z ++ l = l' at h
  induction h generalizing l with
  | last hn =>
      obtain rfl := hroute.eq_of_none hn
      obtain rfl : l = [] := by simpa using hl
      rw [List.append_nil]
      exact .last hn
  | @hop x y l' hn h ih =>
      have hne : x ≠ z := by
        rintro rfl
        rw [hz] at hn
        cases hn
      have hroute' := hroute.of_hop hne hn
      obtain ⟨chan, rfl⟩ := h.last_append hroute' hz
      rw [List.append_assoc] at hl
      obtain rfl := List.append_cancel_left hl
      rw [← he x hne, ← List.append_assoc]
      exact .hop hn (ih hroute' rfl)

/-! ### Forwarding -/

section Forward

variable [DecidableEq D] [DecidableEq Q] {st st' : Q → List (Copy D M)} {p : M → Bool}
  {c : Copy D M} {start : M → Q}

omit [DecidableEq D] [DecidableEq Q] in
/-- Every message is on its way from where messages of its kind start. -/
def OnRoute (R : Routing Q D) (start : M → Q) (st : Q → List (Copy D M)) : Prop :=
  ∀ x, ∀ c ∈ st x, ∀ d ∈ c.dests, Route R d (start c.payload) x

/-- The messages of a queue with property `p` that are for destination `d`. -/
def flow (p : M → Bool) (d : D) (l : List (Copy D M)) : List M :=
  (l.filter fun c => p c.payload && decide (d ∈ c.dests)).map Copy.payload

omit [DecidableEq Q] in
theorem flow_append (p : M → Bool) (d : D) (l l' : List (Copy D M)) :
    flow p d (l ++ l') = flow p d l ++ flow p d l' := by
  rw [flow, List.filter_append, List.map_append]
  rfl

omit [DecidableEq Q] in
theorem flow_singleton (p : M → Bool) (d : D) (c : Copy D M) :
    flow p d [c] = if p c.payload = true ∧ d ∈ c.dests then [c.payload] else [] := by
  by_cases h : p c.payload = true ∧ d ∈ c.dests
  · simp [flow, h]
  · rw [if_neg h]
    simpa [flow] using h

/-- The copies of a message in `x` that are forwarded to `y`: at most one. -/
def Copy.toward (R : Routing Q D) (x y : Q) (c : Copy D M) : List (Copy D M) :=
  if c.dests.filter (fun d => R.next x d = some y) = ∅ then []
  else [⟨c.payload, c.dests.filter fun d => R.next x d = some y⟩]

theorem flow_toward :
    flow p d (c.toward R x y) =
      if p c.payload = true ∧ d ∈ c.dests ∧ R.next x d = some y then [c.payload] else [] := by
  unfold Copy.toward
  split
  · next h =>
      rw [if_neg]
      · rfl
      · rintro ⟨-, hd⟩
        exact Finset.notMem_empty d (h ▸ Finset.mem_filter.2 hd)
  · rw [flow_singleton]
    simp only [Finset.mem_filter]

/-- The head of a queue is forwarded to the queues that come next. -/
structure Forward (R : Routing Q D) (x : Q) (c : Copy D M) (st st' : Q → List (Copy D M)) :
    Prop where
  head : st x = c :: st' x
  covered : ∀ d ∈ c.dests, ∃ y, R.next x d = some y
  other : ∀ y, y ≠ x → st' y = st y ++ c.toward R x y

/-- Messages stay on their way. -/
theorem Forward.onRoute (h : Forward R x c st st') (ho : OnRoute R start st) :
    OnRoute R start st' := by
  intro y c' hc' d hd
  by_cases hy : y = x
  · subst hy
    exact ho y c' (h.head ▸ List.mem_cons_of_mem c hc') d hd
  · rw [h.other y hy] at hc'
    rcases List.mem_append.1 hc' with hc' | hc'
    · exact ho y c' hc' d hd
    · -- a copy is one hop further than the message
      unfold Copy.toward at hc'
      split at hc'
      · cases hc'
      · rw [List.mem_singleton.1 hc'] at hd ⊢
        obtain ⟨hd, hn⟩ := Finset.mem_filter.1 hd
        exact (ho x c (h.head ▸ List.mem_cons_self) d hd).trans (.hop hn (.here y))

theorem Forward.flow_head (h : Forward R x c st st') :
    flow p d (st x) = flow p d [c] ++ flow p d (st' x) := by
  rw [h.head, ← flow_append]
  rfl

theorem Forward.flow_other (h : Forward R x c st st') (hy : y ≠ x) :
    flow p d (st' y) = flow p d (st y) ++
      if p c.payload = true ∧ d ∈ c.dests ∧ R.next x d = some y then [c.payload] else [] := by
  rw [h.other y hy, flow_append, flow_toward]

/-- **Forwarding changes nothing on the way.** -/
theorem Forward.pipe (h : Forward R x c st st') (ho : OnRoute R start st)
    (hp : ∀ m, p m = true → start m = x₀) (hl : Pipe R d (fun x => flow p d (st x)) x₀ l) :
    Pipe R d (fun x => flow p d (st' x)) x₀ l := by
  by_cases hc : p c.payload = true ∧ d ∈ c.dests
  · -- the message moves from `x` to the queue that comes next
    obtain ⟨z, hz⟩ := h.covered d hc.2
    have hroute : Route R d x₀ x := by
      have hstart := ho x c (h.head ▸ List.mem_cons_self) d hc.2
      rwa [hp _ hc.1] at hstart
    have hne : z ≠ x := by
      rintro rfl
      exact Nat.lt_irrefl _ (R.rank_lt hz)
    refine hl.move (m := c.payload) hroute hz ?_ ?_ fun y hyx hyz => ?_
    · rw [h.flow_head, flow_singleton, if_pos hc]
      rfl
    · rw [h.flow_other hne, if_pos ⟨hc.1, hc.2, hz⟩]
    · rw [h.flow_other hyx, if_neg, List.append_nil]
      rintro ⟨-, -, hy⟩
      exact hyz (Option.some.inj (hy.symm.trans hz))
  · refine hl.congr fun y _ => ?_
    by_cases hy : y = x
    · subst hy
      rw [h.flow_head, flow_singleton, if_neg hc, List.nil_append]
    · rw [h.flow_other hy, if_neg fun hc' => hc ⟨hc'.1, hc'.2.1⟩, List.append_nil]

end Forward

end Relay
