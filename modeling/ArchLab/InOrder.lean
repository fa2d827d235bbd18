/-
**Stalls of an in-order pipeline.**

An in-order pipeline issues at most one instruction in a cycle, and no instruction before its
sources are available; what an instruction writes is available some cycles after it was issued.
This module defines the times of issue, and compares them with a way to count stalls that does not
know the time: it numbers the instructions, and keeps for every register the number of the
instruction that could read it without a stall.  After a stall all registers that are not yet
available are moved ahead by its length.

Main definitions:

* `InOrder.Pipeline` — what an instruction reads and writes, and how long it takes;
* `InOrder.Pipeline.issue`, `InOrder.Pipeline.time` — the times of issue;
* `InOrder.Rebased` — a ready number of a register stands for the time at which it is available;
* `InOrder.wait`, `InOrder.rebase` — the stall before an instruction, and its effect on the ready
  numbers.

Main results:

* `InOrder.issue_eq_wait` — **the stall is the distance between two times of issue**;
* `InOrder.Rebased.step` — the ready numbers keep standing for times;
* `InOrder.Bounded.wait_lt` — a stall is shorter than the longest latency.
-/

import Mathlib.Algebra.Order.Ring.Int
import Mathlib.Data.Nat.Cast.Order.Ring

set_option relaxedAutoImplicit false
set_option autoImplicit false

namespace InOrder

/-! ### Times of issue -/

/-- What an instruction reads and writes, and the number of cycles after which its results may be
read. -/
structure Pipeline (I R : Type) where
  sources : I → List R
  outputs : I → List R
  latency : I → ℕ

variable {I R : Type}

/-- The time of the last issue, given all instructions with their times, the last one first. -/
def now : List (I × ℕ) → ℕ
  | [] => 0
  | (_, t) :: _ => t

variable [DecidableEq R]

/-- The time at which a register is available: it was written by the last instruction that has it as
an output. -/
def Pipeline.avail (p : Pipeline I R) (r : R) : List (I × ℕ) → ℕ
  | [] => 0
  | (w, t) :: past => if r ∈ p.outputs w then t + p.latency w else p.avail r past

variable (p : Pipeline I R)

/-- **The time of issue** of an instruction: the next cycle in which all its sources are
available. -/
def Pipeline.issue (past : List (I × ℕ)) (i : I) : ℕ :=
  (p.sources i).foldl (fun t r => max t (p.avail r past)) (now past + 1)

/-- The times of issue of a sequence of instructions, the last one first. -/
def Pipeline.schedule (is : List I) : List (I × ℕ) :=
  is.foldl (fun past i => (i, p.issue past i) :: past) []

/-- The time at which the last one of some instructions is issued. -/
def Pipeline.time (is : List I) : ℕ := now (p.schedule is)

@[simp] theorem Pipeline.schedule_nil : p.schedule [] = [] := rfl

@[simp] theorem Pipeline.schedule_snoc (is : List I) (i : I) :
    p.schedule (is ++ [i]) = (i, p.issue (p.schedule is) i) :: p.schedule is := by
  unfold Pipeline.schedule
  rw [List.foldl_append]
  rfl

theorem Pipeline.time_snoc (is : List I) (i : I) :
    p.time (is ++ [i]) = p.issue (p.schedule is) i := by
  unfold Pipeline.time
  rw [p.schedule_snoc]
  rfl

variable {p} {past : List (I × ℕ)} {i : I} {n : ℤ} {ready : R → ℤ} {r : R}

theorem now_lt_issue : now past < p.issue past i := by
  have hle : ∀ (rs : List R) (t : ℕ), t ≤ rs.foldl (fun t r => max t (p.avail r past)) t := by
    intro rs
    induction rs with
    | nil => exact fun t => le_rfl
    | cons r rs ih => exact fun t => (le_max_left _ _).trans (ih _)
  exact hle _ _

/-! ### Ready numbers -/

/-- The ready number of a register stands for the time at which it is available: time and numbers
differ by the stalls so far.  A register that is already available may have any number that is in
the past. -/
structure Rebased (p : Pipeline I R) (past : List (I × ℕ)) (n : ℤ) (ready : R → ℤ) (r : R) :
    Prop where
  pending : now past < p.avail r past → ready r = p.avail r past - (now past - n)
  done : p.avail r past ≤ now past → ready r ≤ n

/-- The stall before the instruction with number `n`. -/
def wait (n : ℤ) (ready : R → ℤ) (rs : List R) : ℤ := rs.foldl (fun m r => max m (ready r - n)) 0

/-- All registers that are not available for instruction `n` are moved ahead by the length of a
stall. -/
def rebase (n stall : ℤ) (ready : R → ℤ) (r : R) : ℤ :=
  if n < ready r then ready r - stall else ready r

/-- A single register delays an instruction by as much as its ready number says. -/
theorem Rebased.max_eq (h : Rebased p past n ready r) {m : ℤ} (hm : 0 ≤ m) :
    max (now past + 1 + m) (p.avail r past : ℤ) = now past + 1 + max m (ready r - (n + 1)) := by
  have hp := h.pending
  have hd := h.done
  by_cases hlt : now past < p.avail r past
  · have := hp hlt
    omega
  · have := hd (by omega)
    omega

omit [DecidableEq R] in
theorem wait_nonneg (rs : List R) : 0 ≤ wait n ready rs := by
  have hle : ∀ (rs : List R) (m : ℤ), m ≤ rs.foldl (fun m r => max m (ready r - n)) m := by
    intro rs
    induction rs with
    | nil => exact fun m => le_rfl
    | cons r rs ih => exact fun m => (le_max_left _ _).trans (ih _)
  exact hle rs 0

/-- **The stall before an instruction** is the distance to the time of issue of the one before,
minus one. -/
theorem issue_eq_wait (h : ∀ r ∈ p.sources i, Rebased p past n ready r) :
    (p.issue past i : ℤ) = now past + 1 + wait (n + 1) ready (p.sources i) := by
  -- both sides are loops over the sources, and stay together
  have hloop : ∀ (rs : List R) (t : ℕ) (m : ℤ), (∀ r ∈ rs, Rebased p past n ready r) → 0 ≤ m →
      (t : ℤ) = now past + 1 + m →
      ((rs.foldl (fun t r => max t (p.avail r past)) t : ℕ) : ℤ) =
        now past + 1 + rs.foldl (fun m r => max m (ready r - (n + 1))) m := by
    intro rs
    induction rs with
    | nil => exact fun t m _ _ ht => ht
    | cons r rs ih =>
        intro t m hrs hm ht
        refine ih _ _ (fun r' hr' => hrs r' (List.mem_cons_of_mem r hr')) (le_max_of_le_left hm) ?_
        rw [Nat.cast_max, ht, (hrs r List.mem_cons_self).max_eq hm]
  exact hloop _ _ 0 h le_rfl (by omega)

/-- Before the first instruction. -/
theorem Rebased.start (hr : ready r = 0) : Rebased p [] 0 ready r where
  pending h := absurd h (lt_irrefl 0)
  done _ := hr.le

/-- **The ready numbers keep standing for times**: an instruction is issued after a stall, and its
outputs become available after its latency. -/
theorem Rebased.step (h : Rebased p past n ready r) {stall : ℤ} {ready' : R → ℤ}
    (hstall : (p.issue past i : ℤ) = now past + 1 + stall) (hnonneg : 0 ≤ stall)
    (hready : ready' r =
      if r ∈ p.outputs i then n + 1 + p.latency i else rebase (n + 1) stall ready r) :
    Rebased p ((i, p.issue past i) :: past) (n + 1) ready' r := by
  have hp := h.pending
  have hd := h.done
  by_cases ho : r ∈ p.outputs i
  · rw [if_pos ho] at hready
    have havail : p.avail r ((i, p.issue past i) :: past) = p.issue past i + p.latency i :=
      if_pos ho
    constructor
    · intro hlt
      rw [havail, hready]
      change _ = _ - ((p.issue past i : ℤ) - _)
      push_cast
      omega
    · intro hle
      rw [havail] at hle
      change _ ≤ p.issue past i at hle
      omega
  · rw [if_neg ho] at hready
    have havail : p.avail r ((i, p.issue past i) :: past) = p.avail r past := if_neg ho
    unfold rebase at hready
    -- a register that was available stays so; the others are moved by the stall
    constructor
    · intro hlt
      rw [havail] at hlt ⊢
      change p.issue past i < _ at hlt
      change _ = _ - ((p.issue past i : ℤ) - _)
      have := hp (by omega)
      rw [if_pos (by omega)] at hready
      omega
    · intro hle
      rw [havail] at hle
      change _ ≤ p.issue past i at hle
      split at hready
      · next hlt =>
        have := hp (by
          by_contra hge
          have := hd (by omega)
          omega)
        omega
      · omega

/-! ### The length of a stall -/

/-- No register is available later than `L` cycles from now. -/
def Bounded (p : Pipeline I R) (L : ℕ) (past : List (I × ℕ)) : Prop :=
  ∀ r, p.avail r past ≤ now past + L

theorem Bounded.start (L : ℕ) : Bounded p L [] := fun _ => Nat.zero_le _

theorem Bounded.step {L : ℕ} (h : Bounded p L past) (hL : p.latency i ≤ L) :
    Bounded p L ((i, p.issue past i) :: past) := by
  intro r
  have hr := h r
  have hlt : now past < p.issue past i := now_lt_issue
  unfold Pipeline.avail
  change _ ≤ p.issue past i + L
  split
  · omega
  · omega

/-- A stall is shorter than the longest latency. -/
theorem Bounded.wait_lt {L : ℕ} (h : Bounded p L past) (hL : 0 < L)
    (hr : ∀ r ∈ p.sources i, Rebased p past n ready r) :
    wait (n + 1) ready (p.sources i) < L := by
  have hloop : ∀ (rs : List R) (m : ℤ), (∀ r ∈ rs, Rebased p past n ready r) → m < L →
      rs.foldl (fun m r => max m (ready r - (n + 1))) m < L := by
    intro rs
    induction rs with
    | nil => exact fun m _ hm => hm
    | cons r rs ih =>
        intro m hrs hm
        refine ih _ (fun r' hr' => hrs r' (List.mem_cons_of_mem r hr')) ?_
        change max m (ready r - (n + 1)) < L
        have hb := h r
        have hp := (hrs r List.mem_cons_self).pending
        have hd := (hrs r List.mem_cons_self).done
        by_cases hlt : now past < p.avail r past
        · have := hp hlt
          omega
        · have := hd (by omega)
          omega
  exact hloop _ 0 hr (by omega)

end InOrder
