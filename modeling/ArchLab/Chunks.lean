/-
**Folding a number into a few bits.**

A long number is folded into `t` bits by cutting it into chunks of `t` bits and taking the
exclusive or of the chunks.  Bit `i` of the result is the parity of the bits `i`, `t + i`,
`2 * t + i` and so on; this is how such a fold is compared with a loop that computes it.

Main definitions:

* `Chunks.parity` — the exclusive or of the first bits of a sequence;
* `Chunks.chunk`, `Chunks.xorChunks` — a chunk of a number, and the exclusive or of the first ones.

Main results:

* `Chunks.testBit_xorChunks` — the bits of a fold;
* `Chunks.parity_single` — the parity of a sequence with a single bit.
-/

import Mathlib.Data.Nat.Bitwise
import Mathlib.Algebra.Group.Nat.Defs

set_option relaxedAutoImplicit false
set_option autoImplicit false

namespace Chunks

/-- The exclusive or of the first `n` bits of a sequence. -/
def parity : ℕ → (ℕ → Bool) → Bool
  | 0, _ => false
  | n + 1, f => f 0 ^^ parity n fun m => f (m + 1)

/-- Chunk `m` of a number, with `t` bits. -/
def chunk (t v m : ℕ) : ℕ := v / 2 ^ (t * m) % 2 ^ t

/-- The exclusive or of the first `n` chunks of a number. -/
def xorChunks (t v : ℕ) : ℕ → ℕ
  | 0 => 0
  | n + 1 => xorChunks t v n ^^^ chunk t v n

variable {f g : ℕ → Bool}

theorem parity_congr {n : ℕ} (h : ∀ m < n, f m = g m) : parity n f = parity n g := by
  induction n generalizing f g with
  | zero => rfl
  | succ n ih =>
      rw [parity, parity, h 0 (Nat.succ_pos n), ih fun m hm => h (m + 1) (Nat.succ_lt_succ hm)]

/-- A sequence without a bit. -/
theorem parity_false {n : ℕ} (h : ∀ m < n, f m = false) : parity n f = false := by
  induction n generalizing f with
  | zero => rfl
  | succ n ih =>
      rw [parity, h 0 (Nat.succ_pos n), ih fun m hm => h (m + 1) (Nat.succ_lt_succ hm)]
      rfl

/-- The last bit, instead of the first one. -/
theorem parity_succ (n : ℕ) (f : ℕ → Bool) : parity (n + 1) f = (parity n f ^^ f n) := by
  induction n generalizing f with
  | zero => simp [parity]
  | succ n ih =>
      rw [parity, ih, parity, Bool.xor_assoc]

/-- A sequence with at most one bit. -/
theorem parity_single {n k : ℕ} (hk : k < n) (h : ∀ m < n, m ≠ k → f m = false) :
    parity n f = f k := by
  induction n generalizing f k with
  | zero => omega
  | succ n ih =>
      rw [parity]
      cases k with
      | zero =>
          rw [parity_false fun m hm => h (m + 1) (by omega) (by omega), Bool.xor_false]
      | succ k =>
          rw [h 0 (by omega) (by omega), Bool.false_xor]
          exact ih (by omega) fun m hm hne => h (m + 1) (by omega) (by omega)

/-- Of the bits at one place of the later chunks, a single one. -/
theorem parity_at {n t p : ℕ} (g : ℕ → Bool) (ht : 1 ≤ t) (hp : t ≤ p) :
    (parity n fun m => g (t * (m + 1) + p % t) && decide (p = t * (m + 1) + p % t)) =
      (decide (p / t ≤ n) && g p) := by
  have hdiv : t * (p / t) + p % t = p := Nat.div_add_mod p t
  have hpos : 1 ≤ p / t := (Nat.one_le_div_iff (by omega)).2 hp
  have hother : ∀ m, m + 1 ≠ p / t →
      (g (t * (m + 1) + p % t) && decide (p = t * (m + 1) + p % t)) = false := by
    intro m hm
    have hne : p ≠ t * (m + 1) + p % t := by
      intro he
      exact hm (Nat.eq_of_mul_eq_mul_left ht (by omega))
    rw [decide_eq_false hne, Bool.and_false]
  by_cases hle : p / t ≤ n
  · have hk : p / t - 1 < n := by omega
    rw [parity_single hk fun m _ hm => hother m (by omega), Nat.sub_add_cancel hpos, hdiv,
      decide_eq_true hle, decide_eq_true rfl, Bool.true_and, Bool.and_true]
  · rw [decide_eq_false hle, Bool.false_and]
    exact parity_false fun m hm => hother m (by omega)

theorem testBit_chunk (t v m i : ℕ) :
    (chunk t v m).testBit i = (decide (i < t) && v.testBit (t * m + i)) := by
  rw [chunk, Nat.testBit_mod_two_pow, Nat.testBit_div_two_pow, Nat.add_comm]

/-- **The bits of a fold.** -/
theorem testBit_xorChunks (t v n i : ℕ) :
    (xorChunks t v n).testBit i = (decide (i < t) && parity n fun m => v.testBit (t * m + i)) := by
  induction n with
  | zero => simp [xorChunks, parity]
  | succ n ih =>
      rw [xorChunks, Nat.testBit_xor, ih, testBit_chunk, parity_succ, Bool.and_xor_distrib_left]

end Chunks
