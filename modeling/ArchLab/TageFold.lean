/-
**The hashes of the TAGE predictor.**

`folded_xor` is meant to cut the first `size` bits of a value into chunks of `targ_size` bits and to
return their exclusive or.  It takes the first chunk before it masks the value, so that a value with
fewer bits than a chunk is not masked at all; and it masks with `(1 << size) - 1`, an `int`, which
is not defined from size 32 on and which is extended with its sign.  This module computes the bits
of the result for every size and whatever the undefined shifts give, and derives exactly when the
function does what it is meant to do, which tables depend only on the part of the history that is
theirs, and when all bits of an address count.

Main definitions:

* `Openend.foldSpec` — the exclusive or of the chunks;
* `Openend.maskBit` — the bits of the mask for the value;
* `Openend.HashesLocal` — the hashes of a table depend only on its part of the history;
* `Openend.Influences` — a bit of the address has an effect on the folded address.

Main results:

* `Openend.getLsbD_foldedXor` — the bits of the result;
* `Openend.foldedXor_eq_iff`, `Openend.hashesLocal_iff`, `Openend.influences_iff` — when the
  function, the tables and the address are as they should be;
* `Openend.folding_iff` — **the three of them**;
* `Openend.folding_fails` — values for which they are not.
-/

import ArchLab.Chunks
import ArchLab.TageSpec

set_option relaxedAutoImplicit false
set_option autoImplicit false

namespace Openend

open Chunks

variable {undef : ℕ → UINT32} {value : UINT128} {size targSize i k : ℕ}

/-! ### The bits of a fold -/

section Bits

/-- The exclusive or of the chunks of the first bits of a value. -/
def foldSpec (value : UINT128) (size targSize : ℕ) : ℕ :=
  xorChunks targSize (value.toNat % 2 ^ size) ((size + targSize - 1) / targSize)

/-- The bits of the mask for the value. -/
def maskBit (undef : ℕ → UINT32) (size k : ℕ) : Bool :=
  if size < 128 then ((maskOfSize undef size).signExtend 128).getLsbD k else decide (k < 128)

theorem getLsbD_MASK_OF_SIZE (h : size < 32) (k : ℕ) :
    (MASK_OF_SIZE size).getLsbD k = decide (k < size) := by
  rw [BitVec.getLsbD, toNat_MASK_OF_SIZE h, Nat.testBit_two_pow_sub_one]

/-- The loop adds one bit for each round. -/
theorem getLsbD_foldLoop (n : ℕ) (value : UINT128) (temp : UINT32) (hi : i < 32) :
    (foldLoop targSize n value temp).getLsbD i =
      (temp.getLsbD i ^^ parity n fun m => value.getLsbD (targSize * (m + 1) + i)) := by
  induction n generalizing value temp with
  | zero => simp [foldLoop, parity]
  | succ n ih =>
      have hshift : ∀ j, (value >>> targSize).getLsbD j = value.getLsbD (targSize + j) :=
        fun j => BitVec.getLsbD_ushiftRight ..
      have hstep : ∀ m, targSize + (targSize * (m + 1) + i) = targSize * (m + 1 + 1) + i := by
        intro m
        rw [Nat.mul_succ targSize (m + 1)]
        omega
      rw [foldLoop, ih, BitVec.getLsbD_xor, BitVec.getLsbD_setWidth, decide_eq_true hi,
        Bool.true_and, parity, Bool.xor_assoc]
      simp only [hshift, hstep, Nat.zero_add, Nat.mul_one]

/-- The value as the loop sees it. -/
theorem getLsbD_masked (k : ℕ) : (if size < 128 then
    value &&& (maskOfSize undef size).signExtend 128 else value).getLsbD k =
      (maskBit undef size k && value.getLsbD k) := by
  unfold maskBit
  split
  · rw [BitVec.getLsbD_and, Bool.and_comm]
  · by_cases hk : k < 128
    · rw [decide_eq_true hk, Bool.true_and]
    · rw [BitVec.getLsbD_of_ge _ _ (by omega), Bool.and_false]

/-- **The bits of the result.** -/
theorem getLsbD_foldedXor (ht : targSize < 32) (i : ℕ) :
    (foldedXor undef value size targSize).getLsbD i = (decide (i < targSize) &&
      (value.getLsbD i ^^ parity ((size - 1) / targSize) fun m =>
        maskBit undef size (targSize * (m + 1) + i) &&
          value.getLsbD (targSize * (m + 1) + i))) := by
  unfold foldedXor
  rw [BitVec.getLsbD_and, getLsbD_MASK_OF_SIZE ht, Bool.and_comm]
  by_cases hi : i < targSize
  · rw [decide_eq_true hi, Bool.true_and, Bool.true_and, getLsbD_foldLoop _ _ _ (by omega)]
    simp only [getLsbD_masked]
    rw [BitVec.getLsbD_setWidth, BitVec.getLsbD_and, BitVec.getLsbD_setWidth,
      getLsbD_MASK_OF_SIZE ht, decide_eq_true hi, decide_eq_true (show i < 32 by omega),
      decide_eq_true (show i < 128 by omega)]
    simp only [Bool.true_and, Bool.and_true]
  · rw [decide_eq_false hi, Bool.false_and, Bool.false_and]

/-- The bits of the exclusive or of the chunks. -/
theorem testBit_foldSpec (hs : 1 ≤ size) (ht : 1 ≤ targSize) (i : ℕ) :
    (foldSpec value size targSize).testBit i = (decide (i < targSize) &&
      ((decide (i < size) && value.getLsbD i) ^^ parity ((size - 1) / targSize) fun m =>
        decide (targSize * (m + 1) + i < size) && value.getLsbD (targSize * (m + 1) + i))) := by
  have hchunks : (size + targSize - 1) / targSize = (size - 1) / targSize + 1 := by
    rw [← Nat.add_div_right _ (by omega)]
    congr 1
    omega
  rw [foldSpec, testBit_xorChunks, hchunks, parity]
  simp only [Nat.testBit_mod_two_pow, Nat.mul_zero, Nat.zero_add]
  rfl

/-- Without bits in the value, there are none in the result. -/
theorem getLsbD_foldedXor_zero (ht : targSize < 32) (i : ℕ) :
    (foldedXor undef 0#128 size targSize).getLsbD i = false := by
  rw [getLsbD_foldedXor ht, parity_false, BitVec.getLsbD_zero, Bool.xor_false, Bool.and_false]
  intro m _
  rw [BitVec.getLsbD_zero, Bool.and_false]

theorem getLsbD_single {p : ℕ} (hp : p < 128) (j : ℕ) :
    (BitVec.twoPow 128 p).getLsbD j = decide (p = j) := by
  rw [BitVec.getLsbD_twoPow, decide_eq_true hp, Bool.true_and]

/-- A single bit of the value, in the result. -/
theorem getLsbD_foldedXor_single {p : ℕ} (hp : p < 128) (ht : 1 ≤ targSize) (ht' : targSize < 32) :
    (foldedXor undef (BitVec.twoPow 128 p) size targSize).getLsbD (p % targSize) =
      (decide (p < targSize) ||
        decide (p / targSize ≤ (size - 1) / targSize) && maskBit undef size p) := by
  have hmod : p % targSize < targSize := Nat.mod_lt _ ht
  rw [getLsbD_foldedXor ht', decide_eq_true hmod, Bool.true_and]
  simp only [getLsbD_single hp]
  by_cases hlt : p < targSize
  · rw [Nat.mod_eq_of_lt hlt, decide_eq_true rfl, parity_false, decide_eq_true hlt]
    · rfl
    · intro m _
      have hle : targSize * 1 ≤ targSize * (m + 1) := Nat.mul_le_mul_left _ (by omega)
      rw [decide_eq_false (by omega), Bool.and_false]
  · rw [decide_eq_false (show ¬ p = p % targSize by omega), Bool.false_xor, decide_eq_false hlt,
      Bool.false_or]
    exact parity_at _ ht (by omega)

/-- A single bit of the value that is not in the first chunk, in the exclusive or of the chunks. -/
theorem testBit_foldSpec_single {p : ℕ} (hp : p < 128) (hs : 1 ≤ size) (ht : 1 ≤ targSize)
    (hle : targSize ≤ p) :
    (foldSpec (BitVec.twoPow 128 p) size targSize).testBit (p % targSize) = decide (p < size) := by
  have hmod : p % targSize < targSize := Nat.mod_lt _ ht
  rw [testBit_foldSpec hs ht, decide_eq_true hmod, Bool.true_and]
  simp only [getLsbD_single hp]
  rw [decide_eq_false (show ¬ p = p % targSize by omega), Bool.and_false, Bool.false_xor,
    parity_at (fun k => decide (k < size)) ht hle]
  by_cases hlt : p < size
  · rw [decide_eq_true (Nat.div_le_div_right (by omega)), Bool.true_and]
  · rw [decide_eq_false hlt, Bool.and_false]

/-- Values with the same bits, as far as the function reads them. -/
theorem foldedXor_congr {value' : UINT128} (ht : targSize < 32)
    (hlow : ∀ i < targSize, value.getLsbD i = value'.getLsbD i)
    (hmask : ∀ k, maskBit undef size k = true → value.getLsbD k = value'.getLsbD k) :
    foldedXor undef value size targSize = foldedXor undef value' size targSize := by
  refine BitVec.eq_of_getLsbD_eq ?_
  intro i _
  rw [getLsbD_foldedXor ht, getLsbD_foldedXor ht]
  by_cases hi : i < targSize
  · rw [hlow i hi]
    congr 2
    refine parity_congr ?_
    intro m _
    cases hb : maskBit undef size (targSize * (m + 1) + i) with
    | false => rfl
    | true => rw [hmask _ hb]
  · rw [decide_eq_false hi, Bool.false_and, Bool.false_and]

end Bits

/-! ### The mask -/

section Mask

/-- Below size 32 the mask is the one that is meant. -/
theorem maskBit_of_lt (h : size < 32) (k : ℕ) : maskBit undef size k = decide (k < size) := by
  have hmsb : (MASK_OF_SIZE size).msb = false := by
    rw [BitVec.msb_eq_getLsbD_last, getLsbD_MASK_OF_SIZE h]
    exact decide_eq_false (by omega)
  rw [maskBit, if_pos (by omega), maskOfSize, if_pos h, BitVec.getLsbD_signExtend,
    getLsbD_MASK_OF_SIZE h, hmsb]
  by_cases hk : k < size
  · rw [if_pos (by omega), decide_eq_true hk, decide_eq_true (show k < 128 by omega)]
    rfl
  · rw [decide_eq_false hk, ite_self, Bool.and_false]

/-- From size 32 on, the last bit of what the shift gives counts for all later ones. -/
theorem maskBit_of_ge (h : 32 ≤ size) (h' : size < 128) (hk : k < 128) : maskBit undef size k =
    if k < 32 then (undef size - 1#32).getLsbD k else (undef size - 1#32).getLsbD 31 := by
  rw [maskBit, if_pos h', maskOfSize, if_neg (by omega), BitVec.getLsbD_signExtend,
    decide_eq_true hk, Bool.true_and, BitVec.msb_eq_getLsbD_last]

/-- A mask without its last bit has at most 31 bits. -/
theorem lt_of_maskBit (h : 32 ≤ size) (h' : size < 128)
    (hlast : (undef size - 1#32).getLsbD 31 = false) (hk : maskBit undef size k = true) :
    k < 32 := by
  by_cases hlt : k < 128
  · rw [maskBit_of_ge h h' hlt] at hk
    by_contra hge
    rw [if_neg hge, hlast] at hk
    exact Bool.false_ne_true hk
  · rw [maskBit, if_pos h', BitVec.getLsbD_of_ge _ _ (by omega)] at hk
    exact absurd hk Bool.false_ne_true

end Mask

/-! ### The function and its purpose -/

section Purpose

/-- With the right mask for the later chunks, only the bits of the first one that are beyond the
size make a difference. -/
theorem foldedXor_eq_iff_of_mask (hs : 1 ≤ size) (ht : 1 ≤ targSize) (ht' : targSize ≤ 31)
    (hmask : ∀ k, targSize ≤ k → k < targSize * ((size - 1) / targSize + 1) →
      (maskBit undef size k && value.getLsbD k) = (decide (k < size) && value.getLsbD k)) :
    (foldedXor undef value size targSize).toNat = foldSpec value size targSize ↔
      ∀ i, size ≤ i → i < targSize → value.getLsbD i = false := by
  have hlater : ∀ i < targSize, (parity ((size - 1) / targSize) fun m =>
        maskBit undef size (targSize * (m + 1) + i) && value.getLsbD (targSize * (m + 1) + i)) =
      parity ((size - 1) / targSize) fun m =>
        decide (targSize * (m + 1) + i < size) && value.getLsbD (targSize * (m + 1) + i) := by
    intro i hi
    refine parity_congr ?_
    intro m hm
    have hle : targSize * (m + 1 + 1) ≤ targSize * ((size - 1) / targSize + 1) :=
      Nat.mul_le_mul_left _ (by omega)
    have hge : targSize * 1 ≤ targSize * (m + 1) := Nat.mul_le_mul_left _ (by omega)
    rw [Nat.mul_succ] at hle
    exact hmask _ (by omega) (by omega)
  have hbit : ∀ i, (foldedXor undef value size targSize).toNat.testBit i =
      (foldedXor undef value size targSize).getLsbD i := fun _ => rfl
  constructor
  · intro he i hge hi
    have hi' := congrArg (Nat.testBit · i) he
    simp only [hbit, getLsbD_foldedXor (show targSize < 32 by omega), testBit_foldSpec hs ht,
      hlater i hi, decide_eq_true hi, Bool.true_and] at hi'
    rw [Bool.xor_left_inj, decide_eq_false (by omega), Bool.false_and] at hi'
    exact hi'
  · intro h
    refine Nat.eq_of_testBit_eq ?_
    intro i
    rw [hbit, getLsbD_foldedXor (by omega), testBit_foldSpec hs ht]
    by_cases hi : i < targSize
    · rw [hlater i hi]
      congr 2
      by_cases hge : size ≤ i
      · rw [h i hge hi, Bool.and_false]
      · rw [decide_eq_true (by omega), Bool.true_and]
    · rw [decide_eq_false hi, Bool.false_and, Bool.false_and]

/-- **The function, where the shift is defined**: it does what it is meant to do exactly for the
values that have no bits between the size and the first chunk's end. -/
theorem foldedXor_eq_iff (hs : 1 ≤ size) (hdef : size < 32 ∨ size = 128) (ht : 1 ≤ targSize)
    (ht' : targSize ≤ 31) :
    (foldedXor undef value size targSize).toNat = foldSpec value size targSize ↔
      ∀ i, size ≤ i → i < targSize → value.getLsbD i = false := by
  refine foldedXor_eq_iff_of_mask hs ht ht' ?_
  intro k _ _
  rcases hdef with h | rfl
  · rw [maskBit_of_lt h]
  · rw [maskBit, if_neg (by omega)]

/-- **The function, where the shift is not defined.** -/
theorem foldedXor_eq_iff_of_ge (hs : 32 ≤ size) (hs' : size < 128) (ht : 1 ≤ targSize)
    (ht' : targSize ≤ 31) :
    (∀ value, (foldedXor undef value size targSize).toNat = foldSpec value size targSize) ↔
      targSize ∣ size ∧ ∀ k, targSize ≤ k → k < 32 → (undef size - 1#32).getLsbD k = true := by
  have hsucc : size - 1 + 1 = size := by omega
  constructor
  · intro h
    have hsingle : ∀ p, targSize ≤ p → p < 128 →
        (decide (p / targSize ≤ (size - 1) / targSize) && maskBit undef size p) =
          decide (p < size) := by
      intro p hle hp
      have hp' := congrArg (Nat.testBit · (p % targSize)) (h (BitVec.twoPow 128 p))
      change (foldedXor undef (BitVec.twoPow 128 p) size targSize).getLsbD (p % targSize) =
        (foldSpec (BitVec.twoPow 128 p) size targSize).testBit (p % targSize) at hp'
      rw [getLsbD_foldedXor_single hp ht (by omega),
        testBit_foldSpec_single hp (by omega) ht hle,
        decide_eq_false (show ¬ p < targSize by omega), Bool.false_or] at hp'
      exact hp'
    have hbits : ∀ k, targSize ≤ k → k < 32 → (undef size - 1#32).getLsbD k = true := by
      intro k hle hk
      have hk' := hsingle k hle (by omega)
      rw [decide_eq_true (show k < size by omega), Bool.and_eq_true] at hk'
      have hmask := hk'.2
      rw [maskBit_of_ge hs hs' (by omega), if_pos hk] at hmask
      exact hmask
    refine ⟨?_, hbits⟩
    -- otherwise the bit right after the size is in the last chunk, and the mask keeps it
    by_contra hdvd
    have hdiv : size / targSize = (size - 1) / targSize := by
      have := Nat.succ_div_of_not_dvd (a := size - 1) (b := targSize) (by rwa [hsucc])
      rwa [hsucc] at this
    have hsize := hsingle size (by omega) hs'
    rw [hdiv, decide_eq_true (Nat.le_refl _), Bool.true_and, maskBit_of_ge hs hs' hs',
      if_neg (by omega), hbits 31 ht' (by omega), decide_eq_false (Nat.lt_irrefl _)] at hsize
    exact Bool.false_ne_true hsize.symm
  · rintro ⟨hdvd, hbits⟩ value
    have hdiv : targSize * ((size - 1) / targSize + 1) = size := by
      have := Nat.succ_div_of_dvd (a := size - 1) (b := targSize) (by rwa [hsucc])
      rw [hsucc] at this
      rw [← this, Nat.mul_div_cancel' hdvd]
    refine (foldedXor_eq_iff_of_mask (by omega) ht ht' ?_).2 fun i hge hi => by omega
    intro k hle hk
    have hbit : maskBit undef size k = true := by
      rw [maskBit_of_ge hs hs' (by omega)]
      split
      · next hlt => exact hbits k hle hlt
      · exact hbits 31 ht' (by omega)
    rw [hbit, decide_eq_true (show k < size by omega)]

end Purpose

/-! ### The hashes of the tables -/

section Tables

variable {t : ℕ}

/-- The hashes of a table depend on the history only through the outcomes that are the table's. -/
def HashesLocal (undef : ℕ → UINT32) (t : ℕ) : Prop :=
  ∀ (PC : UINT32) (h h' : UINT128), (∀ k < 2 ^ (t + 1), h.getLsbD k = h'.getLsbD k) →
    getIdx undef PC h t = getIdx undef PC h' t ∧ getTag undef PC h t = getTag undef PC h' t

/-- A mask that keeps no more than the outcomes of the table, and chunks that have no more. -/
theorem hashesLocal_of_mask (hsize : TAGE_TAG_SIZE ≤ 2 ^ (t + 1))
    (hmask : ∀ k, maskBit undef (2 <<< t) k = true → k < 2 ^ (t + 1)) : HashesLocal undef t := by
  intro PC h h' heq
  have hfold : ∀ targ ≤ TAGE_TAG_SIZE,
      foldedXor undef h (2 <<< t) targ = foldedXor undef h' (2 <<< t) targ := by
    intro targ htarg
    refine foldedXor_congr (Nat.lt_of_le_of_lt htarg (by decide)) ?_ ?_
    · intro i hi
      exact heq i (by omega)
    · intro k hk
      exact heq k (hmask k hk)
  unfold getIdx getTag
  rw [hfold _ (Nat.le_refl _), hfold (TAGE_TAG_SIZE - 1) (by decide),
    hfold TAGE_IDX_SIZE (by decide)]
  exact ⟨rfl, rfl⟩

/-- The index of a table shows all bits of the folded history. -/
theorem getLsbD_fold_of_getIdx {PC : UINT32} {h h' : UINT128}
    (he : getIdx undef PC h t = getIdx undef PC h' t) (hi : i < TAGE_IDX_SIZE) :
    (foldedXor undef h (2 <<< t) TAGE_IDX_SIZE).getLsbD i =
      (foldedXor undef h' (2 <<< t) TAGE_IDX_SIZE).getLsbD i := by
  have hbit := congrArg (BitVec.getLsbD · i) he
  have hmask : TAGE_IDX_MASK.getLsbD i = true := by
    rw [TAGE_IDX_MASK, getLsbD_MASK_OF_SIZE (by decide), decide_eq_true hi]
  simp only [getIdx, BitVec.getLsbD_and, BitVec.getLsbD_xor, hmask, Bool.and_true] at hbit
  exact Bool.xor_right_inj.1 hbit

theorem two_shiftLeft (t : ℕ) : 2 <<< t = 2 ^ (t + 1) := by
  rw [Nat.shiftLeft_eq, Nat.pow_succ, Nat.mul_comm]

/-- The outcome right after those of the table is not read: neither as a bit of the first chunk nor
through the mask. -/
theorem HashesLocal.not_read (h : HashesLocal undef t) (ht : t < 6) :
    (decide (2 ^ (t + 1) < TAGE_IDX_SIZE) ||
      decide (2 ^ (t + 1) / TAGE_IDX_SIZE ≤ (2 ^ (t + 1) - 1) / TAGE_IDX_SIZE) &&
        maskBit undef (2 ^ (t + 1)) (2 ^ (t + 1))) = false := by
  have hlt : 2 ^ (t + 1) < 128 := Nat.pow_lt_pow_right (by decide) (show t + 1 < 7 by omega)
  have heq : ∀ k < 2 ^ (t + 1), (BitVec.twoPow 128 (2 ^ (t + 1))).getLsbD k =
      (0#128).getLsbD k := by
    intro k hk
    rw [getLsbD_single hlt, BitVec.getLsbD_zero]
    exact decide_eq_false (by omega)
  have hbit := getLsbD_fold_of_getIdx (h 0#32 _ _ heq).1
    (Nat.mod_lt (2 ^ (t + 1)) (show 0 < TAGE_IDX_SIZE by decide))
  rw [getLsbD_foldedXor_zero (by decide), getLsbD_foldedXor_single hlt (by decide) (by decide),
    two_shiftLeft] at hbit
  exact hbit

/-- **The tables**: the hashes of one depend only on its own outcomes exactly if there are at least
as many of them as a chunk has bits, and, where the shift is not defined, its last bit is clear. -/
theorem hashesLocal_iff (ht : t < NUM_TAGE_PHT) : HashesLocal undef t ↔
    t = 3 ∨ t = 6 ∨
      (t = 4 ∨ t = 5) ∧ (undef (2 ^ (t + 1)) - 1#32).getLsbD 31 = false := by
  constructor
  · intro h
    have ht' : t < 7 := ht
    by_cases h₆ : t = 6
    · exact .inr (.inl h₆)
    have hread := h.not_read (by omega)
    have hcases : t = 0 ∨ t = 1 ∨ t = 2 ∨ t = 3 ∨ t = 4 ∨ t = 5 := by omega
    rcases hcases with rfl | rfl | rfl | rfl | rfl | rfl
    · exact absurd hread (by simp [TAGE_IDX_SIZE])
    · exact absurd hread (by simp [TAGE_IDX_SIZE])
    · exact absurd hread (by simp [TAGE_IDX_SIZE])
    · exact .inl rfl
    · rw [maskBit_of_ge (by decide) (by decide) (by decide)] at hread
      exact .inr (.inr ⟨.inl rfl, hread⟩)
    · rw [maskBit_of_ge (by decide) (by decide) (by decide)] at hread
      exact .inr (.inr ⟨.inr rfl, hread⟩)
  · have hmsb : ∀ t, (t = 4 ∨ t = 5) → (undef (2 ^ (t + 1)) - 1#32).getLsbD 31 = false →
        HashesLocal undef t := by
      intro t ht hlast
      have hge : 2 ^ 5 ≤ 2 ^ (t + 1) := Nat.pow_le_pow_right (by decide) (by omega)
      have hlt : 2 ^ (t + 1) < 2 ^ 7 := Nat.pow_lt_pow_right (by decide) (by omega)
      refine hashesLocal_of_mask (Nat.le_trans (by decide) hge) ?_
      intro k hk
      rw [two_shiftLeft] at hk
      exact Nat.lt_of_lt_of_le (lt_of_maskBit hge hlt hlast hk) hge
    rintro (rfl | rfl | ⟨h, hlast⟩)
    · refine hashesLocal_of_mask (by decide) ?_
      intro k hk
      rw [maskBit_of_lt (by decide)] at hk
      exact of_decide_eq_true hk
    · refine hashesLocal_of_mask (by decide) ?_
      intro k hk
      rw [maskBit, if_neg (by decide)] at hk
      exact of_decide_eq_true hk
    · exact hmsb t h hlast

end Tables

/-! ### The address -/

section Address

/-- A bit of the address has an effect on the folded address. -/
def Influences (undef : ℕ → UINT32) (targSize k : ℕ) : Prop :=
  ∃ PC : UINT32, foldedXor undef ((PC ^^^ BitVec.twoPow 32 k).setWidth 128) 32 targSize ≠
    foldedXor undef (PC.setWidth 128) 32 targSize

/-- **The bits of the address**: those of the first chunk, and those the undefined shift keeps. -/
theorem influences_iff (ht : 1 ≤ targSize) (ht' : targSize ≤ 31) (hk : k < 32) :
    Influences undef targSize k ↔ k < targSize ∨ (undef 32 - 1#32).getLsbD k = true := by
  have hmask : maskBit undef 32 k = (undef 32 - 1#32).getLsbD k := by
    rw [maskBit_of_ge (Nat.le_refl _) (by decide) (by omega), if_pos hk]
  constructor
  · rintro ⟨PC, hne⟩
    by_contra hnot
    have hflip : ∀ j, j ≠ k → ((PC ^^^ BitVec.twoPow 32 k).setWidth 128).getLsbD j =
        (PC.setWidth 128).getLsbD j := by
      intro j hj
      rw [BitVec.getLsbD_setWidth, BitVec.getLsbD_setWidth, BitVec.getLsbD_xor,
        BitVec.getLsbD_twoPow, decide_eq_false (Ne.symm hj), Bool.and_false, Bool.xor_false]
    refine hne (foldedXor_congr (by omega) ?_ ?_)
    · intro i hi
      exact hflip i fun he => hnot (.inl (he ▸ hi))
    · intro j hj
      exact hflip j fun he => hnot (.inr (by rw [← hmask, ← he, hj]))
  · intro h
    refine ⟨0#32, ?_⟩
    intro he
    have hsingle : (0#32 ^^^ BitVec.twoPow 32 k).setWidth 128 = BitVec.twoPow 128 k := by
      refine BitVec.eq_of_getLsbD_eq ?_
      intro j _
      rw [BitVec.getLsbD_setWidth, BitVec.zero_xor, BitVec.getLsbD_twoPow, BitVec.getLsbD_twoPow]
      by_cases hj : k = j
      · simp [← hj, hk, show k < 128 by omega]
      · simp [hj]
    have hbit := congrArg (BitVec.getLsbD · (k % targSize)) he
    simp only [hsingle, BitVec.setWidth_zero, getLsbD_foldedXor_zero (show targSize < 32 by omega),
      getLsbD_foldedXor_single (show k < 128 by omega) ht (show targSize < 32 by omega), hmask,
      decide_eq_true (show k / targSize ≤ (32 - 1) / targSize from
        Nat.div_le_div_right (by omega)), Bool.true_and, Bool.or_eq_false_iff,
      decide_eq_false_iff_not] at hbit
    rcases h with h | h
    · exact hbit.1 h
    · exact Bool.false_ne_true (hbit.2.symm.trans h)

end Address

/-! ### All of it -/

section Folding

/-- **When the folding does what it is meant to do**, whatever the undefined shifts give: where the
shift is defined, for the values without bits between the size and the end of the first chunk; where
it is not, if it gives a mask with the bits after the first chunk and the chunks end with the size.
Then the tables, and the address. -/
theorem folding_iff (undef : ℕ → UINT32) :
    (∀ (value : UINT128) (size targSize : ℕ), 1 ≤ size → size < 32 ∨ size = 128 → 1 ≤ targSize →
      targSize ≤ 31 →
      ((foldedXor undef value size targSize).toNat = foldSpec value size targSize ↔
        ∀ i, size ≤ i → i < targSize → value.getLsbD i = false)) ∧
    (∀ size targSize : ℕ, 32 ≤ size → size < 128 → 1 ≤ targSize → targSize ≤ 31 →
      ((∀ value, (foldedXor undef value size targSize).toNat = foldSpec value size targSize) ↔
        targSize ∣ size ∧ ∀ k, targSize ≤ k → k < 32 → (undef size - 1#32).getLsbD k = true)) ∧
    (∀ t < NUM_TAGE_PHT, HashesLocal undef t ↔
      t = 3 ∨ t = 6 ∨ (t = 4 ∨ t = 5) ∧ (undef (2 ^ (t + 1)) - 1#32).getLsbD 31 = false) ∧
    (∀ targSize, 1 ≤ targSize → targSize ≤ 31 → ((∀ k < 32, Influences undef targSize k) ↔
      ∀ k, targSize ≤ k → k < 32 → (undef 32 - 1#32).getLsbD k = true)) := by
  refine ⟨?_, ?_, ?_, ?_⟩
  · intro value size targSize hs hdef ht ht'
    exact foldedXor_eq_iff hs hdef ht ht'
  · intro size targSize hs hs' ht ht'
    exact foldedXor_eq_iff_of_ge hs hs' ht ht'
  · intro t ht
    exact hashesLocal_iff ht
  · intro targSize ht ht'
    constructor
    · intro h k hle hk
      rcases (influences_iff ht ht' hk).1 (h k hk) with hlt | hbit
      · omega
      · exact hbit
    · intro h k hk
      refine (influences_iff ht ht' hk).2 ?_
      by_cases hlt : k < targSize
      · exact .inl hlt
      · exact .inr (h k (by omega) hk)

/-- The shift of a processor that takes the amount modulo 32. -/
def shiftModulo (size : ℕ) : UINT32 := 1#32 <<< (size % 32)

/-- The folding, if the processor shifts modulo 32. -/
theorem folding_iff_shiftModulo : HashesLocal shiftModulo 3 ∧ HashesLocal shiftModulo 5 :=
  ⟨((folding_iff shiftModulo).2.2.1 3 (by decide)).2 (.inl rfl),
    ((folding_iff shiftModulo).2.2.1 5 (by decide)).2 (.inr (.inr ⟨.inr rfl, by decide⟩))⟩

/-- **The third outcome counts** in the fold of two, and so in the index for the first table; and
the last bit of the address does not count if the processor shifts modulo 32. -/
theorem folding_fails : foldedXor shiftModulo 4#128 2 TAGE_IDX_SIZE = 4#32 ∧
    foldSpec 4#128 2 TAGE_IDX_SIZE = 0 ∧
    getIdx shiftModulo 0#32 4#128 0 ≠ getIdx shiftModulo 0#32 0#128 0 ∧
    ¬ Influences shiftModulo TAGE_IDX_SIZE 31 := by
  refine ⟨by decide, by decide, by decide, ?_⟩
  intro h
  rcases (influences_iff (by decide) (by decide) (by decide)).1 h with hlt | hbit
  · exact absurd hlt (by decide)
  · exact absurd hbit (by decide)

end Folding

end Openend
