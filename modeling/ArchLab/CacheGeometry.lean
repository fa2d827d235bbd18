/-
**The geometry of a cache.**

Lab 4 works with the cache module of the simulator (`cache.c`, `cache.h`), to which the lab adds
prefetchers.  This module has what a cache is created with, and how an address is split into the
tag, the set and the offset in the block; the cache itself is in `ArchLab/Cache.lean`.

Addresses are 32 bits wide.  The macros of `cache.c` become functions under their own names, on the
same machine words.  The tag is what is left of an address after a shift by the number of bits for
the offset and the set.  Nothing keeps this number below 32, and C does not define a shift by 32 or
more: what it gives is a parameter here (`CacheSim.Undef`).

Main definitions:

* `CacheSim.logBase2` — `log_base2`;
* `CacheSim.Undef` — what the machine makes of the shifts that C does not define;
* `CacheSim.Params` — the parameters of a cache, with what `cache_create` checks about them;
* `CacheSim.Params.tag`, `CacheSim.Params.set`, `CacheSim.Params.tagset`, `CacheSim.Params.mkBaddr`
  — the macros `CACHE_TAG`, `CACHE_SET`, `CACHE_TAGSET`, `CACHE_MK_BADDR`.

Main results:

* `CacheSim.Params.set_eq_of_tagset_eq` — the set of an address is the one of its block;
* `CacheSim.Params.tagset_eq_iff` — a block is determined by its tag and its set, if the shift for
  the tag is defined;
* `CacheSim.Params.mkBaddr_tag_set` — the address of a block is then recovered from them.
-/

import Mathlib.Data.Nat.Basic
import Mathlib.Data.Nat.Bitwise

set_option relaxedAutoImplicit false
set_option autoImplicit false

namespace CacheSim

/-- An address, `md_addr_t`. -/
abbrev Addr : Type := BitVec 32

/-! ### Undefined shifts -/

/-- What the machine makes of the shifts of an address by 32 bits or more, to the right and to the
left.  C does not define them. -/
structure Undef where
  shr : Addr → ℕ → Addr
  shl : Addr → ℕ → Addr

namespace Undef

/-- A machine that shifts by the remainder modulo 32, as an x86 does. -/
def masked : Undef := ⟨fun a n => a >>> (n % 32), fun a n => a <<< (n % 32)⟩

variable (u : Undef)

/-- The operator `>>`. -/
def shiftRight (a : Addr) (n : ℕ) : Addr := if n < 32 then a >>> n else u.shr a n

/-- The operator `<<`. -/
def shiftLeft (a : Addr) (n : ℕ) : Addr := if n < 32 then a <<< n else u.shl a n

variable {u} {n : ℕ}

theorem shiftRight_of_lt (h : n < 32) (a : Addr) : u.shiftRight a n = a >>> n := if_pos h

theorem shiftLeft_of_lt (h : n < 32) (a : Addr) : u.shiftLeft a n = a <<< n := if_pos h

end Undef

/-! ### Logarithms -/

/-- The loop of `log_base2`; an `int` has at most 32 bits. -/
def logLoop : ℕ → ℕ → ℕ
  | 0, _ => 0
  | fuel + 1, n => if n >>> 1 = 0 then 0 else logLoop fuel (n >>> 1) + 1

/-- `log_base2`; `none` is the panic for a number that is not a power of two. -/
def logBase2 (n : ℕ) : Option ℕ :=
  if n = 0 ∨ n &&& (n - 1) ≠ 0 then none else some (logLoop 32 n)

theorem logLoop_two_pow : ∀ {fuel k : ℕ}, k ≤ fuel → logLoop fuel (2 ^ k) = k
  | 0, k, h => by
      obtain rfl : k = 0 := by omega
      rfl
  | fuel + 1, 0, _ => rfl
  | fuel + 1, k + 1, h => by
      have hshift : 2 ^ (k + 1) >>> 1 = 2 ^ k := by
        rw [Nat.shiftRight_eq_div_pow, Nat.pow_succ, Nat.pow_one, Nat.mul_div_cancel _ (by decide)]
      have hne : 2 ^ k ≠ 0 := (Nat.two_pow_pos k).ne'
      rw [logLoop, hshift, if_neg hne, logLoop_two_pow (Nat.le_of_succ_le_succ h)]

theorem two_pow_and_sub_one (k : ℕ) : 2 ^ k &&& (2 ^ k - 1) = 0 := by
  rw [Nat.and_two_pow_sub_one_eq_mod, Nat.mod_self]

theorem logBase2_two_pow {k : ℕ} (hk : k ≤ 32) : logBase2 (2 ^ k) = some k := by
  rw [logBase2, two_pow_and_sub_one, if_neg (by simp), logLoop_two_pow hk]

/-! ### Parameters -/

/-- The replacement policies. -/
inductive CachePolicy where
  | LRU | Random | FIFO
  deriving DecidableEq

/-- What a cache is created with, as far as `cache_create` accepts it, and the machine that it runs
on.  All numbers fit into an `int`. -/
structure Params where
  nsets : ℕ
  bsize : ℕ
  assoc : ℕ
  policy : CachePolicy
  hitLatency : ℕ
  prefetchType : ℕ
  undef : Undef
  nsets_pow : nsets.isPowerOfTwo
  nsets_lt : nsets < 2 ^ 31
  bsize_pow : bsize.isPowerOfTwo
  bsize_ge : 8 ≤ bsize
  bsize_lt : bsize < 2 ^ 31
  assoc_pow : assoc.isPowerOfTwo
  assoc_lt : assoc < 2 ^ 31

namespace Params

variable (g : Params)

/-- The number of buckets of the hash table of a set; 0 if there is none, since the set is small. -/
def hsize : ℕ := if 4 < g.assoc then g.assoc >>> 2 else 0

def blkMask : Addr := BitVec.ofNat 32 (g.bsize - 1)
def setShift : ℕ := (logBase2 g.bsize).getD 0
def setMask : Addr := BitVec.ofNat 32 (g.nsets - 1)
def tagShift : ℕ := g.setShift + (logBase2 g.nsets).getD 0
def tagsetMask : Addr := ~~~g.blkMask

/-- `CACHE_TAG`. -/
def tag (addr : Addr) : Addr := g.undef.shiftRight addr g.tagShift

/-- `CACHE_SET`, as an index. -/
def set (addr : Addr) : ℕ := ((addr >>> g.setShift) &&& g.setMask).toNat

/-- `CACHE_TAGSET`. -/
def tagset (addr : Addr) : Addr := addr &&& g.tagsetMask

/-- `CACHE_BADDR`. -/
def baddr (addr : Addr) : Addr := addr &&& ~~~g.blkMask

/-- `CACHE_MK_BADDR`. -/
def mkBaddr (tag : Addr) (set : ℕ) : Addr :=
  g.undef.shiftLeft tag g.tagShift ||| (BitVec.ofNat 32 set <<< g.setShift)

/-- `CACHE_HASH`, as an index. -/
def hash (key : Addr) : ℕ :=
  (((key >>> 24) ^^^ (key >>> 16) ^^^ (key >>> 8) ^^^ key) &&& BitVec.ofNat 32 (g.hsize - 1)).toNat

/-! ### Tags, sets and blocks -/

theorem exponent {n : ℕ} (hn : n.isPowerOfTwo) (hlt : n < 2 ^ 31) : ∃ k < 31, n = 2 ^ k := by
  obtain ⟨k, rfl⟩ := hn
  exact ⟨k, (Nat.pow_lt_pow_iff_right (by decide)).1 hlt, rfl⟩

theorem bsize_eq : g.bsize = 2 ^ g.setShift := by
  obtain ⟨k, hk, h⟩ := exponent g.bsize_pow g.bsize_lt
  rw [setShift, h, logBase2_two_pow (by omega)]
  rfl

theorem nsets_eq : g.nsets = 2 ^ (g.tagShift - g.setShift) := by
  obtain ⟨k, hk, h⟩ := exponent g.nsets_pow g.nsets_lt
  rw [tagShift, Nat.add_sub_cancel_left, h, logBase2_two_pow (by omega)]
  rfl

theorem setShift_le_tagShift : g.setShift ≤ g.tagShift := Nat.le_add_right _ _

theorem assoc_pos : 0 < g.assoc := Nat.pos_of_isPowerOfTwo g.assoc_pow

theorem getLsbD_blkMask (i : ℕ) :
    g.blkMask.getLsbD i = (decide (i < 32) && decide (i < g.setShift)) := by
  rw [blkMask, BitVec.getLsbD_ofNat, bsize_eq, Nat.testBit_two_pow_sub_one]

theorem getLsbD_setMask (i : ℕ) :
    g.setMask.getLsbD i = (decide (i < 32) && decide (i < g.tagShift - g.setShift)) := by
  rw [setMask, BitVec.getLsbD_ofNat, nsets_eq, Nat.testBit_two_pow_sub_one]

theorem baddr_eq_tagset (a : Addr) : g.baddr a = g.tagset a := rfl

/-- The bits of the address of a block. -/
theorem getLsbD_tagset (a : Addr) (i : ℕ) :
    (g.tagset a).getLsbD i = (a.getLsbD i && !decide (i < g.setShift)) := by
  by_cases hi : i < 32
  · rw [tagset, tagsetMask, BitVec.getLsbD_and, BitVec.getLsbD_not, getLsbD_blkMask]
    simp [hi]
  · rw [BitVec.getLsbD_of_ge _ _ (by omega), BitVec.getLsbD_of_ge a _ (by omega)]
    rfl

theorem getLsbD_tag (h : g.tagShift < 32) (a : Addr) (i : ℕ) :
    (g.tag a).getLsbD i = a.getLsbD (g.tagShift + i) := by
  rw [tag, Undef.shiftRight_of_lt h, BitVec.getLsbD_ushiftRight]

/-- The set of an address, as a word. -/
theorem ofNat_set (a : Addr) : BitVec.ofNat 32 (g.set a) = (a >>> g.setShift) &&& g.setMask := by
  rw [set, BitVec.ofNat_toNat, BitVec.setWidth_eq]

theorem getLsbD_ofNat_set (a : Addr) (i : ℕ) : (BitVec.ofNat 32 (g.set a)).getLsbD i =
    (a.getLsbD (g.setShift + i) && decide (i < g.tagShift - g.setShift)) := by
  rw [ofNat_set]
  by_cases hi : i < 32
  · rw [BitVec.getLsbD_and, BitVec.getLsbD_ushiftRight, getLsbD_setMask]
    simp [hi]
  · rw [BitVec.getLsbD_of_ge _ _ (by omega), BitVec.getLsbD_of_ge a _ (by omega)]
    rfl

theorem set_lt (a : Addr) : g.set a < g.nsets := by
  rw [set, BitVec.toNat_and, setMask, BitVec.toNat_ofNat,
    Nat.mod_eq_of_lt (by have := g.nsets_lt; omega), nsets_eq, Nat.and_two_pow_sub_one_eq_mod]
  exact Nat.mod_lt _ (Nat.two_pow_pos _)

/-- **The address of a block**, from its tag and its set. -/
theorem mkBaddr_tag_set (h : g.tagShift < 32) (a : Addr) :
    g.mkBaddr (g.tag a) (g.set a) = g.tagset a := by
  refine BitVec.eq_of_getLsbD_eq fun i hi => ?_
  rw [mkBaddr, Undef.shiftLeft_of_lt h, BitVec.getLsbD_or, BitVec.getLsbD_shiftLeft,
    BitVec.getLsbD_shiftLeft, g.getLsbD_tag h, getLsbD_ofNat_set, getLsbD_tagset]
  have hle := g.setShift_le_tagShift
  by_cases h₁ : i < g.setShift
  · have h₂ : i < g.tagShift := by omega
    simp [h₁, h₂]
  · have h₃ : g.setShift + (i - g.setShift) = i := by omega
    by_cases h₂ : i < g.tagShift
    · have h₄ : i - g.setShift < g.tagShift - g.setShift := by omega
      simp [hi, h₁, h₂, h₃, h₄]
    · have h₄ : ¬ i - g.setShift < g.tagShift - g.setShift := by omega
      have h₅ : g.tagShift + (i - g.tagShift) = i := by omega
      simp [hi, h₁, h₂, h₃, h₄, h₅]

/-- Two addresses in the same block differ in the offset only. -/
theorem getLsbD_eq_of_tagset_eq {a b : Addr} (h : g.tagset a = g.tagset b) {i : ℕ}
    (hi : g.setShift ≤ i) : a.getLsbD i = b.getLsbD i := by
  have := congrArg (fun x => BitVec.getLsbD x i) h
  simpa [getLsbD_tagset, Nat.not_lt.2 hi] using this

/-- The set of an address is the one of its block. -/
theorem set_eq_of_tagset_eq {a b : Addr} (h : g.tagset a = g.tagset b) : g.set a = g.set b := by
  have hset : (a >>> g.setShift) &&& g.setMask = (b >>> g.setShift) &&& g.setMask := by
    rw [← ofNat_set, ← ofNat_set]
    refine BitVec.eq_of_getLsbD_eq fun i _ => ?_
    rw [getLsbD_ofNat_set, getLsbD_ofNat_set, g.getLsbD_eq_of_tagset_eq h (Nat.le_add_right _ _)]
  rw [set, set, hset]

/-- **Two addresses are in the same block** if and only if their tags and sets agree. -/
theorem tagset_eq_iff (hdef : g.tagShift < 32) {a b : Addr} :
    g.tagset a = g.tagset b ↔ g.tag a = g.tag b ∧ g.set a = g.set b := by
  constructor
  · intro h
    refine ⟨BitVec.eq_of_getLsbD_eq fun i _ => ?_, g.set_eq_of_tagset_eq h⟩
    have hle := g.setShift_le_tagShift
    rw [g.getLsbD_tag hdef, g.getLsbD_tag hdef, g.getLsbD_eq_of_tagset_eq h (by omega)]
  · rintro ⟨ht, hs⟩
    rw [← g.mkBaddr_tag_set hdef, ht, hs, g.mkBaddr_tag_set hdef]

@[simp] theorem tagset_tagset (a : Addr) : g.tagset (g.tagset a) = g.tagset a := by
  refine BitVec.eq_of_getLsbD_eq fun i _ => ?_
  rw [getLsbD_tagset, getLsbD_tagset]
  simp

@[simp] theorem set_tagset (a : Addr) : g.set (g.tagset a) = g.set a :=
  g.set_eq_of_tagset_eq (g.tagset_tagset a)

theorem tag_tagset (hdef : g.tagShift < 32) (a : Addr) : g.tag (g.tagset a) = g.tag a :=
  ((g.tagset_eq_iff hdef).1 (g.tagset_tagset a)).1

/-- The size of a block, as a word. -/
theorem toNat_bsize : (BitVec.ofNat 32 g.bsize).toNat = g.bsize :=
  Nat.mod_eq_of_lt (g.bsize_lt.trans (by decide))

/-- The offset in the block, as a remainder. -/
theorem and_blkMask (a : Addr) : a &&& g.blkMask = a % BitVec.ofNat 32 g.bsize := by
  have hlt := g.bsize_lt
  refine BitVec.eq_of_toNat_eq ?_
  have hmask : (g.bsize - 1) % 2 ^ 32 = g.bsize - 1 := Nat.mod_eq_of_lt (by omega)
  rw [BitVec.toNat_and, BitVec.toNat_umod, toNat_bsize, blkMask, BitVec.toNat_ofNat, hmask,
    bsize_eq, Nat.and_two_pow_sub_one_eq_mod]

/-- Taking away the offset gives the address of the block. -/
theorem sub_offset (a : Addr) : a - a % BitVec.ofNat 32 g.bsize = g.tagset a := by
  have hzero : (g.tagset a) &&& (a &&& g.blkMask) = 0#32 := by
    refine BitVec.eq_of_getLsbD_eq fun i hi => ?_
    rw [BitVec.getLsbD_and, getLsbD_tagset, BitVec.getLsbD_and, getLsbD_blkMask]
    by_cases h : i < g.setShift <;> simp [h]
  have hsum : (g.tagset a) ||| (a &&& g.blkMask) = a := by
    refine BitVec.eq_of_getLsbD_eq fun i hi => ?_
    rw [BitVec.getLsbD_or, getLsbD_tagset, BitVec.getLsbD_and, getLsbD_blkMask]
    by_cases h : i < g.setShift <;> simp [h, hi]
  rw [← and_blkMask]
  nth_rewrite 1 [← hsum]
  rw [← BitVec.add_eq_or_of_and_eq_zero _ _ hzero, BitVec.add_sub_cancel]

/-- The address of a block, as a multiple of its size. -/
theorem toNat_tagset (a : Addr) : (g.tagset a).toNat = a.toNat / g.bsize * g.bsize := by
  have hdiv := Nat.div_add_mod' a.toNat g.bsize
  rw [← sub_offset, BitVec.toNat_sub_of_le (BitVec.le_def.2 ?_), BitVec.toNat_umod, toNat_bsize]
  · omega
  · rw [BitVec.toNat_umod]
    exact Nat.mod_le _ _

/-- The bucket of a key is one of the table. -/
theorem hash_lt (hh : g.hsize ≠ 0) (key : Addr) : g.hash key < g.hsize := by
  have hlt := g.assoc_lt
  obtain ⟨k, hk⟩ := g.assoc_pow
  have hassoc : 4 < g.assoc := by
    by_contra h
    exact hh (if_neg h)
  have hk2 : 2 ≤ k := by
    by_contra h
    have : 2 ^ k ≤ 2 ^ 1 := Nat.pow_le_pow_right (by decide) (by omega)
    omega
  have hsize : g.hsize = 2 ^ (k - 2) := by
    rw [hsize, if_pos hassoc, hk, Nat.shiftRight_eq_div_pow, Nat.pow_div hk2 (by decide)]
  have hle : g.hsize ≤ g.assoc := by
    rw [hsize, hk]
    exact Nat.pow_le_pow_right (by decide) (by omega)
  rw [hash, BitVec.toNat_and, BitVec.toNat_ofNat, Nat.mod_eq_of_lt (by omega), hsize,
    Nat.and_two_pow_sub_one_eq_mod]
  exact Nat.mod_lt _ (Nat.two_pow_pos _)

end Params

end CacheSim
