/-
**Which accesses a cache admits.**

`cache_access` begins with two checks.  The size of an access has to be a power of two and its
address a multiple of the size; and the access has to fit into the block of its address.  For the
second one the code compares the ends of the access and of the block, that is, the addresses of the
bytes that follow them.  These are words of 32 bits: the end of the address space is 0.

So the check is right as long as either both ends are there or none of them.  An access that is
properly inside of the highest block is refused, and one that is larger than a block and reaches the
end of the address space is admitted.  A comment in the code has a comparison of the last bytes
instead, which is always right.

A prefetch is for a whole block, and the ends agree.  The messages of a sequence of calls are thus
about accesses of the caller (`ArchLab/CacheInvariant.lean`).  A miss of one cache is an access to
the next one, whose blocks may have another size: in the highest block of the next cache all of
these but the last are refused.

Main definitions:

* `CacheSim.Params.blockEnd` — the end of the block of an address;
* `CacheSim.Params.Inside` — all bytes of an access are in the block of its address;
* `CacheSim.lastByteSpans` — the comparison of the last bytes.

Main results:

* `CacheSim.checkAccess_eq_ok_iff` — what the checks compute, for all accesses;
* `CacheSim.admission_iff` — **the checks are exact** for an aligned access exactly if it ends at
  the end of the address space just when its block does;
* `CacheSim.admission_fails` — an access that is refused and one that is admitted, both wrongly;
* `CacheSim.lastByteSpans_iff` — **the comparison of the last bytes is exact** for all aligned
  accesses;
* `CacheSim.checkAccess_block` — whole blocks are admitted;
* `CacheSim.checkAccess_lower_iff` — which misses of a cache the next one admits.
-/

import ArchLab.CacheRuns

set_option relaxedAutoImplicit false
set_option autoImplicit false

namespace CacheSim

/-! ### Ends of ranges -/

section Ends

variable {a b n x y N : ℕ}

/-- A range that is aligned to its size does not cross a bound that is. -/
theorem add_le_of_dvd (ha : n ∣ a) (hN : n ∣ N) (h : a < N) : a + n ≤ N :=
  Nat.le_of_lt_add_of_dvd (Nat.add_lt_add_right h n) (Nat.dvd_add ha (dvd_refl n)) hN

/-- **Ends that wrap around**: their comparison is right exactly if both do or none of them. -/
theorem mod_le_mod_iff (hx : 0 < x) (hxN : x ≤ N) (hyN : y ≤ N) :
    (x % N ≤ y % N ↔ x ≤ y) ↔ (x = N ↔ y = N) := by
  rcases hxN.eq_or_lt with rfl | hxlt
  · rcases hyN.eq_or_lt with rfl | hylt
    · simp
    · rw [Nat.mod_self, Nat.mod_eq_of_lt hylt]
      simp [hylt.ne, hylt]
  · rw [Nat.mod_eq_of_lt hxlt]
    rcases hyN.eq_or_lt with rfl | hylt
    · rw [Nat.mod_self]
      simp [hxlt.ne, hxlt.le, hx.ne']
    · rw [Nat.mod_eq_of_lt hylt]
      simp [hxlt.ne, hylt.ne]

/-- All numbers of a range have the same quotient if it ends before the next multiple. -/
theorem forall_div_eq_iff (hb : 0 < b) (hn : 0 < n) :
    (∀ i < n, (a + i) / b = a / b) ↔ a + n ≤ (a / b + 1) * b := by
  constructor
  · intro h
    have hlast := h (n - 1) (by omega)
    have hlt : a + (n - 1) < (a / b + 1) * b :=
      (Nat.div_lt_iff_lt_mul hb).1 (by omega)
    omega
  · intro h i hi
    refine Nat.div_eq_of_lt_le ?_ (by omega)
    exact (Nat.div_mul_le_self a b).trans (Nat.le_add_right a i)

end Ends

/-! ### Blocks and accesses -/

namespace Params

variable (g : Params) {addr nbytes : Addr}

/-- The end of the block of an address: the number of the byte that follows the block. -/
def blockEnd (addr : Addr) : ℕ := (addr.toNat / g.bsize + 1) * g.bsize

/-- **All bytes of an access are in the block of its address.** -/
def Inside (addr nbytes : Addr) : Prop :=
  ∀ i < nbytes.toNat, (addr.toNat + i) / g.bsize = addr.toNat / g.bsize

instance (addr nbytes : Addr) : Decidable (g.Inside addr nbytes) :=
  inferInstanceAs (Decidable (∀ i < nbytes.toNat, _))

theorem bsize_pos : 0 < g.bsize := Nat.pos_of_isPowerOfTwo g.bsize_pow

theorem blockEnd_eq : g.blockEnd addr = (g.tagset addr).toNat + g.bsize := by
  rw [blockEnd, toNat_tagset, Nat.succ_mul]

theorem blockEnd_pos (addr : Addr) : 0 < g.blockEnd addr := Nat.mul_pos (Nat.succ_pos _) g.bsize_pos

/-- The size of a block divides the size of the address space. -/
theorem bsize_dvd : g.bsize ∣ 2 ^ 32 := by
  obtain ⟨k, hk, h⟩ := exponent g.bsize_pow g.bsize_lt
  rw [h]
  exact Nat.pow_dvd_pow 2 (by omega)

theorem bsize_dvd_tagset (a : Addr) : g.bsize ∣ (g.tagset a).toNat := by
  rw [toNat_tagset]
  exact Nat.dvd_mul_left _ _

theorem blockEnd_le (addr : Addr) : g.blockEnd addr ≤ 2 ^ 32 := by
  rw [blockEnd_eq]
  exact add_le_of_dvd (g.bsize_dvd_tagset addr) g.bsize_dvd (g.tagset addr).isLt

theorem inside_iff (hn : 0 < nbytes.toNat) :
    g.Inside addr nbytes ↔ addr.toNat + nbytes.toNat ≤ g.blockEnd addr :=
  forall_div_eq_iff g.bsize_pos hn

/-- The end of a block, as a word. -/
theorem toNat_blockEnd :
    (g.tagset addr + BitVec.ofNat 32 g.bsize).toNat = g.blockEnd addr % 2 ^ 32 := by
  rw [BitVec.toNat_add, BitVec.toNat_ofNat, Nat.add_mod_mod, ← blockEnd_eq]

end Params

/-! ### The checks -/

section Checks

variable {ε : Type} {g : Params} {addr nbytes : Addr}

/-- The predecessor of a word that is not 0. -/
theorem toNat_sub_one (h : 0 < nbytes.toNat) : (nbytes - 1).toNat = nbytes.toNat - 1 :=
  BitVec.toNat_sub_of_le (BitVec.le_def.2 h)

/-- **The first check**: the size is a power of two, and the address is a multiple of it.  A size of
0 passes at address 0 only. -/
theorem alignment_iff : (nbytes &&& (nbytes - 1) = 0 ∧ addr &&& (nbytes - 1) = 0) ↔
    (nbytes = 0 ∨ nbytes.toNat.isPowerOfTwo) ∧ nbytes.toNat ∣ addr.toNat := by
  rcases eq_or_ne nbytes 0 with rfl | hne
  · have hmask : (0 : Addr) - 1 = BitVec.allOnes 32 := by decide
    rw [hmask, BitVec.and_allOnes, BitVec.and_allOnes, BitVec.toNat_eq (x := addr)]
    simp
  · have hpos : 0 < nbytes.toNat :=
      Nat.pos_of_ne_zero fun h => hne (BitVec.eq_of_toNat_eq h)
    rw [BitVec.toNat_eq, BitVec.toNat_eq, BitVec.toNat_and, BitVec.toNat_and, toNat_sub_one hpos]
    change (nbytes.toNat &&& (nbytes.toNat - 1) = 0 ∧ addr.toNat &&& (nbytes.toNat - 1) = 0) ↔ _
    rw [Nat.and_sub_one_eq_zero_iff_isPowerOfTwo hpos.ne', or_iff_right hne]
    refine and_congr_right fun hpow => ?_
    obtain ⟨k, hk⟩ := hpow
    rw [hk, Nat.and_two_pow_sub_one_eq_mod, Nat.dvd_iff_mod_eq_zero]

/-- **What the checks compute**, for every access. -/
theorem checkAccess_eq_ok_iff : checkAccess (ε := ε) g addr nbytes = .ok () ↔
    ((nbytes = 0 ∨ nbytes.toNat.isPowerOfTwo) ∧ nbytes.toNat ∣ addr.toNat) ∧
      (addr.toNat + nbytes.toNat) % 2 ^ 32 ≤ g.blockEnd addr % 2 ^ 32 := by
  have hspan : addr + nbytes > (addr &&& ~~~g.blkMask) + BitVec.ofNat 32 g.bsize ↔
      g.blockEnd addr % 2 ^ 32 < (addr.toNat + nbytes.toNat) % 2 ^ 32 := by
    rw [← g.toNat_blockEnd, ← BitVec.toNat_add]
    exact BitVec.lt_def
  rw [← alignment_iff]
  unfold checkAccess
  split
  · next h => exact iff_of_false nofun fun ⟨h', _⟩ => h.elim (· h'.1) (· h'.2)
  · next h =>
      rw [not_or, not_not, not_not] at h
      split
      · next hs => exact iff_of_false nofun fun ⟨_, hle⟩ => Nat.not_le.2 (hspan.1 hs) hle
      · next hs => exact iff_of_true rfl ⟨h, Nat.not_lt.1 (mt hspan.2 hs)⟩

/-! ### Aligned accesses -/

/-- An aligned access does not go beyond the end of the address space. -/
theorem accessEnd_le (hn : nbytes.toNat.isPowerOfTwo) (ha : nbytes.toNat ∣ addr.toNat) :
    addr.toNat + nbytes.toNat ≤ 2 ^ 32 := by
  refine add_le_of_dvd ha ?_ addr.isLt
  obtain ⟨k, hk⟩ := hn
  have hlt : 2 ^ k < 2 ^ 32 := hk ▸ nbytes.isLt
  rw [hk]
  exact Nat.pow_dvd_pow 2 ((Nat.pow_lt_pow_iff_right (by decide)).1 hlt).le

/-- In terms of the cache: all bytes of an aligned access have the block of its address. -/
theorem inside_iff_tagset (hn : nbytes.toNat.isPowerOfTwo) (ha : nbytes.toNat ∣ addr.toNat) :
    g.Inside addr nbytes ↔
      ∀ i < nbytes.toNat, g.tagset (addr + BitVec.ofNat 32 i) = g.tagset addr := by
  have hend := accessEnd_le hn ha
  refine forall₂_congr fun i hi => ?_
  have hbyte : (addr + BitVec.ofNat 32 i).toNat = addr.toNat + i := by
    rw [BitVec.toNat_add, BitVec.toNat_ofNat, Nat.add_mod_mod, Nat.mod_eq_of_lt (by omega)]
  rw [BitVec.toNat_eq, g.toNat_tagset, g.toNat_tagset, hbyte, Nat.mul_left_inj g.bsize_pos.ne']

/-- An aligned access inside of a block that is not the highest one is admitted. -/
theorem checkAccess_of_inside (hn : nbytes.toNat.isPowerOfTwo) (ha : nbytes.toNat ∣ addr.toNat)
    (hin : g.Inside addr nbytes) (htop : g.blockEnd addr ≠ 2 ^ 32) :
    checkAccess (ε := ε) g addr nbytes = .ok () := by
  have hle := (g.inside_iff (Nat.pos_of_isPowerOfTwo hn)).1 hin
  have hlt := (g.blockEnd_le addr).lt_of_ne htop
  rw [checkAccess_eq_ok_iff, Nat.mod_eq_of_lt (hle.trans_lt hlt), Nat.mod_eq_of_lt hlt]
  exact ⟨⟨.inr hn, ha⟩, hle⟩

/-- **The checks are exact** for an aligned access — it is admitted if and only if all its bytes are
in the block of its address — exactly if it ends at the end of the address space just when this
block does. -/
theorem admission_iff (hn : nbytes.toNat.isPowerOfTwo) (ha : nbytes.toNat ∣ addr.toNat) :
    (checkAccess (ε := ε) g addr nbytes = .ok () ↔ g.Inside addr nbytes) ↔
      (addr.toNat + nbytes.toNat = 2 ^ 32 ↔ g.blockEnd addr = 2 ^ 32) := by
  have hpos : 0 < nbytes.toNat := Nat.pos_of_isPowerOfTwo hn
  have hcheck : checkAccess (ε := ε) g addr nbytes = .ok () ↔
      (addr.toNat + nbytes.toNat) % 2 ^ 32 ≤ g.blockEnd addr % 2 ^ 32 := by
    rw [checkAccess_eq_ok_iff, and_iff_right ⟨.inr hn, ha⟩]
  rw [hcheck, g.inside_iff hpos]
  exact mod_le_mod_iff (by omega) (accessEnd_le hn ha) (g.blockEnd_le addr)

/-- The last word of the address space, with blocks of eight bytes. -/
theorem admission_iff_last : checkAccess (ε := Empty) (.small .LRU 0) 0xFFFFFFFC 4 = .ok () ↔
    (Params.small .LRU 0).Inside 0xFFFFFFFC 4 :=
  (admission_iff ⟨2, rfl⟩ (by decide)).2 (by decide)

/-- **Two wrong answers** for aligned accesses, with blocks of eight bytes: the first word of the
highest block is refused, and the last two blocks together are admitted. -/
theorem admission_fails :
    (4 : Addr).toNat.isPowerOfTwo ∧ (4 : Addr).toNat ∣ (0xFFFFFFF8 : Addr).toNat ∧
    (Params.small .LRU 0).Inside 0xFFFFFFF8 4 ∧
    checkAccess (ε := Empty) (.small .LRU 0) 0xFFFFFFF8 4 =
      .error (.fatal ("cache: access error: access spans block, addr 0x" ++
        (0xFFFFFFF8 : Addr).toHex)) ∧
    (16 : Addr).toNat.isPowerOfTwo ∧ (16 : Addr).toNat ∣ (0xFFFFFFF0 : Addr).toNat ∧
    ¬ (Params.small .LRU 0).Inside 0xFFFFFFF0 16 ∧
    checkAccess (ε := Empty) (.small .LRU 0) 0xFFFFFFF0 16 = .ok () := by
  exact ⟨⟨2, rfl⟩, by decide, by decide, rfl, ⟨4, rfl⟩, by decide, by decide, rfl⟩

/-- The test for an access that spans blocks by its last byte, which stands in `cache_access` as a
comment. -/
def lastByteSpans (g : Params) (addr nbytes : Addr) : Bool :=
  decide (addr + (nbytes - 1) > (addr &&& ~~~g.blkMask) + (BitVec.ofNat 32 g.bsize - 1))

/-- **The comparison of the last bytes is exact** for every aligned access: none of them is beyond
the end of the address space. -/
theorem lastByteSpans_iff (hn : nbytes.toNat.isPowerOfTwo) (ha : nbytes.toNat ∣ addr.toNat) :
    lastByteSpans g addr nbytes = false ↔ g.Inside addr nbytes := by
  have hpos : 0 < nbytes.toNat := Nat.pos_of_isPowerOfTwo hn
  have hend := accessEnd_le hn ha
  have hblk := g.blockEnd_le addr
  have hlast : (addr + (nbytes - 1)).toNat = addr.toNat + nbytes.toNat - 1 := by
    rw [BitVec.toNat_add, toNat_sub_one hpos, Nat.mod_eq_of_lt (by omega)]
    omega
  have hlast' : (g.tagset addr + (BitVec.ofNat 32 g.bsize - 1)).toNat = g.blockEnd addr - 1 := by
    have hb := g.bsize_pos
    have hsub : (BitVec.ofNat 32 g.bsize - 1).toNat = g.bsize - 1 := by
      rw [toNat_sub_one (by rwa [g.toNat_bsize]), g.toNat_bsize]
    rw [g.blockEnd_eq] at hblk ⊢
    rw [BitVec.toNat_add, hsub, Nat.mod_eq_of_lt (by omega)]
    omega
  rw [lastByteSpans, decide_eq_false_iff_not, g.inside_iff hpos, gt_iff_lt, BitVec.lt_def]
  change ¬ (g.tagset addr + (BitVec.ofNat 32 g.bsize - 1)).toNat < _ ↔ _
  rw [hlast, hlast']
  have hb := g.blockEnd_pos addr
  omega

/-! ### Whole blocks -/

/-- **Whole blocks are admitted**, also the highest one: both ends are the same. -/
theorem checkAccess_block (a : Addr) :
    checkAccess (ε := ε) g (g.tagset a) (BitVec.ofNat 32 g.bsize) = .ok () := by
  rw [checkAccess_eq_ok_iff, g.toNat_bsize, g.blockEnd_eq, g.tagset_tagset]
  exact ⟨⟨.inr g.bsize_pow, g.bsize_dvd_tagset a⟩, le_rfl⟩

end Checks

section Levels

variable {ε : Type} {g₁ g₂ : Params}

/-- Of two sizes of blocks one divides the other. -/
theorem bsize_cases (g₁ g₂ : Params) :
    g₁.bsize ∣ g₂.bsize ∨ g₂.bsize ∣ g₁.bsize ∧ g₂.bsize < g₁.bsize := by
  obtain ⟨j, hj⟩ := g₁.bsize_pow
  obtain ⟨k, hk⟩ := g₂.bsize_pow
  rw [hj, hk]
  rcases le_or_gt j k with hjk | hkj
  · exact .inl (Nat.pow_dvd_pow 2 hjk)
  · exact .inr ⟨Nat.pow_dvd_pow 2 hkj.le, Nat.pow_lt_pow_right (by decide) hkj⟩

/-- A block ends inside of the block of a cache with larger blocks. -/
theorem blockEnd_le_of_dvd (h : g₁.bsize ∣ g₂.bsize) (a : Addr) :
    g₁.blockEnd a ≤ g₂.blockEnd a := by
  rw [g₁.blockEnd_eq]
  refine add_le_of_dvd (g₁.bsize_dvd_tagset a) (h.trans (Nat.dvd_mul_left _ _)) ?_
  rw [g₁.toNat_tagset]
  calc a.toNat / g₁.bsize * g₁.bsize ≤ a.toNat := Nat.div_mul_le_self _ _
    _ < g₂.blockEnd a := (Nat.div_lt_iff_lt_mul g₂.bsize_pos).1 (Nat.lt_succ_self _)

/-- The address of a block is in the same block of a cache with larger blocks. -/
theorem blockEnd_tagset (h : g₁.bsize ∣ g₂.bsize) (a : Addr) :
    g₂.blockEnd (g₁.tagset a) = g₂.blockEnd a := by
  obtain ⟨c, hc⟩ := h
  rw [Params.blockEnd, Params.blockEnd, g₁.toNat_tagset, hc, ← Nat.div_div_eq_div_mul,
    Nat.mul_div_cancel _ g₁.bsize_pos, Nat.div_div_eq_div_mul]

/-- The address of a block is the one of a block of a cache with smaller blocks. -/
theorem blockEnd_of_dvd (h : g₂.bsize ∣ g₁.bsize) (a : Addr) :
    g₂.blockEnd (g₁.tagset a) = (g₁.tagset a).toNat + g₂.bsize := by
  rw [Params.blockEnd, Nat.succ_mul, Nat.div_mul_cancel (h.trans (g₁.bsize_dvd_tagset a))]

/-- **Which misses the next level admits**: the block at the end of the address space, and if its
own blocks are not smaller all those outside of its highest block. -/
theorem checkAccess_lower_iff (a : Addr) :
    checkAccess (ε := ε) g₂ (g₁.tagset a) (BitVec.ofNat 32 g₁.bsize) = .ok () ↔
      g₁.blockEnd a = 2 ^ 32 ∨ g₁.bsize ≤ g₂.bsize ∧ g₂.blockEnd a ≠ 2 ^ 32 := by
  rw [checkAccess_eq_ok_iff, g₁.toNat_bsize, ← g₁.blockEnd_eq,
    and_iff_right ⟨.inr g₁.bsize_pow, g₁.bsize_dvd_tagset a⟩]
  rcases (g₁.blockEnd_le a).eq_or_lt with htop | hlt
  · exact iff_of_true (by rw [htop, Nat.mod_self]; exact Nat.zero_le _) (.inl htop)
  rw [Nat.mod_eq_of_lt hlt, or_iff_right hlt.ne]
  rcases bsize_cases g₁ g₂ with hdvd | ⟨hdvd, hsmall⟩
  · rw [blockEnd_tagset hdvd, and_iff_right (Nat.le_of_dvd g₂.bsize_pos hdvd)]
    rcases (g₂.blockEnd_le a).eq_or_lt with htop | hlt₂
    · -- the end of the highest block is 0, and no other end is
      rw [htop, Nat.mod_self]
      exact iff_of_false (Nat.not_le.2 (g₁.blockEnd_pos a)) (not_not.2 rfl)
    · rw [Nat.mod_eq_of_lt hlt₂]
      exact iff_of_true (blockEnd_le_of_dvd hdvd a) hlt₂.ne
  · rw [g₁.blockEnd_eq] at hlt ⊢
    rw [blockEnd_of_dvd hdvd, Nat.mod_eq_of_lt (by omega)]
    exact iff_of_false (by omega) fun h => Nat.not_le.2 hsmall h.1

end Levels

end CacheSim
