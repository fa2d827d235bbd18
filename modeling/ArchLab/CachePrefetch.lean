/-
**What the prefetchers do.**

This module has three results about the prefetchers of `cache.c`.

A stride prefetcher follows the accesses of an instruction with the entry of its table for this
instruction.  Whatever is in the entry, after four accesses with the same stride the entry is in the
state `STEADY` and the prefetcher picks the block of the next access; it stays there as long as the
stride does not change.

A prefetch may replace a block, but not the one that has triggered it: under LRU this is the block
that has been used last.  This is a matter of tags, and holds if the shift for them is defined; on a
machine that takes shifts modulo 32 there are caches that do not find a block after an access to it.

The reference prediction table is a global variable.  As long as only one cache uses it, its entries
are private to this cache.  Two caches disturb each other, and the table may even be too small for
one of them.

Main definitions:

* `CacheSim.pickStride` — the block that a stride prefetcher picks;
* `CacheSim.Demand`, `CacheSim.picks` — demand accesses to several caches, and the addresses that
  are picked;
* `CacheSim.Private` — the entries of the table are private to the caches.

Main results:

* `CacheSim.stride_locks` — **a stride prefetcher follows a stride** from the fourth access on;
* `CacheSim.prefetch_keeps` — **a prefetch does not evict the block that triggered it**, if the
  shift for the tag is defined;
* `CacheSim.prefetch_undefined` — blocks that are not found after an access if it is not;
* `CacheSim.private_iff` — **the table is private** exactly if no two caches use it;
* `CacheSim.shared_table` — two caches that disturb each other.
-/

import ArchLab.CacheRuns

set_option relaxedAutoImplicit false
set_option autoImplicit false

namespace CacheSim

open Refine

/-! ### The table -/

section Table

variable {g : Params} {k size : ℕ} {r : Rpt} {pc addr : Addr}

/-- An index is one of a table with enough entries. -/
theorem rptIndex_lt (hk : k ≤ 30) (pc : Addr) : rptIndex k pc < 2 ^ k := by
  have hpow : 2 ^ k ≤ 2 ^ 30 := Nat.pow_le_pow_right (by decide) hk
  have hpos := Nat.two_pow_pos k
  unfold rptIndex INST_SHIFT
  rw [BitVec.toNat_ushiftRight, BitVec.toNat_and, BitVec.toNat_shiftLeft, BitVec.toNat_ofNat,
    Nat.shiftRight_eq_div_pow, Nat.shiftLeft_eq, Nat.mod_eq_of_lt (by omega : 2 ^ k - 1 < 2 ^ 32)]
  have h₁ : pc.toNat &&& (2 ^ k - 1) * 2 ^ 3 % 2 ^ 32 ≤ (2 ^ k - 1) * 2 ^ 3 :=
    Nat.and_le_right.trans (Nat.mod_le _ _)
  omega

/-- The table as a prefetcher finds it: it is allocated if necessary. -/
def Rpt.allocated (size : ℕ) (r : Rpt) : Rpt := if r.init then r else ⟨true, size, fun _ => {}⟩

/-- The entry of a program counter after an access at an address. -/
def Rpt.entry (size k : ℕ) (pc addr : Addr) (r : Rpt) : RptEntry :=
  ((r.allocated size).table (rptIndex k pc)).update (rptTag k pc) addr

/-- The table after an access at an address. -/
def Rpt.accessed (size k : ℕ) (pc addr : Addr) (r : Rpt) : Rpt :=
  ⟨true, (r.allocated size).size,
    Function.update (r.allocated size).table (rptIndex k pc) (r.entry size k pc addr)⟩

theorem Rpt.allocated_init : (r.allocated size).init = true := by
  unfold Rpt.allocated
  split
  · assumption
  · rfl

theorem Rpt.allocated_size (hr : r.init = true → size ≤ r.size) :
    size ≤ (r.allocated size).size := by
  unfold Rpt.allocated
  split
  · next hi => exact hr hi
  · exact le_rfl

/-- A prefetcher updates the entry of the current instruction, if the table is large enough. -/
theorem rptAccess_eq (hk : k ≤ 30) (hsize : size = 2 ^ k) (hr : r.init = true → size ≤ r.size) :
    rptAccess size pc addr r = .ok (r.accessed size k pc addr, r.entry size k pc addr) := by
  have hin : rptIndex k pc < (r.allocated size).size :=
    lt_of_lt_of_le (hsize ▸ rptIndex_lt hk pc) (Rpt.allocated_size hr)
  have hlog : logBase2 size = some k := by rw [hsize, logBase2_two_pow (by omega)]
  unfold rptAccess
  rw [hlog]
  change (if rptIndex k pc < (r.allocated size).size then _ else _) = _
  rw [if_pos hin]
  change Except.ok (Rpt.mk (r.allocated size).init _ _, _) = _
  rw [Rpt.allocated_init]
  rfl

end Table

/-! ### Following a stride -/

namespace RptEntry

variable {tag a s : Addr} {e : RptEntry}

/-- An access with a difference to the last one. -/
theorem update_add (t : Addr) (state : RptState) :
    (⟨tag, a, t, state⟩ : RptEntry).update tag (a + s) = if s = t then
        ⟨tag, a + s, s, if state = .NOPRED then .TRANSIENT else .STEADY⟩
      else ⟨tag, a + s, if state = .STEADY then t else s, match state with
        | .INIT => .TRANSIENT
        | .TRANSIENT => .NOPRED
        | .STEADY => .INIT
        | .NOPRED => .NOPRED⟩ := by
  have hsub : a + s - a = s := by rw [BitVec.add_comm, BitVec.add_sub_cancel]
  unfold update
  simp only [if_true, hsub]
  by_cases hs : s = t
  · rw [if_pos hs, if_pos hs, hs]
  · cases state <;> simp only [if_neg hs]

/-- The first access to an entry. -/
theorem update_first (e : RptEntry) (tag a : Addr) :
    ∃ t state, e.update tag a = ⟨tag, a, t, state⟩ := by
  unfold update
  split
  · next ht =>
      simp only
      split
      · exact ⟨_, _, by rw [← ht]⟩
      · exact ⟨_, _, by rw [← ht]⟩
  · exact ⟨0, .INIT, rfl⟩

/-- After the third access with a stride it is in the entry. -/
theorem update_third (t : Addr) (state : RptState) :
    ∃ state', (state' = .TRANSIENT ∨ state' = .STEADY) ∧
    ((⟨tag, a, t, state⟩ : RptEntry).update tag (a + s)).update tag (a + s + s) =
      ⟨tag, a + s + s, s, state'⟩ := by
  rw [update_add]
  by_cases hs : s = t
  · rw [if_pos hs, update_add, if_pos rfl]
    refine ⟨_, ?_, rfl⟩
    cases state <;> decide
  · rw [if_neg hs]
    cases state with
    | STEADY =>
        -- the old stride is kept for one more access
        change ∃ state', _ ∧ (⟨tag, a + s, t, .INIT⟩ : RptEntry).update tag (a + s + s) = _
        rw [update_add, if_neg hs]
        exact ⟨.TRANSIENT, .inl rfl, rfl⟩
    | INIT =>
        change ∃ state', _ ∧ (⟨tag, a + s, s, .TRANSIENT⟩ : RptEntry).update tag (a + s + s) = _
        rw [update_add, if_pos rfl]
        exact ⟨.STEADY, .inr rfl, rfl⟩
    | TRANSIENT =>
        change ∃ state', _ ∧ (⟨tag, a + s, s, .NOPRED⟩ : RptEntry).update tag (a + s + s) = _
        rw [update_add, if_pos rfl]
        exact ⟨.TRANSIENT, .inl rfl, rfl⟩
    | NOPRED =>
        change ∃ state', _ ∧ (⟨tag, a + s, s, .NOPRED⟩ : RptEntry).update tag (a + s + s) = _
        rw [update_add, if_pos rfl]
        exact ⟨.TRANSIENT, .inl rfl, rfl⟩

/-- The fourth access of a stride, and all later ones. -/
theorem update_steady {state : RptState} (hst : state = .TRANSIENT ∨ state = .STEADY) :
    (⟨tag, a, s, state⟩ : RptEntry).update tag (a + s) = ⟨tag, a + s, s, .STEADY⟩ := by
  rw [update_add, if_pos rfl]
  rcases hst with rfl | rfl <;> rfl

/-- The addresses of a stride. -/
theorem stride_succ (a s : Addr) (i : ℕ) :
    a + BitVec.ofNat 32 (i + 1) * s = a + BitVec.ofNat 32 i * s + s := by
  have hone : BitVec.ofNat 32 (i + 1) = BitVec.ofNat 32 i + 1#32 := BitVec.ofNat_add i 1
  rw [hone, BitVec.add_mul, BitVec.one_mul, BitVec.add_assoc]

/-- **The entry of an instruction with a stride**, from the fourth access on. -/
theorem foldl_update (tag a s : Addr) (e : RptEntry) (n : ℕ) :
    ((List.range (n + 4)).map fun i => a + BitVec.ofNat 32 i * s).foldl
      (fun e x => e.update tag x) e =
      ⟨tag, a + BitVec.ofNat 32 (n + 3) * s, s, .STEADY⟩ := by
  induction n with
  | zero =>
      have hlist : (List.range (0 + 4)).map (fun i => a + BitVec.ofNat 32 i * s) =
          [a + BitVec.ofNat 32 0 * s, a + BitVec.ofNat 32 1 * s, a + BitVec.ofNat 32 2 * s,
            a + BitVec.ofNat 32 3 * s] := rfl
      rw [hlist]
      simp only [List.foldl_cons, List.foldl_nil, Nat.zero_add, stride_succ a s 0,
        stride_succ a s 1,
        stride_succ a s 2]
      obtain ⟨t, state, h₁⟩ := e.update_first tag (a + BitVec.ofNat 32 0 * s)
      rw [h₁]
      obtain ⟨state', hst, h₃⟩ : ∃ state', (state' = .TRANSIENT ∨ state' = .STEADY) ∧ _ =
          (⟨tag, a + BitVec.ofNat 32 0 * s + s + s, s, state'⟩ : RptEntry) := update_third t state
      rw [h₃, update_steady hst]
  | succ n ih =>
      rw [show n + 1 + 4 = n + 4 + 1 from rfl, List.range_succ, List.map_append,
        List.foldl_append, ih]
      simp only [List.map_cons, List.map_nil, List.foldl_cons, List.foldl_nil]
      rw [show n + 1 + 3 = n + 3 + 1 from rfl, show n + 4 = n + 3 + 1 from rfl,
        stride_succ a s (n + 3),
        update_steady (.inr rfl)]

end RptEntry

/-- The block that a stride prefetcher picks. -/
def pickStride (g : Params) (pc addr : Addr) (r : Rpt) : Except RptFault (Rpt × Option Addr) :=
  pickRpt g g.prefetchType (fun state => decide (state ≠ .NOPRED)) pc addr r

/-- A stride prefetcher, for an access to an address at a program counter. -/
def strideStep (g : Params) (r : Rpt) (d : Addr × Addr) : Except RptFault Rpt := do
  let (r, _) ← pickStride g d.1 d.2 r
  return r

section Stride

variable {g : Params} {k : ℕ} {r : Rpt} {pc : Addr}

/-- What an access does to the table. -/
theorem strideStep_eq (hk : k ≤ 30) (hsize : g.prefetchType = 2 ^ k)
    (hr : r.init = true → g.prefetchType ≤ r.size) (d : Addr × Addr) :
    strideStep g r d = .ok (r.accessed g.prefetchType k d.1 d.2) := by
  unfold strideStep pickStride pickRpt
  rw [rptAccess_eq hk hsize hr]
  rfl

/-- The entry of an instruction after some accesses, if the other instructions have other
indices. -/
theorem foldlM_strideStep (hk : k ≤ 30) (hsize : g.prefetchType = 2 ^ k) {ds : List (Addr × Addr)}
    {r : Rpt} (hr : r.init = true → g.prefetchType ≤ r.size)
    (hother : ∀ d ∈ ds, d.1 ≠ pc → rptIndex k d.1 ≠ rptIndex k pc) :
    ∃ r', ds.foldlM (strideStep g) r = .ok r' ∧ (r'.init = true → g.prefetchType ≤ r'.size) ∧
      (r'.allocated g.prefetchType).table (rptIndex k pc) =
        ((ds.filter fun d => decide (d.1 = pc)).map Prod.snd).foldl
          (fun e a => e.update (rptTag k pc) a)
          ((r.allocated g.prefetchType).table (rptIndex k pc)) := by
  induction ds generalizing r with
  | nil => exact ⟨r, rfl, hr, rfl⟩
  | cons d ds ih =>
      have hr₁ : (r.accessed g.prefetchType k d.1 d.2).init = true →
          g.prefetchType ≤ (r.accessed g.prefetchType k d.1 d.2).size :=
        fun _ => Rpt.allocated_size hr
      obtain ⟨r', hr', hs', he⟩ := ih hr₁ fun d' hd' => hother d' (List.mem_cons_of_mem d hd')
      rw [List.foldlM_cons, strideStep_eq hk hsize hr]
      refine ⟨r', hr', hs', he.trans ?_⟩
      change List.foldl _ (Function.update (r.allocated g.prefetchType).table (rptIndex k d.1)
        (r.entry g.prefetchType k d.1 d.2) (rptIndex k pc)) _ = _
      by_cases hd : d.1 = pc
      · have hfilter : (d :: ds).filter (fun d => decide (d.1 = pc)) =
            d :: ds.filter fun d => decide (d.1 = pc) := List.filter_cons_of_pos (by simpa using hd)
        rw [hfilter, hd, Function.update_self]
        rfl
      · have hfilter : (d :: ds).filter (fun d => decide (d.1 = pc)) =
            ds.filter fun d => decide (d.1 = pc) := List.filter_cons_of_neg (by simpa using hd)
        rw [hfilter, Function.update_of_ne (hother d List.mem_cons_self hd).symm]

/-- **A stride prefetcher follows a stride**: after accesses of an instruction at the addresses `a`,
`a + s`, and so on, in between any accesses of instructions with other indices, the next access of
the instruction leaves its entry in the state `STEADY` with this stride, and the block that is
picked is the one of the access after it.  The table may have any contents before. -/
theorem stride_locks (hk : k ≤ 30) (hsize : g.prefetchType = 2 ^ k)
    (hr : r.init = true → g.prefetchType ≤ r.size) (a s : Addr) {n : ℕ} (hn : 3 ≤ n)
    {ds : List (Addr × Addr)}
    (hpc : (ds.filter fun d => decide (d.1 = pc)).map Prod.snd =
      (List.range n).map fun i => a + BitVec.ofNat 32 i * s)
    (hother : ∀ d ∈ ds, d.1 ≠ pc → rptIndex k d.1 ≠ rptIndex k pc) :
    ∃ r₁ r₂, ds.foldlM (strideStep g) r = .ok r₁ ∧
      pickStride g pc (a + BitVec.ofNat 32 n * s) r₁ =
        .ok (r₂, some (g.tagset (a + BitVec.ofNat 32 (n + 1) * s))) ∧
      r₂.table (rptIndex k pc) = ⟨rptTag k pc, a + BitVec.ofNat 32 n * s, s, .STEADY⟩ := by
  obtain ⟨r₁, hr₁, hs₁, he⟩ := foldlM_strideStep hk hsize hr hother
  obtain ⟨m, rfl⟩ : ∃ m, n = m + 3 := ⟨n - 3, by omega⟩
  -- the entry after one more access
  have hentry : r₁.entry g.prefetchType k pc (a + BitVec.ofNat 32 (m + 3) * s) =
      ⟨rptTag k pc, a + BitVec.ofNat 32 (m + 3) * s, s, .STEADY⟩ := by
    have hlast := RptEntry.foldl_update (rptTag k pc) a s
      ((r.allocated g.prefetchType).table (rptIndex k pc)) m
    rw [show m + 4 = m + 3 + 1 from rfl, List.range_succ, List.map_append, List.foldl_append, ← hpc,
      ← he] at hlast
    exact hlast
  refine ⟨r₁, r₁.accessed g.prefetchType k pc (a + BitVec.ofNat 32 (m + 3) * s), hr₁, ?_, ?_⟩
  · unfold pickStride pickRpt
    rw [rptAccess_eq hk hsize hs₁, hentry, RptEntry.stride_succ a s (m + 3)]
    rfl
  · exact (Function.update_self ..).trans hentry

/-- Four accesses with the stride -8, and one of another instruction. -/
theorem stride_locks_small : ∃ r₁ r₂,
    [((64, 1000) : Addr × Addr), (64, 992), (72, 0), (64, 984)].foldlM (strideStep (.small .LRU 4))
      Rpt.unused = .ok r₁ ∧
    pickStride (.small .LRU 4) 64 (1000 + BitVec.ofNat 32 3 * (-8)) r₁ =
      .ok (r₂, some ((Params.small .LRU 4).tagset (1000 + BitVec.ofNat 32 4 * (-8)))) ∧
    r₂.table (rptIndex 2 64) = ⟨rptTag 2 64, 1000 + BitVec.ofNat 32 3 * (-8), -8, .STEADY⟩ := by
  -- the accesses one by one: there are too many pairs of addresses to decide this over all of them
  have hother : ∀ d ∈ [((64, 1000) : Addr × Addr), (64, 992), (72, 0), (64, 984)], d.1 ≠ 64 →
      rptIndex 2 d.1 ≠ rptIndex 2 64 := by
    simp only [List.forall_mem_cons]
    exact ⟨by decide, by decide, by decide, by decide, nofun⟩
  exact stride_locks (by decide) rfl (fun h => by cases h) 1000 (-8) (by decide) (by decide) hother

end Stride

/-! ### The block that has triggered a prefetch -/

section Trigger

variable {ε M : Type} {g : Params} {fn : Handler ε M} {c c' : Ways} {w w' : Shared × M}
  {cmd : MemCmd} {a addr nbytes : Addr} {now : ℤ} {prefetch : Bool} {e : Ended}

/-- The block of an address is in the cache, at the head of its set. -/
def AtHead (g : Params) (c : Ways) (a : Addr) : Prop :=
  ∃ b, (c.sets (g.set a)).find (g.tag a) = some b ∧ (c.sets (g.set a)).order.head? = some b

theorem AtHead.resident (h : AtHead g c a) : c.resident g a = true := by
  obtain ⟨b, hf, _⟩ := h
  unfold Ways.resident
  rw [hf]
  rfl

theorem Ways.Ok.access (hok : c.Ok g)
    (hr : c.access g fn cmd addr nbytes now prefetch w = .ok (e, c', w')) :
    c'.Ok g := by
  rcases Ways.access_ok hok hr with ⟨b, hf, _, rfl, _⟩ | ⟨hf, _, repl, v, hrep⟩
  · exact hok.hit hf
  · exact hok.replaces hf hrep

/-- Under LRU an access leaves its block at the head. -/
theorem Ways.access_atHead (hdef : g.tagShift < 32) (hok : c.Ok g) (hp : g.policy = .LRU)
    (hr : c.access g fn cmd addr nbytes now prefetch w = .ok (e, c', w')) : AtHead g c' addr := by
  have hok' := hok.access hr
  rcases Ways.access_ok hok hr with ⟨b, hf, _, rfl, _⟩ | ⟨_, _, repl, v, hrep⟩
  · -- the block that was hit can be hit again, for the address of the block
    obtain ⟨hhits, hhead⟩ := hok'.last _ _ rfl
    have hfind := hhits.find_eq (hok'.sets _) hdef
    rw [g.set_tagset, g.tag_tagset hdef] at hfind
    rw [g.set_tagset] at hhead
    exact ⟨b, hfind, hhead hp⟩
  · obtain ⟨ready, hsets⟩ := hrep.sets
    have hset : c'.sets (g.set addr) = v.setLine repl (filled g cmd addr ready) := by
      rw [hsets, Function.update_self]
    have horder := hrep.chosen.order
    rw [if_neg (by rw [hp]; decide)] at horder
    refine ⟨repl, (WaySet.find_eq_some (hok'.sets _)).2 ⟨hrep.chosen.lt, ?_⟩, ?_⟩
    · rw [hset, WaySet.line_setLine, if_pos rfl]
      exact ⟨rfl, rfl⟩
    · rw [hset, horder.2]
      rfl

theorem head_ne_getLast {α : Type} {l : List α} {x y : α} (hnodup : l.Nodup) (hlen : 2 ≤ l.length)
    (hx : l.head? = some x) (hy : l.getLast? = some y) : x ≠ y := by
  rintro rfl
  obtain ⟨t, rfl⟩ : ∃ t, l = x :: t := by
    cases l with
    | nil => cases hx
    | cons z t =>
        cases hx
        exact ⟨t, rfl⟩
  cases t with
  | nil => exact absurd hlen (Nat.not_succ_le_self 1)
  | cons z t =>
      rw [List.getLast?_cons_cons] at hy
      exact (List.nodup_cons.1 hnodup).1 (List.mem_of_getLast? hy)

/-- The head of a set keeps its block: a hit replaces none, and a miss the last one of at least
two. -/
theorem Ways.access_line_head (hok : c.Ok g) (hp : g.policy = .LRU) (hassoc : 2 ≤ g.assoc) {b : ℕ}
    (hhead : (c.sets (g.set a)).order.head? = some b)
    (hr : c.access g fn cmd addr nbytes now prefetch w = .ok (e, c', w')) :
    ((c'.sets (g.set a)).line b).tag = ((c.sets (g.set a)).line b).tag ∧
      ((c'.sets (g.set a)).line b).valid = ((c.sets (g.set a)).line b).valid := by
  rcases Ways.access_ok hok hr with ⟨b', _, _, rfl, _⟩ | ⟨_, _, repl, v, hrep⟩
  · change ((Function.update c.sets _ _ _).line b).tag = _ ∧
      ((Function.update c.sets _ _ _).line b).valid = _
    by_cases hs : g.set a = g.set addr
    · rw [hs, Function.update_self, WaySet.line_touched]
      split
      · next hbb =>
          rw [hbb]
          exact ⟨rfl, rfl⟩
      · exact ⟨rfl, rfl⟩
    · rw [Function.update_of_ne hs]
      exact ⟨rfl, rfl⟩
  · obtain ⟨ready, hsets⟩ := hrep.sets
    rw [hsets]
    by_cases hs : g.set a = g.set addr
    · have horder := hrep.chosen.order
      rw [if_neg (by rw [hp]; decide)] at horder
      rw [hs] at hhead
      have hlen : 2 ≤ (c.sets (g.set addr)).order.length := by
        rw [(hok.sets (g.set addr)).length]
        exact hassoc
      have hne : b ≠ repl := head_ne_getLast (hok.sets _).nodup hlen hhead horder.1
      rw [hs, Function.update_self, WaySet.line_setLine, if_neg hne, hrep.chosen.line]
      exact ⟨rfl, rfl⟩
    · rw [Function.update_of_ne hs]
      exact ⟨rfl, rfl⟩

/-- With at least two blocks in a set, an access does not replace the head. -/
theorem Ways.access_keeps_head (hok : c.Ok g) (hp : g.policy = .LRU) (hassoc : 2 ≤ g.assoc)
    (ha : AtHead g c a) (hr : c.access g fn cmd addr nbytes now prefetch w = .ok (e, c', w')) :
    c'.resident g a = true := by
  obtain ⟨b, hf, hhead⟩ := ha
  obtain ⟨hb, ht, hv⟩ := (WaySet.find_eq_some (hok.sets _)).1 hf
  obtain ⟨htag, hvalid⟩ := Ways.access_line_head hok hp hassoc hhead hr
  have hfind : (c'.sets (g.set a)).find (g.tag a) = some b :=
    (WaySet.find_eq_some ((hok.access hr).sets _)).2 ⟨hb, htag.trans ht, hvalid.trans hv⟩
  unfold Ways.resident
  rw [hfind]
  rfl

/-- The prefetch that follows an access. -/
theorem prefetchMissing_resident (hdef : g.tagShift < 32) (hok : c.Ok g) (hp : g.policy = .LRU)
    (hassoc : 2 ≤ g.assoc) (ha : AtHead g c a) {p : Option Addr} {as : List Accessed}
    (hr : prefetchMissing g (Ways.store g fn) p c w = .ok (as, c', w')) :
    c'.resident g a = true ∧ ∀ q, p = some q → c'.resident g q = true := by
  cases p with
  | none =>
      cases hr
      exact ⟨ha.resident, nofun⟩
  | some q =>
      change (if c.resident g q = true then _ else _) = _ at hr
      split at hr
      · next hq =>
          cases hr
          refine ⟨ha.resident, ?_⟩
          rintro _ ⟨⟩
          exact hq
      · obtain ⟨⟨e, c₁, w₁⟩, hacc, hr⟩ := bind_ok.1 hr
        cases hr
        refine ⟨Ways.access_keeps_head hok hp hassoc ha hacc, ?_⟩
        rintro _ ⟨⟩
        have hq := (Ways.access_atHead hdef hok hp hacc).resident
        rwa [Ways.resident, g.set_tagset, g.tag_tagset hdef] at hq

/-- **A prefetch does not evict the block that triggered it**, if the shift for the tag is defined:
in every state that can be reached, after a demand access to a cache with LRU replacement and at
least two blocks in a set, the block of the address is in the cache, and so is the block of the
address that the prefetcher has picked. -/
theorem prefetch_keeps (hdef : g.tagShift < 32) (hp : g.policy = .LRU) (hassoc : 2 ≤ g.assoc)
    (ops : List Op) {es : List Event} {cp cp' : Cache} {w₀ w₁ : Shared × M} {r : Result}
    (hr : run g (store g fn) ops (Cache.create g) w₀ = .ok (es, cp, w₁))
    (ha : cacheAccess g (store g fn) cmd addr nbytes now false cp w = .ok (r, cp', w')) :
    cp'.probe (ε := ε) g addr = .ok true ∧
    ∃ e cp₁ w₂ rpt p, cp.access g fn cmd addr nbytes now false w = .ok (e, cp₁, w₂) ∧
      pick g w₂.1.pc addr w₂.1.rpt = .ok (rpt, p) ∧
      ∀ q, p = some q → cp'.probe (ε := ε) g q = .ok true := by
  obtain ⟨c, hrel⟩ := run_rel hr
  have hok := hrel.ok
  -- the access itself
  obtain ⟨⟨e, cp₁, w₂⟩, hacc, ha⟩ := bind_ok.1 ha
  obtain ⟨⟨more, cp₂, w₃⟩, hgen, ha⟩ := bind_ok.1 ha
  cases ha
  have hsim₁ := (cache_storeSim fn).access hrel cmd addr nbytes now false w
  rw [hacc] at hsim₁
  obtain ⟨⟨_, c₁, _⟩, hacc₁, rfl, hrel₁, rfl⟩ := hsim₁.ok
  -- the prefetch
  rw [generatePrefetch_eq] at hgen
  obtain ⟨⟨rpt, p⟩, hpick, hgen⟩ := bind_ok.1 hgen
  change prefetchMissing g (store g fn) p cp₁ ({ w₂.1 with rpt }, w₂.2) = _ at hgen
  have hsim₂ : Sim isNull (Agree (Rel g))
      (prefetchMissing g (store g fn) p cp₁ ({ w₂.1 with rpt }, w₂.2))
      (prefetchMissing g (Ways.store g fn) p c₁ ({ w₂.1 with rpt }, w₂.2)) :=
    (cache_storeSim fn).prefetchMissing hrel₁ p _
  rw [hgen] at hsim₂
  obtain ⟨⟨_, c₂, _⟩, hgen₂, rfl, hrel₂, rfl⟩ := hsim₂.ok
  obtain ⟨haddr, hblock⟩ := prefetchMissing_resident hdef (hok.access hacc₁) hp hassoc
    (Ways.access_atHead hdef hok hp hacc₁) hgen₂
  refine ⟨?_, e, cp₁, w₂, rpt, p, hacc, liftRpt_ok hpick, fun q hq => ?_⟩
  · rw [probe_eq hrel₂, haddr]
  · rw [probe_eq hrel₂, hblock q hq]

/-- Two blocks of one set: the second one and its successor are prefetched without harm to the
first. -/
theorem prefetch_keeps_small : ∃ cp w r cp' w',
    (∃ es, run (.small .LRU 1) (store (.small .LRU 1) dl2AccessFn)
      [.access .Write 16 4 0 false 0, .access .Read 32 4 1 false 0] (Cache.create (.small .LRU 1))
      (.start, ()) = .ok (es, cp, w)) ∧
    cacheAccess (.small .LRU 1) (store (.small .LRU 1) dl2AccessFn) .Read 48 4 2 false cp w =
      .ok (r, cp', w') ∧
    cp'.probe (ε := Empty) (.small .LRU 1) 48 = .ok true := by
  obtain ⟨x, hx⟩ := exists_ok (x := do
    let y ← run (.small .LRU 1) (store (.small .LRU 1) dl2AccessFn)
      [.access .Write 16 4 0 false 0, .access .Read 32 4 1 false 0] (Cache.create (.small .LRU 1))
      (.start, ())
    cacheAccess (.small .LRU 1) (store (.small .LRU 1) dl2AccessFn) .Read 48 4 2 false y.2.1 y.2.2)
    (by decide +kernel)
  obtain ⟨⟨es, cp, w⟩, hr, ha⟩ := bind_ok.1 hx
  obtain ⟨r, cp', w'⟩ := x
  exact ⟨cp, w, r, cp', w', ⟨es, hr⟩, ha, (prefetch_keeps (by decide) rfl (by decide) _ hr ha).1⟩

/-- **Blocks that are not found after an access**, with an undefined shift.  In a cache without
prefetches a block is hit for a second address in it, for which a search does not find it; and the
block that a next-line prefetcher reads does not have the tag of the address that it has picked. -/
theorem prefetch_undefined :
    (Params.wide 0).policy = .LRU ∧ 2 ≤ (Params.wide 0).assoc ∧
    (∃ es cp w r cp' w', run (.wide 0) (store (.wide 0) dl2AccessFn)
      [.access .Read 0x40001000 4 0 false 0, .access .Read 0x40001000 4 1 false 0]
      (Cache.create (.wide 0)) (.start, ()) = .ok (es, cp, w) ∧
    cacheAccess (.wide 0) (store (.wide 0) dl2AccessFn) .Read 0x40002000 4 2 false cp w =
      .ok (r, cp', w') ∧
    cp'.probe (ε := Empty) (.wide 0) 0x40002000 = .ok false) ∧
    ∃ r cp' w', cacheAccess (.wide 1) (store (.wide 1) dl2AccessFn) .Read 0x40001000 4 0 false
      (Cache.create (.wide 1)) (.start, ()) = .ok (r, cp', w') ∧
    pick (.wide 1) 0 0x40001000 Rpt.unused = .ok (Rpt.unused, some 0x80001000) ∧
    cp'.probe (ε := Empty) (.wide 1) 0x80001000 = .ok false :=
  ⟨rfl, by decide, ⟨_, _, _, _, _, _, rfl, rfl, rfl⟩, ⟨_, _, _, rfl, rfl, rfl⟩⟩

end Trigger

/-! ### Several caches -/

section Caches

variable {ι : Type}

/-- The prefetcher of a cache uses the reference prediction table. -/
def UsesTable (g : Params) : Prop := 2 ≤ g.prefetchType

instance (g : Params) : Decidable (UsesTable g) := inferInstanceAs (Decidable (2 ≤ g.prefetchType))

/-- The number of entries that the prefetcher of a cache expects. -/
def tableSize (g : Params) : ℕ := if g.prefetchType = 2 then 1024 else g.prefetchType

/-- The types of prefetchers that a cache may have: none, next line, open ended, or a stride
prefetcher with a power of two as its number of entries. -/
def TypeOk (g : Params) : Prop := g.prefetchType = 0 ∨ ∃ k ≤ 30, g.prefetchType = 2 ^ k

/-- A demand access to one of several caches. -/
structure Demand (ι : Type) where
  cache : ι
  pc : Addr
  addr : Addr

/-- The entry of the table that is used on behalf of a demand access. -/
def Demand.index (g : ι → Params) (d : Demand ι) : ℕ :=
  rptIndex ((logBase2 (tableSize (g d.cache))).getD 0) d.pc

/-- The addresses that are picked after some demand accesses, with the caches they are picked
for. -/
def picks (g : ι → Params) : List (Demand ι) → Rpt → Except RptFault (List (ι × Option Addr))
  | [], _ => .ok []
  | d :: ds, r => do
      let (r, p) ← pick (g d.cache) d.pc d.addr r
      let ps ← picks g ds r
      return (d.cache, p) :: ps

/-- The cache on whose behalf an entry of the table was written last. -/
def writer (g : ι → Params) (ds : List (Demand ι)) (k : ℕ) : Option ι :=
  ((ds.filter fun d => decide (UsesTable (g d.cache) ∧ d.index g = k)).getLast?).map Demand.cache

variable [DecidableEq ι]

/-- **The table is private to each cache**: all entries that are used lie inside of it, they were
last written on behalf of the same cache, and the addresses that are picked for a cache do not
depend on the accesses to the others. -/
structure Private (g : ι → Params) : Prop where
  inBounds : ∀ ds, picks g ds Rpt.unused ≠ .error .outOfBounds
  owned : ∀ ds (d : Demand ι) i, UsesTable (g d.cache) → writer g ds (d.index g) = some i →
    i = d.cache
  independent : ∀ ds ps, picks g ds Rpt.unused = .ok ps → ∀ i,
    picks g (ds.filter fun d => decide (d.cache = i)) Rpt.unused =
      .ok (ps.filter fun p => decide (p.1 = i))

variable {g : ι → Params} {ds : List (Demand ι)} {r : Rpt}

omit [DecidableEq ι] in
/-- A prefetcher that does not use the table. -/
theorem pick_of_not_usesTable {g : Params} (h : ¬ UsesTable g) (pc addr : Addr) :
    ∃ p, ∀ r, pick g pc addr r = .ok (r, p) := by
  unfold UsesTable at h
  unfold pick
  rcases htype : g.prefetchType with _ | _ | n
  · exact ⟨none, fun _ => rfl⟩
  · exact ⟨_, fun _ => rfl⟩
  · omega

omit [DecidableEq ι] in
/-- A prefetcher that finds a table that is large enough. -/
theorem pick_of_usesTable {g : Params} (h : UsesTable g) (ht : TypeOk g) {r : Rpt}
    (hr : r.init = true → tableSize g ≤ r.size) (pc addr : Addr) :
    ∃ r' p, pick g pc addr r = .ok (r', p) ∧ tableSize g ≤ r'.size := by
  have hrpt : ∀ {k size : ℕ} (issues : RptState → Bool), k ≤ 30 → size = 2 ^ k →
      (r.init = true → size ≤ r.size) →
      ∃ r' p, pickRpt g size issues pc addr r = .ok (r', p) ∧ size ≤ r'.size := by
    intro k size issues hk hsize hr
    unfold pickRpt
    rw [rptAccess_eq hk hsize hr]
    exact ⟨_, _, rfl, Rpt.allocated_size hr⟩
  unfold UsesTable at h
  unfold TypeOk at ht
  unfold tableSize at hr ⊢
  unfold pick
  rcases htype : g.prefetchType with _ | _ | _ | n
  · omega
  · omega
  · rw [htype] at hr
    exact hrpt (k := 10) _ (by decide) rfl hr
  · rw [htype, if_neg (by omega)] at hr
    rw [if_neg (by omega)]
    obtain ⟨k, hk, hsize⟩ := ht.resolve_left (by omega)
    exact hrpt _ hk (htype ▸ hsize) hr

/-- The table is large enough for all caches that use it. -/
def Fits (g : ι → Params) (r : Rpt) : Prop :=
  r.init = true → ∀ i, UsesTable (g i) → tableSize (g i) ≤ r.size

omit [DecidableEq ι] in
/-- A demand access, if at most one cache uses the table. -/
theorem Fits.pick (hg : ∀ i, TypeOk (g i)) (hone : ∀ i j, UsesTable (g i) → UsesTable (g j) → i = j)
    (hr : Fits g r) (d : Demand ι) :
    ∃ r' p, pick (g d.cache) d.pc d.addr r = .ok (r', p) ∧ Fits g r' := by
  by_cases hu : UsesTable (g d.cache)
  · obtain ⟨r', p, he, hs⟩ := pick_of_usesTable hu (hg _) (fun hi => hr hi _ hu) d.pc d.addr
    exact ⟨r', p, he, fun _ i hi => hone i _ hi hu ▸ hs⟩
  · obtain ⟨p, he⟩ := pick_of_not_usesTable hu d.pc d.addr
    exact ⟨r, p, he r, hr⟩

omit [DecidableEq ι] in
/-- No demand access fails. -/
theorem picks_ok (hg : ∀ i, TypeOk (g i)) (hone : ∀ i j, UsesTable (g i) → UsesTable (g j) → i = j)
    (ds : List (Demand ι)) {r : Rpt} (hr : Fits g r) : ∃ ps, picks g ds r = .ok ps := by
  induction ds generalizing r with
  | nil => exact ⟨[], rfl⟩
  | cons d ds ih =>
      obtain ⟨r', p, he, hr'⟩ := hr.pick hg hone d
      obtain ⟨ps, hps⟩ := ih hr'
      refine ⟨(d.cache, p) :: ps, ?_⟩
      unfold picks
      rw [he]
      change (picks g ds r' >>= _) = _
      rw [hps]
      rfl

/-- The accesses to the other caches do not matter. -/
theorem picks_filter (hg : ∀ i, TypeOk (g i))
    (hone : ∀ i j, UsesTable (g i) → UsesTable (g j) → i = j)
    (i : ι) {ds : List (Demand ι)} {ps : List (ι × Option Addr)} {r r' : Rpt} (hr : Fits g r)
    (he : UsesTable (g i) → r' = r) (h : picks g ds r = .ok ps) :
    picks g (ds.filter fun d => decide (d.cache = i)) r' =
      .ok (ps.filter fun p => decide (p.1 = i)) := by
  induction ds generalizing ps r r' with
  | nil =>
      cases h
      rfl
  | cons d ds ih =>
      obtain ⟨r₁, p, hp, hr₁⟩ := hr.pick hg hone d
      unfold picks at h
      rw [hp] at h
      obtain ⟨ps', hps, h⟩ := (bind_ok (x := picks g ds r₁)).1 h
      cases h
      by_cases hd : d.cache = i
      · -- an access to the cache itself: it finds the same table, or does not look at it
        obtain ⟨r₁', hp', he'⟩ : ∃ r₁', CacheSim.pick (g d.cache) d.pc d.addr r' = .ok (r₁', p) ∧
            (UsesTable (g i) → r₁' = r₁) := by
          by_cases hu : UsesTable (g i)
          · exact ⟨r₁, he hu ▸ hp, fun _ => rfl⟩
          · rw [← hd] at hu
            obtain ⟨q, hq⟩ := pick_of_not_usesTable hu d.pc d.addr
            rw [hq r] at hp
            cases hp
            exact ⟨r', hq r', fun hi => absurd (hd ▸ hi) hu⟩
        have hrest := ih hr₁ he' hps
        rw [List.filter_cons_of_pos (by simpa using hd),
          List.filter_cons_of_pos (by simpa using hd)]
        unfold picks
        rw [hp']
        change (picks g _ r₁' >>= _) = _
        rw [hrest]
        rfl
      · -- an access to another cache: it does not use the table if this cache does
        have he' : UsesTable (g i) → r' = r₁ := by
          intro hu
          have hnot : ¬ UsesTable (g d.cache) := fun hu' => hd (hone _ _ hu' hu)
          obtain ⟨q, hq⟩ := pick_of_not_usesTable hnot d.pc d.addr
          rw [hq r] at hp
          cases hp
          exact he hu
        rw [List.filter_cons_of_neg (by simpa using hd),
          List.filter_cons_of_neg (by simpa using hd)]
        exact ih hr₁ he' hps

omit [DecidableEq ι] in
/-- The writer of an entry is a cache that uses the table. -/
theorem usesTable_writer {k : ℕ} {i : ι} (h : writer g ds k = some i) : UsesTable (g i) := by
  obtain ⟨d, hd, rfl⟩ := Option.map_eq_some_iff.1 h
  have hmem := List.mem_of_getLast? hd
  exact (of_decide_eq_true (List.mem_filter.1 hmem).2).1

/-- **The table is private** to each cache, for all interleavings of demand accesses, exactly if no
two caches use it. -/
theorem private_iff (hg : ∀ i, TypeOk (g i)) :
    Private g ↔ ∀ i j, UsesTable (g i) → UsesTable (g j) → i = j := by
  constructor
  · intro h i j hi hj
    refine h.owned [⟨i, 0, 0⟩] ⟨j, 0, 0⟩ i hj ?_
    have hzero : ∀ k, rptIndex k 0 = 0 := by
      intro k
      unfold rptIndex
      simp
    unfold writer Demand.index
    simp only [hzero, List.filter_cons, hi, and_self, decide_true, if_true, List.filter_nil]
    rfl
  · intro hone
    have hunused : Fits g Rpt.unused := fun h => by cases h
    refine ⟨fun ds he => ?_, fun ds d i hd hw => hone i _ (usesTable_writer hw) hd,
      fun ds ps hps i => picks_filter hg hone i hunused (fun _ => rfl) hps⟩
    obtain ⟨ps, hps⟩ := picks_ok hg hone ds hunused
    rw [hps] at he
    cases he

/-- One cache with a stride prefetcher, and one with a next-line prefetcher. -/
theorem private_iff_small : Private fun b : Bool => Params.small .LRU (if b then 4 else 1) :=
  (private_iff fun b => .inr (by
    cases b
    · exact ⟨0, by decide, rfl⟩
    · exact ⟨2, by decide, rfl⟩)).2 (by decide)

/-- **Two caches that use the table**: the table that one of them has allocated is too small for the
other one; and the addresses that are picked for one of them change with the accesses to the other
one. -/
theorem shared_table :
    picks (fun b : Bool => Params.small .LRU (if b then 4 else 2))
      [⟨true, 800, 800⟩, ⟨false, 800, 0⟩]
      Rpt.unused = .error .outOfBounds ∧
    picks (fun _ : Bool => Params.small .LRU 4) [⟨true, 0, 8⟩, ⟨true, 0, 16⟩] Rpt.unused =
      .ok [(true, some 16), (true, some 24)] ∧
    picks (fun _ : Bool => Params.small .LRU 4) [⟨true, 0, 8⟩, ⟨false, 0, 100⟩, ⟨true, 0, 16⟩]
      Rpt.unused = .ok [(true, some 16), (false, none), (true, none)] ∧
    ¬ Private fun b : Bool => Params.small .LRU (if b then 4 else 2) := by
  have hbounds : picks (fun b : Bool => Params.small .LRU (if b then 4 else 2))
      [⟨true, 800, 800⟩, ⟨false, 800, 0⟩] Rpt.unused = .error .outOfBounds := by decide +kernel
  exact ⟨hbounds, by decide +kernel, by decide +kernel, fun h => h.inBounds _ hbounds⟩

end Caches

end CacheSim
