/-
**The lists of a set, and the last block.**

What the linked lists of a cache are good for depends on two facts: in every state that the module
can reach they are lists of the blocks they should contain, and the short path for the last block
that was hit does what a search would have done.

The first one holds without exception.  Of the second one there is a single exception as long as the
shift for the tag is defined: the module remembers the last block by its address and a pointer, and
when there is no such block the address is 0, which is also the address of a block.  An access to
this block then uses the null pointer.  If the shift is not defined, the tag of an address need not
be the one of its block, and the last block need not have it.

Main definitions:

* `CacheSim.SetOk` — the lists of a set are what they should be;
* `CacheSim.FastAgrees` — the short path does what a search would have done.

Main results:

* `CacheSim.run_setOk` — **the lists of all sets are in order in every state**, and no assertion
fails; * `CacheSim.run_fatal` — **a message is about an access of the caller**, not about a
prefetch; * `CacheSim.run_admitted` — accesses inside of a block, and not of the highest one, give
none; * `CacheSim.fastAgrees_iff` — **the short path agrees with the search**, if the shift for the
tag is   defined, exactly if the address is not in block 0 or there is a last block; *
`CacheSim.fast_null` — it does not for the first access to a new cache, at address 0; *
`CacheSim.fast_undefined` — nor, on a machine that takes shifts modulo 32, for an access to a cache
the sets and blocks of which take up all bits of an address.
-/

import ArchLab.CacheAdmission

set_option relaxedAutoImplicit false
set_option autoImplicit false

namespace CacheSim

open Refine

variable {ε M : Type} {g : Params} {fn : Handler ε M}

/-! ### The lists of a set -/

/-- **The lists of a set are what they should be**: the way list is the same list of all blocks in
both directions; each block is in the chain of its tag, and only there; no two valid blocks have the
same tag; and the two ways to search for a block agree. -/
structure SetOk (g : Params) (s : CacheSet) : Prop where
  ways : ∃ l : List ℕ, l.Perm (List.range g.assoc) ∧ Links.Chain s.wayNext s.wayHead l ∧
    Links.Chain s.wayPrev s.wayTail l.reverse
  chains : g.hsize ≠ 0 → ∃ ch : ℕ → List ℕ, ∀ k < g.hsize,
    Links.Chain s.hashNext (s.hash k) (ch k) ∧
    (ch k).Nodup ∧ ∀ b, b ∈ ch k ↔ b < g.assoc ∧ g.hash (s.line b).tag = k
  bucket : g.hsize ≠ 0 → ∀ b, g.hash (s.line b).tag < g.hsize
  unique : ∀ a b, a < g.assoc → b < g.assoc → (s.line a).valid = true → (s.line b).valid = true →
    (s.line a).tag = (s.line b).tag → a = b
  search : g.hsize ≠ 0 → ∀ tag, ∃ found, hashFind g s tag = some found ∧
    wayFind g s tag = some found

theorem Rep.setOk {s : CacheSet} {v : WaySet} (h : Rep g s v) : SetOk g s where
  ways := ⟨v.order, h.ok.perm, h.ways.forward, h.ways.backward⟩
  chains hh := by
    obtain ⟨ch, hch⟩ := h.hashed hh
    refine ⟨ch, fun k hk => ⟨(hch k hk).1, (hch k hk).2.1, fun b => ?_⟩⟩
    rw [(hch k hk).2.2 b]
    exact ⟨fun ⟨h₁, _, h₂⟩ => ⟨h₁, h₂⟩, fun ⟨h₁, h₂⟩ => ⟨h₁, trivial, h₂⟩⟩
  bucket hh b := g.hash_lt hh _
  unique := by
    rw [h.line]
    exact h.ok.unique
  search hh tag := ⟨v.find tag, h.hashFind hh tag, h.wayFind tag⟩

/-! ### Failures -/

/-- The failures that do not come from the lists. -/
def Tame (e : Fault ε) : Prop := e ≠ .assertion ∧ e ≠ .loop

/-- The failures that come neither from the lists nor from the checks of an access are of some
kind. -/
structure Covers (P : Fault ε → Prop) : Prop where
  null : P .null
  rpt : ∀ e, P (.rpt e)
  lower : ∀ e, P (.lower e)

theorem Covers.tame : Covers (ε := ε) Tame :=
  ⟨⟨nofun, nofun⟩, fun _ => ⟨nofun, nofun⟩, fun _ => ⟨nofun, nofun⟩⟩

/-- The checks of an access fail with a message. -/
theorem fails_checkAccess {P : Fault ε → Prop} (hP : ∀ msg, P (.fatal msg)) (addr nbytes : Addr) :
    Fails P (checkAccess g addr nbytes) := by
  unfold checkAccess
  split
  · exact Fails.error (hP _)
  · split
    · exact Fails.error (hP _)
    · exact Fails.ok

section Failures

variable {P : Fault ε → Prop} (hP : Covers P) {w : Shared × M} {c : Ways} {now lat : ℤ}
  {st : Stats} {line : Line} {i : ℕ}

include hP

theorem fails_lower {α : Type} (x : Except ε α) : Fails P (lower x) := by
  cases x with
  | ok a => exact Fails.ok
  | error e => exact Fails.error (hP.lower e)

theorem fails_deref {α : Type} (x : Option α) : Fails P (deref (ε := ε) x) := by
  cases x with
  | some a => exact Fails.ok
  | none => exact Fails.error hP.null

theorem fails_invalidate : Fails P (invalidate g fn now i line lat st w) := by
  unfold invalidate
  simp only
  split
  · exact (fails_lower hP _).bind fun _ _ => Fails.ok
  · exact Fails.ok

theorem fails_refill {cmd : MemCmd} {addr : Addr} {prefetch : Bool} {busFree : ℤ} :
    Fails P (refill g fn cmd addr now prefetch line st busFree w) := by
  have hback : Fails P (writeBack g fn now (g.set addr) line st busFree w) := by
    unfold writeBack
    split
    · simp only
      split
      · exact (fails_lower hP _).bind fun _ _ => Fails.ok
      · exact Fails.ok
    · exact Fails.ok
  exact hback.bind fun _ _ => (fails_lower hP _).bind fun _ _ => Fails.ok

theorem fails_access {addr nbytes : Addr} (hcheck : Fails P (checkAccess g addr nbytes))
    (cmd : MemCmd) (now : ℤ) (prefetch : Bool) :
    Fails P (c.access g fn cmd addr nbytes now prefetch w) := by
  have hsel : ∀ v : WaySet, Fails P (Ways.selectRepl (ε := ε) g v w) := by
    intro v
    unfold Ways.selectRepl
    split
    · exact (fails_deref hP _).bind fun _ _ => Fails.ok
    · exact (fails_deref hP _).bind fun _ _ => Fails.ok
    · exact Fails.ok
  refine hcheck.bind fun _ _ => ?_
  split
  · exact Fails.ok
  · exact (hsel _).bind fun _ _ => (fails_refill hP).bind fun _ _ => Fails.ok

theorem fails_flush : Fails P (c.flush g fn now w) := by
  have hblk : ∀ i acc b, Fails P (Ways.flushBlk g fn now i acc b) := by
    rintro i ⟨v, lat, st, w⟩ b
    refine Fails.bind ?_ fun _ _ => Fails.ok
    unfold flushLine
    split
    · exact fails_invalidate hP
    · exact Fails.ok
  refine Fails.bind (Fails.foldlM ?_) fun _ _ => Fails.ok
  rintro ⟨c, lat, w⟩ i
  exact (Fails.foldlM (hblk i)).bind fun _ _ => Fails.ok

theorem fails_flushAddr {addr : Addr} : Fails P (c.flushAddr g fn addr now w) := by
  unfold Ways.flushAddr
  simp only
  split
  · exact Fails.ok
  · exact (fails_invalidate hP).bind fun _ _ => Fails.ok

/-- A prefetch passes the checks, since it is for a whole block. -/
theorem fails_prefetch (p : Option Addr) :
    Fails P (prefetchMissing g (Ways.store g fn) p c w) := by
  cases p with
  | none => exact Fails.ok
  | some p =>
      have hcheck : Fails P (checkAccess g (g.tagset p) (BitVec.ofNat 32 g.bsize)) := by
        rw [checkAccess_block]
        exact Fails.ok
      change Fails P (if c.resident g p = true then _ else _)
      split
      · exact Fails.ok
      · exact (fails_access hP hcheck _ _ _).bind fun _ _ => Fails.ok

theorem fails_cacheAccess {cmd : MemCmd} {addr nbytes : Addr} {prefetch : Bool}
    (hcheck : Fails P (checkAccess g addr nbytes)) :
    Fails P (cacheAccess g (Ways.store g fn) cmd addr nbytes now prefetch c w) := by
  refine (fails_access hP hcheck _ _ _).bind ?_
  rintro ⟨e, c₁, w₁⟩ _
  cases prefetch with
  | true => exact Fails.ok
  | false =>
      refine Fails.bind ?_ fun _ _ => Fails.ok
      rw [generatePrefetch_eq]
      cases pick g w₁.1.pc addr w₁.1.rpt with
      | error e => exact Fails.error (hP.rpt e)
      | ok x => exact fails_prefetch hP x.2

/-- **The failures of a sequence of calls** are those of the checks of its accesses, and those that
come from outside of the cache. -/
theorem fails_run {ops : List Op} {c : Ways} {w : Shared × M}
    (hcheck : ∀ cmd addr nbytes now prefetch pc,
      Op.access cmd addr nbytes now prefetch pc ∈ ops → Fails P (checkAccess g addr nbytes)) :
    Fails P (run g (Ways.store g fn) ops c w) := by
  induction ops generalizing c w with
  | nil => exact Fails.ok
  | cons op ops ih =>
      refine Fails.bind ?_ fun _ _ => Fails.bind (ih ?_) fun _ _ => Fails.ok
      · cases op with
        | access cmd addr nbytes now prefetch pc =>
            exact (fails_cacheAccess hP (hcheck _ _ _ _ _ _ List.mem_cons_self)).bind
              fun _ _ => Fails.ok
        | flush now => exact (fails_flush hP).bind fun _ _ => Fails.ok
        | flushAddr addr now => exact (fails_flushAddr hP).bind fun _ _ => Fails.ok
      · intro cmd addr nbytes now prefetch pc hop
        exact hcheck cmd addr nbytes now prefetch pc (List.mem_cons_of_mem _ hop)

/-- The same for the cache with its links. -/
theorem fails_run_create {ops : List Op}
    (hcheck : ∀ cmd addr nbytes now prefetch pc,
      Op.access cmd addr nbytes now prefetch pc ∈ ops → Fails P (checkAccess g addr nbytes)) :
    Fails P (run g (store g fn) ops (Cache.create g) w) := by
  intro e he
  have hsim := run_sim g fn ops w
  rw [he] at hsim
  rcases hsim.error_cases with h | h
  · cases e with
    | null => exact hP.null
    | _ => cases h
  · exact fails_run hP hcheck e h

end Failures

/-- **The lists of all sets are in order** after every sequence of calls, and no sequence of calls
ends at an assertion or in a loop over a list. -/
theorem run_setOk (g : Params) (fn : Handler ε M) (ops : List Op) (w : Shared × M) :
    (∀ es cp w', run g (store g fn) ops (Cache.create g) w = .ok (es, cp, w') →
      ∀ i, SetOk g (cp.sets i)) ∧
    run g (store g fn) ops (Cache.create g) w ≠ .error .assertion ∧
    run g (store g fn) ops (Cache.create g) w ≠ .error .loop := by
  have htame : Fails Tame (run g (store g fn) ops (Cache.create g) w) :=
    fails_run_create Covers.tame fun _ addr nbytes _ _ _ _ =>
      fails_checkAccess (fun _ => ⟨nofun, nofun⟩) addr nbytes
  refine ⟨fun es cp w' hr i => ?_, fun he => (htame _ he).1 rfl, fun he => (htame _ he).2 rfl⟩
  obtain ⟨c, hrel⟩ := run_rel hr
  exact (hrel.sets i).setOk

/-- **A message is about an access of the caller**: if a sequence of calls ends with a message, the
checks of one of its accesses give this message.  A prefetch is never refused. -/
theorem run_fatal {ops : List Op} {w : Shared × M} {msg : String}
    (h : run g (store g fn) ops (Cache.create g) w = .error (.fatal msg)) :
    ∃ cmd addr nbytes now prefetch pc, Op.access cmd addr nbytes now prefetch pc ∈ ops ∧
      checkAccess (ε := ε) g addr nbytes = .error (.fatal msg) := by
  have hcovers : Covers fun e : Fault ε => ∀ msg, e = .fatal msg →
      ∃ cmd addr nbytes now prefetch pc, Op.access cmd addr nbytes now prefetch pc ∈ ops ∧
        checkAccess (ε := ε) g addr nbytes = .error (.fatal msg) :=
    ⟨nofun, nofun, nofun⟩
  refine fails_run_create hcovers ?_ _ h msg rfl
  rintro cmd addr nbytes now prefetch pc hop _ he msg rfl
  exact ⟨cmd, addr, nbytes, now, prefetch, pc, hop, he⟩

/-- **A sequence of calls is not ended by a message** if its accesses are aligned, inside of a
block, and not inside of the highest one. -/
theorem run_admitted {ops : List Op} {w : Shared × M} {msg : String}
    (hops : ∀ cmd addr nbytes now prefetch pc, Op.access cmd addr nbytes now prefetch pc ∈ ops →
      nbytes.toNat.isPowerOfTwo ∧ nbytes.toNat ∣ addr.toNat ∧ g.Inside addr nbytes ∧
        g.blockEnd addr ≠ 2 ^ 32) :
    run g (store g fn) ops (Cache.create g) w ≠ .error (.fatal msg) := by
  intro h
  obtain ⟨cmd, addr, nbytes, now, prefetch, pc, hop, he⟩ := run_fatal h
  obtain ⟨hn, ha, hin, htop⟩ := hops _ _ _ _ _ _ hop
  rw [checkAccess_of_inside hn ha hin htop] at he
  cases he

/-! ### The last block -/

section Last

variable {cmd : MemCmd} {addr nbytes : Addr} {now : ℤ} {prefetch : Bool} {cp : Cache}
  {w : Shared × M}

/-- **The short path does what a search would have done**: there is a last block, it is the valid
block with the tag in the set that a search finds, under LRU it is at the head of its list already,
and the result of the access and the cache afterwards are those of the search. -/
def FastAgrees (g : Params) (fn : Handler ε M) (cmd : MemCmd) (addr nbytes : Addr) (now : ℤ)
    (prefetch : Bool) (cp : Cache) (w : Shared × M) : Prop :=
  ∃ b, cp.lastBlk = some (g.set addr, b) ∧
    ((cp.sets (g.set addr)).line b).tag = g.tag addr ∧
      ((cp.sets (g.set addr)).line b).valid = true ∧
    findBlk (ε := ε) g (cp.sets (g.set addr)) (g.tag addr) = .ok (some b) ∧
    (g.policy = .LRU → (cp.sets (g.set addr)).wayHead = some b) ∧
    cp.access g fn cmd addr nbytes now prefetch w = cp.slowAccess g fn cmd addr now prefetch w

/-- The short path, if there is a last block. -/
theorem Rel.fastAgrees {c : Ways} (h : Rel g cp c) (hdef : g.tagShift < 32)
    (hc : checkAccess (ε := ε) g addr nbytes = .ok ())
    (ht : g.tagset addr = cp.lastTagset) {i b : ℕ} (hb : cp.lastBlk = some (i, b)) :
    FastAgrees g fn cmd addr nbytes now prefetch cp w := by
  obtain ⟨rfl, hf, hhead, hfast⟩ := fastHit_spec (ε := ε) h ht hb cmd prefetch
  have hset := h.sets (g.set addr)
  have hhits := h.ok.hits hf
  have hfind : findBlk (ε := ε) g (cp.sets (g.set addr)) (g.tag addr) = .ok (some b) := by
    rw [hset.findBlk, hhits.find_eq hset.ok hdef]
  refine ⟨b, hb, ?_, ?_, hfind, fun hp => ?_, ?_⟩
  · rw [hset.line]
    exact hhits.tag hdef
  · rw [hset.line]
    exact hhits.valid
  · rw [hset.ways.head]
    exact hhead hp
  · unfold Cache.access Cache.slowAccess
    rw [hc, hfind]
    change (if _ then _ else _) = (cp.slowHit g cmd addr prefetch b >>= _)
    rw [if_pos ht, hb, hfast]
    rfl

/-- **The short path agrees with the search**, if the shift for the tag is defined, in every state
that can be reached and for every access that takes it, exactly if the address is not in block 0 or
there is a last block. -/
theorem fastAgrees_iff (hdef : g.tagShift < 32) (ops : List Op) {w₀ w₁ : Shared × M}
    {es : List Event}
    (hr : run g (store g fn) ops (Cache.create g) w₀ = .ok (es, cp, w₁))
    (hc : checkAccess (ε := ε) g addr nbytes = .ok ()) (ht : g.tagset addr = cp.lastTagset) :
    FastAgrees g fn cmd addr nbytes now prefetch cp w ↔ g.tagset addr ≠ 0 ∨ cp.lastBlk ≠ none := by
  obtain ⟨c, hrel⟩ := run_rel hr
  constructor
  · rintro ⟨b, hb, _⟩
    rw [hb]
    exact .inr nofun
  · intro h
    cases hb : cp.lastBlk with
    | some blk => exact hrel.fastAgrees hdef hc ht hb
    | none =>
        have hlast : cp.lastTagset = 0 := by
          have hblk := hrel.lastBlk
          rw [hb] at hblk
          rw [hrel.lastTagset, Option.map_eq_none_iff.1 hblk.symm]
          rfl
        rcases h with h | h
        · exact absurd (ht.trans hlast) h
        · exact absurd hb h

/-- The third access to a block takes the short path. -/
theorem fastAgrees_third : ∃ es cp w₁,
    run (.small .LRU 0) (store (.small .LRU 0) dl2AccessFn)
      [.access .Read 8 4 0 false 0, .access .Write 8 4 1 false 0] (Cache.create (.small .LRU 0))
      (.start, ()) = .ok (es, cp, w₁) ∧
    FastAgrees (.small .LRU 0) dl2AccessFn .Read 12 4 2 false cp w₁ := by
  refine ⟨_, _, _, rfl, (fastAgrees_iff (by decide)
    [.access .Read 8 4 0 false 0, .access .Write 8 4 1 false 0] rfl rfl rfl).2 (.inl ?_)⟩
  decide

/-- **The first access to a new cache**, at address 0: the last block is the null pointer, while a
search would not have found a block. -/
theorem fast_null :
    checkAccess (ε := Empty) (.small .LRU 0) 0 4 = .ok () ∧
    (Params.small .LRU 0).tagset 0 = (Cache.create (.small .LRU 0)).lastTagset ∧
    ¬ FastAgrees (.small .LRU 0) dl2AccessFn .Read 0 4 0 false (Cache.create (.small .LRU 0))
      (.start, ()) ∧
    (Cache.create (.small .LRU 0)).access (.small .LRU 0) dl2AccessFn .Read 0 4 0 false
      (.start, ()) =
      .error .null ∧
    findBlk (ε := Empty) (.small .LRU 0) ((Cache.create (.small .LRU 0)).sets 0) 0 = .ok none := by
  refine ⟨rfl, rfl, ?_, rfl, rfl⟩
  rintro ⟨b, hb, _⟩
  cases hb

/-- **An undefined shift**: the second of two reads of a block takes the short path of the last
block, which a search for its address would not have found. -/
theorem fast_undefined : ∃ es cp w₁,
    run (.wide 0) (store (.wide 0) dl2AccessFn)
      [.access .Read 0x40001000 4 0 false 0, .access .Read 0x40001000 4 1 false 0]
      (Cache.create (.wide 0)) (.start, ()) = .ok (es, cp, w₁) ∧
    checkAccess (ε := Empty) (.wide 0) 0x40002000 4 = .ok () ∧
    (Params.wide 0).tagset 0x40002000 = cp.lastTagset ∧ cp.lastBlk = some (1, 0) ∧
    findBlk (ε := Empty) (.wide 0) (cp.sets 1) ((Params.wide 0).tag 0x40002000) = .ok none :=
  ⟨_, _, _, rfl, rfl, rfl, rfl, rfl⟩

end Last

end CacheSim
