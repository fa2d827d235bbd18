/-
**The cache module.**

A cache consists of sets of blocks.  The blocks of a set are linked in both directions, in the order
in which they are to be replaced (`way_next`, `way_prev`), and in large sets also in the chains of a
hash table over their tags (`hash_next`); a block that has been invalidated stays in both, with its
old tag.  The block that was hit last is remembered, and an access to it takes a shorter path.  A
miss replaces a block, which is written back first if necessary, and calls the miss handler
`blk_access_fn`; a demand access may also trigger a prefetch, which is an access of its own.

This module is a model of `cache.c`, function by function.  A block is named by its number in its
set.  The miss handler is any function on a state of its own; what the caches of a program have in
common (the reference prediction table, the program counter, the random numbers) is passed along.
Latencies and cycle numbers are integers.  The contents of the blocks are left out: all caches of
the simulators are created without data (`balloc` is `FALSE`), and the user data is not read.

Main definitions:

* `CacheSim.Line`, `CacheSim.CacheSet`, `CacheSim.Cache` — the structures of `cache.h`;
* `CacheSim.unlinkHtabEnt`, `CacheSim.linkHtabEnt`, `CacheSim.updateWayList` — the linked lists;
* `CacheSim.cacheCreate`, `CacheSim.Cache.probe`, `CacheSim.cacheFlush`,
  `CacheSim.cacheFlushAddr` — the other functions of `cache.c`;
* `CacheSim.Cache.access` — `cache_access` up to the generation of a prefetch;
* `CacheSim.generatePrefetch`, `CacheSim.cacheAccess` — the rest of it;
* `CacheSim.run` — sequences of calls;
* `CacheSim.dl1AccessFn`, `CacheSim.dl2AccessFn` — the miss handlers of two levels, from
  `sim-cache.c`.
-/

import ArchLab.Links
import ArchLab.Rpt
import Mathlib.Data.Int.Order.Basic

set_option relaxedAutoImplicit false
set_option autoImplicit false

namespace CacheSim

/-! ### Structures -/

/-- The command of an access. -/
inductive MemCmd where
  | Read | Write
  deriving DecidableEq

/-- Ways in which the program ends: with a message, at a failed assertion, at a null pointer, in a
list without end, at the reference prediction table, or in the miss handler. -/
inductive Fault (ε : Type) where
  | fatal (msg : String)
  | assertion
  | null
  | loop
  | rpt (e : RptFault)
  | lower (e : ε)
  deriving DecidableEq

/-- What a block holds: its tag, the bits `CACHE_BLK_VALID` and `CACHE_BLK_DIRTY` of its status, and
the time when it is accessible. -/
structure Line where
  tag : Addr := 0
  valid : Bool := false
  dirty : Bool := false
  ready : ℤ := 0
  deriving DecidableEq

/-- A set: the chains of its hash table, the two ends of its way list, and its blocks.  The fields
of a block are functions of its number: `way_next`, `way_prev`, `hash_next`, and what it holds. -/
structure CacheSet where
  hash : ℕ → Option ℕ
  wayHead : Option ℕ
  wayTail : Option ℕ
  wayNext : ℕ → Option ℕ
  wayPrev : ℕ → Option ℕ
  hashNext : ℕ → Option ℕ
  line : ℕ → Line

/-- The statistics of a cache. -/
structure Stats where
  hits : ℕ := 0
  misses : ℕ := 0
  replacements : ℕ := 0
  writebacks : ℕ := 0
  invalidations : ℕ := 0
  readHits : ℕ := 0
  readMisses : ℕ := 0
  prefetchHits : ℕ := 0
  prefetchMisses : ℕ := 0
  deriving DecidableEq

/-- A cache.  The last block that was hit is named by its set and its number in it. -/
structure Cache where
  busFree : ℤ
  stats : Stats
  lastTagset : Addr
  lastBlk : Option (ℕ × ℕ)
  sets : ℕ → CacheSet

/-- What all caches of a program use: the reference prediction table, the program counter, and the
random numbers to come. -/
structure Shared where
  rpt : Rpt
  pc : Addr
  rand : ℕ → ℕ

/-- A miss handler `blk_access_fn`, on a state of its own: the command, the address and size of the
block, the time, whether it is for a prefetch; and the latency. -/
abbrev Handler (ε M : Type) : Type :=
  MemCmd → Addr → ℕ → ℤ → Bool → Shared × M → Except ε (ℤ × Shared × M)

/-- `BOUND_POS`. -/
def boundPos (n : ℤ) : ℤ := min (max 0 n) 2147483647

section Basics

variable {ε α : Type}

/-- The failure of the miss handler is one of the cache. -/
def lower : Except ε α → Except (Fault ε) α
  | .ok a => .ok a
  | .error e => .error (.lower e)

/-- The result of a loop over a list. -/
def ended : Option α → Except (Fault ε) α
  | some a => .ok a
  | none => .error .loop

/-- A pointer is followed. -/
def deref : Option α → Except (Fault ε) α
  | some a => .ok a
  | none => .error .null

end Basics

namespace Stats

/-- The accounting of a miss. -/
def miss (cmd : MemCmd) (prefetch : Bool) (st : Stats) : Stats :=
  if prefetch then { st with prefetchMisses := st.prefetchMisses + 1 }
  else { st with
    misses := st.misses + 1
    readMisses := if cmd = .Read then st.readMisses + 1 else st.readMisses }

/-- The accounting of a hit. -/
def hit (cmd : MemCmd) (prefetch : Bool) (st : Stats) : Stats :=
  if prefetch then { st with prefetchHits := st.prefetchHits + 1 }
  else { st with
    hits := st.hits + 1
    readHits := if cmd = .Read then st.readHits + 1 else st.readHits }

end Stats

/-! ### The links of a set -/

namespace CacheSet

def setWayNext (s : CacheSet) (b : ℕ) (v : Option ℕ) : CacheSet :=
  { s with wayNext := Function.update s.wayNext b v }

def setWayPrev (s : CacheSet) (b : ℕ) (v : Option ℕ) : CacheSet :=
  { s with wayPrev := Function.update s.wayPrev b v }

def setHashNext (s : CacheSet) (b : ℕ) (v : Option ℕ) : CacheSet :=
  { s with hashNext := Function.update s.hashNext b v }

def setHash (s : CacheSet) (k : ℕ) (v : Option ℕ) : CacheSet :=
  { s with hash := Function.update s.hash k v }

/-- Write to what a block holds. -/
def setLine (s : CacheSet) (b : ℕ) (line : Line) : CacheSet :=
  { s with line := Function.update s.line b line }

end CacheSet

section Sets

variable {ε : Type} (g : Params)

/-- Unlink a block from the hash table bucket chain. -/
def unlinkHtabEnt (s : CacheSet) (blk : ℕ) : Except (Fault ε) CacheSet := do
  let index := g.hash (s.line blk).tag
  match ← ended (Links.before s.hashNext blk g.assoc none (s.hash index)) with
  | none => throw .assertion
  | some none => return (s.setHash index (s.hashNext blk)).setHashNext blk none
  | some (some prev) => return (s.setHashNext prev (s.hashNext blk)).setHashNext blk none

/-- Insert a block onto the head of the hash table bucket chain. -/
def linkHtabEnt (s : CacheSet) (blk : ℕ) : CacheSet :=
  let index := g.hash (s.line blk).tag
  (s.setHashNext blk (s.hash index)).setHash index (some blk)

/-- Remove a block from the hash bucket chain, if hash exists. -/
def unlinkHash (s : CacheSet) (blk : ℕ) : Except (Fault ε) CacheSet :=
  if g.hsize ≠ 0 then unlinkHtabEnt g s blk else .ok s

/-- Link a block back into the hash table, if hash exists. -/
def linkHash (s : CacheSet) (blk : ℕ) : CacheSet :=
  if g.hsize ≠ 0 then linkHtabEnt g s blk else s

/-- Where to insert a block onto the ordered way chain. -/
inductive ListLoc where
  | Head | Tail
  deriving DecidableEq

/-- Link a block back into the way list, at one of its ends. -/
def linkWay (s : CacheSet) (blk : ℕ) : ListLoc → Except (Fault ε) CacheSet
  | .Head => do
      let head ← deref s.wayHead
      let s := (s.setWayNext blk s.wayHead).setWayPrev blk none
      return { s.setWayPrev head (some blk) with wayHead := some blk }
  | .Tail => do
      let tail ← deref s.wayTail
      let s := (s.setWayPrev blk s.wayTail).setWayNext blk none
      return { s.setWayNext tail (some blk) with wayTail := some blk }

/-- Move a block of the way list to one of its ends. -/
def updateWayList (s : CacheSet) (blk : ℕ) (loc : ListLoc) : Except (Fault ε) CacheSet :=
  match s.wayPrev blk, s.wayNext blk with
  | none, none =>
      -- only one entry in list (direct-mapped), no action
      if s.wayHead = some blk ∧ s.wayTail = some blk then .ok s else .error .assertion
  | none, some next =>
      if s.wayHead = some blk ∧ s.wayTail ≠ some blk then
        if loc = .Head then .ok s
        else linkWay ({ s with wayHead := some next }.setWayPrev next none) blk loc
      else .error .assertion
  | some prev, none =>
      if s.wayHead ≠ some blk ∧ s.wayTail = some blk then
        if loc = .Tail then .ok s
        else linkWay ({ s with wayTail := some prev }.setWayNext prev none) blk loc
      else .error .assertion
  | some prev, some next =>
      if s.wayHead ≠ some blk ∧ s.wayTail ≠ some blk then
        linkWay ((s.setWayNext prev (some next)).setWayPrev next (some prev)) blk loc
      else .error .assertion

/-- A block is valid and has a tag. -/
def CacheSet.holds (s : CacheSet) (tag : Addr) (b : ℕ) : Bool :=
  decide ((s.line b).tag = tag ∧ (s.line b).valid = true)

/-- The search for a valid block with a tag in its chain of the hash table. -/
def hashFind (s : CacheSet) (tag : Addr) : Option (Option ℕ) :=
  Links.find s.hashNext (s.holds tag) g.assoc (s.hash (g.hash tag))

/-- The search for a valid block with a tag along the way list. -/
def wayFind (s : CacheSet) (tag : Addr) : Option (Option ℕ) :=
  Links.find s.wayNext (s.holds tag) g.assoc s.wayHead

/-- The search for a valid block with a tag: through the hash table if there is one, and along the
way list otherwise. -/
def findBlk (s : CacheSet) (tag : Addr) : Except (Fault ε) (Option ℕ) :=
  if g.hsize ≠ 0 then ended (hashFind g s tag) else ended (wayFind g s tag)

/-- Link one more block into a new set, at the heads of its lists. -/
def linkBlk (s : CacheSet) (blk : ℕ) : CacheSet :=
  let s := s.setLine blk {}
  let s := linkHash g s blk
  let s := (s.setWayNext blk s.wayHead).setWayPrev blk none
  let s := match s.wayHead with
    | some head => s.setWayPrev head (some blk)
    | none => s
  { s with
    wayHead := some blk
    wayTail := if s.wayTail = none then some blk else s.wayTail }

/-- A set before its blocks are linked. -/
def CacheSet.unlinked : CacheSet :=
  ⟨fun _ => none, none, none, fun _ => none, fun _ => none, fun _ => none, fun _ => {}⟩

/-- A set of a new cache. -/
def CacheSet.create : CacheSet := (List.range g.assoc).foldl (linkBlk g) CacheSet.unlinked

end Sets

/-! ### Creation -/

/-- A new cache. -/
def Cache.create (g : Params) : Cache := ⟨0, {}, 0, none, fun _ => CacheSet.create g⟩

/-- The power of two that has passed the checks of `cache_create`. -/
theorem isPowerOfTwo_of_check {n : ℤ} (hpos : ¬ n ≤ 0) (h : n.toNat &&& (n.toNat - 1) = 0) :
    n.toNat.isPowerOfTwo :=
  (Nat.and_sub_one_eq_zero_iff_isPowerOfTwo (by omega)).1 h

/-- Create a cache, if its parameters pass the checks; the arguments are of type `int`.  Whether the
shift for the tag is defined is not checked. -/
def cacheCreate (undef : Undef) (nsets bsize usize assoc : ℤ) (hnsets : nsets < 2 ^ 31)
    (hbsize : bsize < 2 ^ 31) (hassoc : assoc < 2 ^ 31) (policy : CachePolicy) (hitLatency : ℕ)
    (prefetchType : ℤ) : Except String (Params × Cache) :=
  if h₁ : nsets ≤ 0 then .error s!"cache size (in sets) `{nsets}' must be non-zero"
  else if h₂ : nsets.toNat &&& (nsets.toNat - 1) ≠ 0 then
    .error s!"cache size (in sets) `{nsets}' is not a power of two"
  else if h₃ : bsize < 8 then
    .error s!"cache block size (in bytes) `{bsize}' must be 8 or greater"
  else if h₄ : bsize.toNat &&& (bsize.toNat - 1) ≠ 0 then
    .error s!"cache block size (in bytes) `{bsize}' must be a power of two"
  else if usize < 0 then
    .error s!"user data size (in bytes) `{usize}' must be a positive value"
  else if h₅ : assoc ≤ 0 then
    .error s!"cache associativity `{assoc}' must be non-zero and positive"
  else if h₆ : assoc.toNat &&& (assoc.toNat - 1) ≠ 0 then
    .error s!"cache associativity `{assoc}' must be a power of two"
  else if prefetchType < 0 then
    .error s!"prefetcher type `{prefetchType}'must be a positive number"
  else
    let g : Params :=
      { nsets := nsets.toNat, bsize := bsize.toNat, assoc := assoc.toNat, policy, hitLatency
        prefetchType := prefetchType.toNat, undef
        nsets_pow := isPowerOfTwo_of_check h₁ (not_not.1 h₂)
        nsets_lt := by omega
        bsize_pow := isPowerOfTwo_of_check (by omega) (not_not.1 h₄)
        bsize_ge := by omega
        bsize_lt := by omega
        assoc_pow := isPowerOfTwo_of_check h₅ (not_not.1 h₆)
        assoc_lt := by omega }
    .ok (g, Cache.create g)

/-! ### Accesses -/

/-- How an access has ended, when it comes to the generation of a prefetch: with a hit in a block,
or with a miss, the latency of which is known then, and the address of the replaced block. -/
inductive Ended where
  | hit (set blk : ℕ)
  | miss (lat : ℤ) (replAddr : Addr)

/-- Whether an access has been a hit. -/
def Ended.isHit : Ended → Bool
  | .hit _ _ => true
  | .miss _ _ => false

section Access

variable {ε M : Type} (g : Params) (fn : Handler ε M)

/-- The checks at the top of `cache_access`. -/
def checkAccess (addr nbytes : Addr) : Except (Fault ε) Unit :=
  if nbytes &&& (nbytes - 1) ≠ 0 ∨ addr &&& (nbytes - 1) ≠ 0 then
    .error (.fatal ("cache: access error: bad size or alignment, addr 0x" ++ addr.toHex))
  else if addr + nbytes > (addr &&& ~~~g.blkMask) + BitVec.ofNat 32 g.bsize then
    .error (.fatal ("cache: access error: access spans block, addr 0x" ++ addr.toHex))
  else .ok ()

/-- The work on the replaced block in a miss, and on the bus to the next level. -/
structure Refilled (M : Type) where
  stats : Stats
  busFree : ℤ
  lat : ℤ
  replAddr : Addr
  world : Shared × M

/-- Write back replaced block data. -/
def writeBack (now : ℤ) (set : ℕ) (repl : Line) (stats : Stats) (busFree : ℤ) (w : Shared × M) :
    Except (Fault ε) (Refilled M) :=
  if repl.valid then
    let replAddr := g.mkBaddr repl.tag set
    let lat := boundPos (repl.ready - now)
    let lat := lat + boundPos (busFree - (now + lat))
    let busFree := max busFree (now + lat) + 1
    let stats := { stats with replacements := stats.replacements + 1 }
    if repl.dirty then do
      let (l, w) ← lower (fn .Write (g.mkBaddr repl.tag set) g.bsize (now + lat) false w)
      return ⟨{ stats with writebacks := stats.writebacks + 1 }, busFree, lat + l, replAddr, w⟩
    else .ok ⟨stats, busFree, lat, replAddr, w⟩
  else .ok ⟨stats, busFree, 0, 0, w⟩

/-- What the block holds after a miss. -/
def filled (cmd : MemCmd) (addr : Addr) (ready : ℤ) : Line :=
  ⟨g.tag addr, true, decide (cmd = .Write), ready⟩

/-- The work on the replaced block in a miss: write it back, and read the new one. -/
def refill (cmd : MemCmd) (addr : Addr) (now : ℤ) (prefetch : Bool) (repl : Line) (stats : Stats)
    (busFree : ℤ) (w : Shared × M) : Except (Fault ε) (Line × Refilled M) := do
  let r ← writeBack g fn now (g.set addr) repl stats busFree w
  let (l, w) ← lower (fn .Read (g.baddr addr) g.bsize (now + r.lat) prefetch r.world)
  return (filled g cmd addr (now + (r.lat + l)), { r with lat := r.lat + l, world := w })

/-- The choice of a random block. -/
def myrand (w : Shared × M) : ℕ × Shared × M :=
  (w.1.rand 0, { w.1 with rand := fun n => w.1.rand (n + 1) }, w.2)

/-- Select the block to replace, and re-link it to the appropriate place in the way list. -/
def selectRepl (s : CacheSet) (w : Shared × M) : Except (Fault ε) (ℕ × CacheSet × Shared × M) :=
  match g.policy with
  | .LRU | .FIFO => do
      let repl ← deref s.wayTail
      let s ← updateWayList s repl .Head
      return (repl, s, w)
  | .Random =>
      let (r, w) := myrand w
      .ok (r &&& (g.assoc - 1), s, w)

/-- A line that has been hit. -/
def Line.touch (cmd : MemCmd) (l : Line) : Line :=
  { l with dirty := l.dirty || decide (cmd = .Write) }

namespace Cache

/-- Write to a set. -/
def setSet (cp : Cache) (i : ℕ) (s : CacheSet) : Cache :=
  { cp with sets := Function.update cp.sets i s }

/-- The miss handler of `cache_access`, up to the generation of a prefetch. -/
def missed (cmd : MemCmd) (addr : Addr) (now : ℤ) (prefetch : Bool) (cp : Cache) (w : Shared × M) :
    Except (Fault ε) (Ended × Cache × Shared × M) := do
  let set := g.set addr
  let (repl, s, w) ← selectRepl g (cp.sets set) w
  let s ← unlinkHash g s repl
  let (line, r) ← refill g fn cmd addr now prefetch (s.line repl)
    (cp.stats.miss cmd prefetch) cp.busFree w
  let s := linkHash g (s.setLine repl line) repl
  -- blow away the last block to hit
  return (.miss r.lat r.replAddr,
    { cp.setSet set s with
      busFree := r.busFree, stats := r.stats, lastTagset := 0, lastBlk := none },
    r.world)

/-- If LRU replacement and this is not the first element of list, reorder. -/
def reorder (s : CacheSet) (blk : ℕ) : Except (Fault ε) CacheSet :=
  if s.wayPrev blk ≠ none ∧ g.policy = .LRU then updateWayList s blk .Head else .ok s

/-- The slow hit handler of `cache_access`, up to the generation of a prefetch. -/
def slowHit (cmd : MemCmd) (addr : Addr) (prefetch : Bool) (blk : ℕ) (cp : Cache) :
    Except (Fault ε) Cache := do
  let set := g.set addr
  let s := cp.sets set
  let s := s.setLine blk ((s.line blk).touch cmd)
  let s ← reorder g s blk
  return { cp.setSet set s with
    stats := cp.stats.hit cmd prefetch
    lastTagset := g.tagset addr
    lastBlk := some (set, blk) }

/-- The fast hit handler of `cache_access`, up to the generation of a prefetch. -/
def fastHit (cmd : MemCmd) (addr : Addr) (prefetch : Bool) (blk : ℕ × ℕ) (cp : Cache) : Cache :=
  let s := cp.sets blk.1
  { cp.setSet blk.1 (s.setLine blk.2 ((s.line blk.2).touch cmd)) with
    stats := cp.stats.hit cmd prefetch
    lastTagset := g.tagset addr
    lastBlk := some blk }

/-- The search for a block, and what follows it. -/
def slowAccess (cmd : MemCmd) (addr : Addr) (now : ℤ) (prefetch : Bool) (cp : Cache)
    (w : Shared × M) :
    Except (Fault ε) (Ended × Cache × Shared × M) := do
  match ← findBlk g (cp.sets (g.set addr)) (g.tag addr) with
  | some blk =>
      let cp ← cp.slowHit g cmd addr prefetch blk
      return (.hit (g.set addr) blk, cp, w)
  | none => cp.missed g fn cmd addr now prefetch w

/-- `cache_access`, up to the generation of a prefetch. -/
def access (cmd : MemCmd) (addr nbytes : Addr) (now : ℤ) (prefetch : Bool) (cp : Cache)
    (w : Shared × M) : Except (Fault ε) (Ended × Cache × Shared × M) := do
  checkAccess g addr nbytes
  if g.tagset addr = cp.lastTagset then
    -- fast hit: access to same block
    let blk ← deref cp.lastBlk
    return (.hit blk.1 blk.2, cp.fastHit g cmd addr prefetch blk, w)
  else cp.slowAccess g fn cmd addr now prefetch w

/-- `cache_probe`: whether an access would hit. -/
def probe (cp : Cache) (addr : Addr) : Except (Fault ε) Bool := do
  let blk ← findBlk g (cp.sets (g.set addr)) (g.tag addr)
  return blk.isSome

end Cache

end Access

/-! ### Flushes -/

section Flush

variable {ε M : Type} (g : Params) (fn : Handler ε M)

/-- Invalidate a block, with the latency of writing it back. -/
def invalidate (now : ℤ) (set : ℕ) (line : Line) (lat : ℤ) (stats : Stats) (w : Shared × M) :
    Except (Fault ε) (Line × ℤ × Stats × Shared × M) :=
  let stats := { stats with invalidations := stats.invalidations + 1 }
  let line := { line with valid := false }
  if line.dirty then do
    let (l, w) ← lower (fn .Write (g.mkBaddr line.tag set) g.bsize (now + lat) false w)
    return (line, lat + l, { stats with writebacks := stats.writebacks + 1 }, w)
  else .ok (line, lat, stats, w)

/-- Invalidate a block if it is valid. -/
def flushLine (now : ℤ) (set : ℕ) (line : Line) (lat : ℤ) (stats : Stats) (w : Shared × M) :
    Except (Fault ε) (Line × ℤ × Stats × Shared × M) :=
  if line.valid then invalidate g fn now set line lat stats w else .ok (line, lat, stats, w)

/-- The loop of `cache_flush` over the way list of a set. -/
def flushWays (now : ℤ) (set : ℕ) : ℕ → Option ℕ → CacheSet → ℤ → Stats → Shared × M →
    Except (Fault ε) (CacheSet × ℤ × Stats × Shared × M)
  | _, none, s, lat, stats, w => .ok (s, lat, stats, w)
  | 0, some _, _, _, _, _ => .error .loop
  | fuel + 1, some blk, s, lat, stats, w => do
      let (line, lat, stats, w) ← flushLine g fn now set (s.line blk) lat stats w
      let s := s.setLine blk line
      flushWays now set fuel (s.wayNext blk) s lat stats w

/-- The loop of `cache_flush`, at one set. -/
def flushSet (now : ℤ) (acc : Cache × ℤ × Shared × M) (i : ℕ) :
    Except (Fault ε) (Cache × ℤ × Shared × M) := do
  let (cp, lat, w) := acc
  let s := cp.sets i
  let (s, lat, stats, w) ← flushWays g fn now i g.assoc s.wayHead s lat cp.stats w
  return ({ cp.setSet i s with stats }, lat, w)

/-- **Flush the entire cache**, with the latency of the operation. -/
def cacheFlush (now : ℤ) (cp : Cache) (w : Shared × M) :
    Except (Fault ε) (ℤ × Cache × Shared × M) := do
  -- blow away the last block to hit
  let cp := { cp with lastTagset := 0, lastBlk := none }
  let (cp, lat, w) ← (List.range g.nsets).foldlM (flushSet g fn now) (cp, (g.hitLatency : ℤ), w)
  return (lat, cp, w)

/-- **Flush the block** containing an address, with the latency of the operation. -/
def cacheFlushAddr (addr : Addr) (now : ℤ) (cp : Cache) (w : Shared × M) :
    Except (Fault ε) (ℤ × Cache × Shared × M) := do
  let set := g.set addr
  let s := cp.sets set
  match ← findBlk g s (g.tag addr) with
  | none => return (g.hitLatency, cp, w)
  | some blk =>
      let (line, lat, stats, w) ←
        invalidate g fn now set (s.line blk) g.hitLatency cp.stats w
      let s ← updateWayList (s.setLine blk line) blk .Tail
      return (lat, { cp.setSet set s with stats, lastTagset := 0, lastBlk := none }, w)

end Flush

/-! ### Prefetches -/

/-- The operations on a cache, whatever its states are: an access up to the generation of a
prefetch, the test for a block, the time when a block is ready, and the flushes.  What follows is
the same code for all of them. -/
structure Store (ε M C : Type) where
  access : MemCmd → Addr → Addr → ℤ → Bool → C → Shared × M →
    Except (Fault ε) (Ended × C × Shared × M)
  probe : C → Addr → Except (Fault ε) Bool
  ready : C → ℕ → ℕ → ℤ
  flush : ℤ → C → Shared × M → Except (Fault ε) (ℤ × C × Shared × M)
  flushAddr : Addr → ℤ → C → Shared × M → Except (Fault ε) (ℤ × C × Shared × M)

/-- The cache module. -/
def store {ε M : Type} (g : Params) (fn : Handler ε M) : Store ε M Cache where
  access := Cache.access g fn
  probe := Cache.probe g
  ready cp set blk := ((cp.sets set).line blk).ready
  flush := cacheFlush g fn
  flushAddr := cacheFlushAddr g fn

/-- A call of `cache_access`: the command, the address, whether it is a prefetch, and whether it is
a hit. -/
structure Accessed where
  cmd : MemCmd
  addr : Addr
  prefetch : Bool
  hit : Bool
  deriving DecidableEq

section Prefetch

variable {ε M C : Type} (g : Params) (S : Store ε M C)

/-- Access a block for a prefetch. -/
def prefetchBlock (addr : Addr) (c : C) (w : Shared × M) :
    Except (Fault ε) (List Accessed × C × Shared × M) := do
  let (e, c, w) ← S.access .Read addr (BitVec.ofNat 32 g.bsize) 0 true c w
  return ([⟨.Read, addr, true, e.isHit⟩], c, w)

/-- Next Line Prefetcher. -/
def nextLinePrefetcher (addr : Addr) (c : C) (w : Shared × M) :
    Except (Fault ε) (List Accessed × C × Shared × M) := do
  let addrNextLine := addr + BitVec.ofNat 32 g.bsize
  let tag := g.tagset addrNextLine
  if ← S.probe c addrNextLine then return ([], c, w)
  else prefetchBlock g S tag c w

/-- The failure of a prefetcher at its table is one of the cache. -/
def liftRpt {α : Type} : Except RptFault α → Except (Fault ε) α
  | .ok a => .ok a
  | .error e => .error (.rpt e)

/-- The prefetchers with a table of a size, which issue a prefetch in some states. -/
def rptPrefetcher (size : ℕ) (issues : RptState → Bool) (addr : Addr) (c : C) (w : Shared × M) :
    Except (Fault ε) (List Accessed × C × Shared × M) := do
  let (rpt, e) ← liftRpt (rptAccess size w.1.pc addr w.1.rpt)
  let w : Shared × M := ({ w.1 with rpt }, w.2)
  if issues e.state then
    let nextAddr := e.prevAddr + e.stride
    let nextAddr := nextAddr - nextAddr % BitVec.ofNat 32 g.bsize
    if ← S.probe c nextAddr then return ([], c, w)
    else prefetchBlock g S nextAddr c w
  else return ([], c, w)

/-- Open Ended Prefetcher. -/
def openEndedPrefetcher (addr : Addr) (c : C) (w : Shared × M) :
    Except (Fault ε) (List Accessed × C × Shared × M) :=
  rptPrefetcher g S 1024 (fun state => decide (state = .STEADY)) addr c w

/-- Stride Prefetcher. -/
def stridePrefetcher (addr : Addr) (c : C) (w : Shared × M) :
    Except (Fault ε) (List Accessed × C × Shared × M) :=
  rptPrefetcher g S g.prefetchType (fun state => decide (state ≠ .NOPRED)) addr c w

/-- A cache might generate a prefetch after a regular access. -/
def generatePrefetch (addr : Addr) (c : C) (w : Shared × M) :
    Except (Fault ε) (List Accessed × C × Shared × M) :=
  match g.prefetchType with
  | 0 => .ok ([], c, w)
  | 1 => nextLinePrefetcher g S addr c w
  | 2 => openEndedPrefetcher g S addr c w
  | _ => stridePrefetcher g S addr c w

/-- What `cache_access` returns: the latency and the address of the replaced block; and for the
statements about it the calls of `cache_access` that have been made, itself and a prefetch. -/
structure Result where
  lat : ℤ
  replAddr : Addr
  accessed : List Accessed

/-- The result of an access, from how it has ended and the time when its block is ready. -/
def Ended.result (e : Ended) (now : ℤ) (ready : ℕ → ℕ → ℤ) (accessed : List Accessed) : Result :=
  match e with
  | .hit set blk => ⟨max g.hitLatency (ready set blk - now), 0, accessed⟩
  | .miss lat replAddr => ⟨lat, replAddr, accessed⟩

/-- **Access a cache.** -/
def cacheAccess (cmd : MemCmd) (addr nbytes : Addr) (now : ℤ) (prefetch : Bool) (c : C)
    (w : Shared × M) : Except (Fault ε) (Result × C × Shared × M) := do
  let (e, c, w) ← S.access cmd addr nbytes now prefetch c w
  -- only regular cache accesses can generate a prefetch
  let (more, c, w) ← if prefetch then pure ([], c, w) else generatePrefetch g S addr c w
  return (e.result g now (S.ready c) (⟨cmd, addr, prefetch, e.isHit⟩ :: more), c, w)

end Prefetch

/-! ### Sequences of calls -/

/-- A call to the cache module.  An access is made at a program counter. -/
inductive Op where
  | access (cmd : MemCmd) (addr nbytes : Addr) (now : ℤ) (prefetch : Bool) (pc : Addr)
  | flush (now : ℤ)
  | flushAddr (addr : Addr) (now : ℤ)

/-- What has happened to the contents of a cache. -/
inductive Event where
  | access (a : Accessed)
  | flush
  | flushAddr (addr : Addr)
  deriving DecidableEq

section Run

variable {ε M C : Type} (g : Params) (S : Store ε M C)

/-- Perform a call. -/
def perform (c : C) (w : Shared × M) : Op → Except (Fault ε) (List Event × C × Shared × M)
  | .access cmd addr nbytes now prefetch pc => do
      let (r, c, w) ← cacheAccess g S cmd addr nbytes now prefetch c ({ w.1 with pc }, w.2)
      return (r.accessed.map .access, c, w)
  | .flush now => do
      let (_, c, w) ← S.flush now c w
      return ([.flush], c, w)
  | .flushAddr addr now => do
      let (_, c, w) ← S.flushAddr addr now c w
      return ([.flushAddr addr], c, w)

/-- Perform a sequence of calls, with the events in their order. -/
def run : List Op → C → Shared × M → Except (Fault ε) (List Event × C × Shared × M)
  | [], c, w => .ok ([], c, w)
  | op :: ops, c, w => do
      let (es, c, w) ← perform g S c w op
      let (es', c, w) ← run ops c w
      return (es ++ es', c, w)

end Run

/-! ### Two levels -/

/-- `dl2_access_fn`: a miss to the lowest level accesses main memory, the latency of which is
ignored. -/
def dl2AccessFn : Handler Empty Unit := fun _ _ _ _ _ w => .ok (1, w)

/-- `dl1_access_fn`, when there is a second level with a miss handler of its own: access the next
level of the data cache hierarchy. -/
def dl1AccessFn {ε M : Type} (g : Params) (fn : Handler ε M) : Handler (Fault ε) (Cache × M) :=
  fun cmd baddr bsize now prefetch (sh, dl2, m) => do
    let (r, dl2, sh, m) ←
      cacheAccess g (store g fn) cmd baddr (BitVec.ofNat 32 bsize) now prefetch dl2 (sh, m)
    return (r.lat, sh, dl2, m)

end CacheSim
