/-
**The cache without its links.**

What matters about a set of a cache is the order of its blocks, and what each block holds.  This
module is the cache of `ArchLab/Cache.lean` in these terms: the order of the blocks of a set is a
list, and the search for a block goes along this list.  Everything else, in particular what happens
on the bus to the next level and what is counted, is the same code.  That the cache module refines
it is shown in `ArchLab/CacheRefine.lean`.

The last block that was hit is remembered here too.  If the shift for the tag is defined, it is the
block that a search finds (`CacheSim.WaySet.Hits.find_eq`), and could as well be forgotten.  If the
shift is not defined, two addresses in one block may have different tags, and a block may be hit
that a search would not have found; what does not depend on tags holds even then.

Main definitions:

* `CacheSim.WaySet`, `CacheSim.Ways` — a set and a cache;
* `CacheSim.WaySet.find` — the valid block with a tag;
* `CacheSim.Ways.lookup` — the block that an access uses;
* `CacheSim.Ways.access`, `CacheSim.Ways.flush`, `CacheSim.Ways.flushAddr` — the operations;
* `CacheSim.WaySet.Ok` — what holds of a set: all blocks are in the order, once, and no two of them
  are valid with the same tag;
* `CacheSim.WaySet.Hits` — what holds of a block that is hit;
* `CacheSim.Ways.Ok` — what holds of a cache: all its sets are in order, and the last block can be
  hit again.

Main results:

* `CacheSim.WaySet.find_eq_some` — the search finds the valid block with a tag;
* `CacheSim.WaySet.Ok.touched`, `CacheSim.WaySet.Ok.fill`, `CacheSim.WaySet.Ok.drop` — the
  operations on a set keep it in order;
* `CacheSim.Ways.access_ok`, `CacheSim.invalidate_ok` — what an access does, and what happens to a
  block that is invalidated.
-/

import ArchLab.Cache
import ArchLab.Refine
import Mathlib.Data.List.Perm.Basic

set_option relaxedAutoImplicit false
set_option autoImplicit false

namespace CacheSim

/-! ### Sets -/

/-- A set: its blocks in the order of the way list, and what they hold. -/
structure WaySet where
  order : List ℕ
  line : ℕ → Line

/-- A cache without links.  The last block that was hit is known by its address and by its number in
its set. -/
structure Ways where
  busFree : ℤ
  stats : Stats
  last : Option (Addr × ℕ)
  sets : ℕ → WaySet

namespace WaySet

/-- A block is valid and has a tag. -/
def holds (s : WaySet) (tag : Addr) (b : ℕ) : Bool :=
  decide ((s.line b).tag = tag ∧ (s.line b).valid = true)

/-- The search for a valid block with a tag. -/
def find (s : WaySet) (tag : Addr) : Option ℕ := s.order.find? (s.holds tag)

def setLine (s : WaySet) (b : ℕ) (line : Line) : WaySet :=
  { s with line := Function.update s.line b line }

/-- Move a block to the head of the order. -/
def toHead (s : WaySet) (b : ℕ) : WaySet := { s with order := b :: s.order.erase b }

/-- Move a block to the tail of the order. -/
def toTail (s : WaySet) (b : ℕ) : WaySet := { s with order := s.order.erase b ++ [b] }

/-- A set of a new cache. -/
def create (g : Params) : WaySet := ⟨(List.range g.assoc).reverse, fun _ => {}⟩

end WaySet

/-! ### Operations -/

namespace Ways

variable {ε M : Type} (g : Params) (fn : Handler ε M)

def create : Ways := ⟨0, {}, none, fun _ => WaySet.create g⟩

def setSet (c : Ways) (i : ℕ) (s : WaySet) : Ways :=
  { c with sets := Function.update c.sets i s }

/-- The last block is forgotten. -/
def forget (c : Ways) : Ways := { c with last := none }

/-- **The block that an access uses**: the last one that was hit, if it was hit for the same block
address, and otherwise the one that a search finds. -/
def lookup (c : Ways) (addr : Addr) : Option ℕ :=
  match c.last with
  | some (block, b) =>
      if g.tagset addr = block then some b else (c.sets (g.set addr)).find (g.tag addr)
  | none => (c.sets (g.set addr)).find (g.tag addr)

/-- The block to replace, and the set with it in its new place. -/
def selectRepl (s : WaySet) (w : Shared × M) : Except (Fault ε) (ℕ × WaySet × Shared × M) :=
  match g.policy with
  | .LRU | .FIFO => do
      let repl ← deref s.order.getLast?
      return (repl, s.toHead repl, w)
  | .Random =>
      let (r, w) := myrand w
      .ok (r &&& (g.assoc - 1), s, w)

def missed (cmd : MemCmd) (addr : Addr) (now : ℤ) (prefetch : Bool) (c : Ways) (w : Shared × M) :
    Except (Fault ε) (Ended × Ways × Shared × M) := do
  let set := g.set addr
  let (repl, s, w) ← selectRepl g (c.sets set) w
  let (line, r) ← refill g fn cmd addr now prefetch (s.line repl) (c.stats.miss cmd prefetch)
    c.busFree w
  return (.miss r.lat r.replAddr,
    { c.setSet set (s.setLine repl line) with
      busFree := r.busFree, stats := r.stats, last := none }, r.world)

/-- A set after a hit. -/
def touched (cmd : MemCmd) (blk : ℕ) (s : WaySet) : WaySet :=
  let s := s.setLine blk ((s.line blk).touch cmd)
  if g.policy = .LRU then s.toHead blk else s

def hit (cmd : MemCmd) (addr : Addr) (prefetch : Bool) (blk : ℕ) (c : Ways) : Ways :=
  { c.setSet (g.set addr) (touched g cmd blk (c.sets (g.set addr))) with
    stats := c.stats.hit cmd prefetch
    last := some (g.tagset addr, blk) }

def access (cmd : MemCmd) (addr nbytes : Addr) (now : ℤ) (prefetch : Bool) (c : Ways)
    (w : Shared × M) : Except (Fault ε) (Ended × Ways × Shared × M) := do
  checkAccess g addr nbytes
  match c.lookup g addr with
  | some blk => return (.hit (g.set addr) blk, c.hit g cmd addr prefetch blk, w)
  | none => c.missed g fn cmd addr now prefetch w

/-- Whether a search finds the block of an address. -/
def resident (c : Ways) (addr : Addr) : Bool := ((c.sets (g.set addr)).find (g.tag addr)).isSome

/-- Invalidate a block of a set, if it is valid. -/
def flushBlk (now : ℤ) (set : ℕ) (acc : WaySet × ℤ × Stats × Shared × M) (blk : ℕ) :
    Except (Fault ε) (WaySet × ℤ × Stats × Shared × M) := do
  let (s, lat, stats, w) := acc
  let (line, lat, stats, w) ← flushLine g fn now set (s.line blk) lat stats w
  return (s.setLine blk line, lat, stats, w)

def flushSet (now : ℤ) (acc : Ways × ℤ × Shared × M) (i : ℕ) :
    Except (Fault ε) (Ways × ℤ × Shared × M) := do
  let (c, lat, w) := acc
  let s := c.sets i
  let (s, lat, stats, w) ← s.order.foldlM (flushBlk g fn now i) (s, lat, c.stats, w)
  return ({ c.setSet i s with stats }, lat, w)

def flush (now : ℤ) (c : Ways) (w : Shared × M) : Except (Fault ε) (ℤ × Ways × Shared × M) := do
  let (c, lat, w) ← (List.range g.nsets).foldlM (flushSet g fn now)
    (c.forget, (g.hitLatency : ℤ), w)
  return (lat, c, w)

def flushAddr (addr : Addr) (now : ℤ) (c : Ways) (w : Shared × M) :
    Except (Fault ε) (ℤ × Ways × Shared × M) := do
  let set := g.set addr
  let s := c.sets set
  match s.find (g.tag addr) with
  | none => return (g.hitLatency, c, w)
  | some blk =>
      let (line, lat, stats, w) ← invalidate g fn now set (s.line blk) g.hitLatency c.stats w
      return (lat, { c.forget.setSet set ((s.setLine blk line).toTail blk) with stats }, w)

/-- The cache without links, as a cache. -/
def store : Store ε M Ways where
  access := Ways.access g fn
  probe c addr := .ok (c.resident g addr)
  ready c set blk := ((c.sets set).line blk).ready
  flush := Ways.flush g fn
  flushAddr := Ways.flushAddr g fn

end Ways

/-! ### Sets in order -/

namespace WaySet

variable {g : Params} {s : WaySet} {tag : Addr} {a b : ℕ}

theorem holds_iff : s.holds tag b = true ↔ (s.line b).tag = tag ∧ (s.line b).valid = true :=
  decide_eq_true_iff

/-- All blocks are in the order, once, and no two of them are valid with the same tag. -/
structure Ok (g : Params) (s : WaySet) : Prop where
  perm : s.order.Perm (List.range g.assoc)
  unique : ∀ a b, a < g.assoc → b < g.assoc → (s.line a).valid = true → (s.line b).valid = true →
    (s.line a).tag = (s.line b).tag → a = b

theorem Ok.mem (h : Ok g s) : b ∈ s.order ↔ b < g.assoc := by
  rw [h.perm.mem_iff, List.mem_range]

theorem Ok.nodup (h : Ok g s) : s.order.Nodup := h.perm.nodup_iff.2 List.nodup_range

theorem Ok.length (h : Ok g s) : s.order.length = g.assoc := by
  rw [h.perm.length_eq, List.length_range]

/-- **The search** finds the valid block with a tag. -/
theorem find_eq_some (h : Ok g s) :
    s.find tag = some b ↔ b < g.assoc ∧ (s.line b).tag = tag ∧ (s.line b).valid = true := by
  constructor
  · intro hf
    exact ⟨h.mem.1 (List.mem_of_find?_eq_some hf), holds_iff.1 (List.find?_some hf)⟩
  · rintro ⟨hb, ht, hv⟩
    cases hf : s.find tag with
    | none =>
        have := List.find?_eq_none.1 hf b (h.mem.2 hb)
        exact absurd (holds_iff.2 ⟨ht, hv⟩) this
    | some a =>
        have ha := h.mem.1 (List.mem_of_find?_eq_some hf)
        obtain ⟨hta, hva⟩ := holds_iff.1 (List.find?_some hf)
        rw [h.unique a b ha hb hva hv (hta.trans ht.symm)]

theorem find_eq_none (h : Ok g s) :
    s.find tag = none ↔ ∀ b < g.assoc, (s.line b).tag = tag → (s.line b).valid = false := by
  rw [find, List.find?_eq_none]
  simp only [h.mem, holds_iff, not_and, Bool.not_eq_true]

/-- Moving a block to the head of an order. -/
theorem perm_toHead {l : List ℕ} (hb : b ∈ l) : (b :: l.erase b).Perm l :=
  (List.perm_cons_erase hb).symm

theorem perm_toTail {l : List ℕ} (hb : b ∈ l) : (l.erase b ++ [b]).Perm l :=
  (List.perm_append_singleton b _).trans (perm_toHead hb)

theorem Ok.toHead (h : Ok g s) (hb : b < g.assoc) : Ok g (s.toHead b) :=
  ⟨(perm_toHead (h.mem.2 hb)).trans h.perm, h.unique⟩

theorem Ok.toTail (h : Ok g s) (hb : b < g.assoc) : Ok g (s.toTail b) :=
  ⟨(perm_toTail (h.mem.2 hb)).trans h.perm, h.unique⟩

theorem line_setLine (l : Line) : (s.setLine b l).line a = if a = b then l else s.line a := by
  by_cases hab : a = b
  · subst hab
    rw [if_pos rfl]
    exact Function.update_self ..
  · rw [if_neg hab]
    exact Function.update_of_ne hab ..

/-- A block is written to: the tags of the valid blocks stay different if its own does. -/
theorem Ok.setLine (h : Ok g s) {l : Line}
    (hl : l.valid = true → ∀ a < g.assoc, a ≠ b → (s.line a).valid = true →
    (s.line a).tag ≠ l.tag) :
    Ok g (s.setLine b l) := by
  refine ⟨h.perm, fun a a' ha ha' hv hv' ht => ?_⟩
  rw [line_setLine] at hv hv' ht
  rw [line_setLine] at ht
  by_cases e : a = b
  · by_cases e' : a' = b
    · rw [e, e']
    · rw [if_pos e] at hv ht
      rw [if_neg e'] at hv' ht
      exact absurd ht.symm (hl hv a' ha' e' hv')
  · rw [if_neg e] at hv ht
    by_cases e' : a' = b
    · rw [if_pos e'] at hv' ht
      exact absurd ht (hl hv' a ha e hv)
    · rw [if_neg e'] at hv' ht
      exact h.unique a a' ha ha' hv hv' ht

/-- A block that keeps its tag and does not become valid. -/
theorem Ok.rewrite (h : Ok g s) (hb : b < g.assoc) {l : Line} (ht : l.tag = (s.line b).tag)
    (hv : l.valid = true → (s.line b).valid = true) : Ok g (s.setLine b l) := by
  refine h.setLine fun hl a ha hab hva htag => hab ?_
  exact h.unique a b ha hb hva (hv hl) (htag.trans ht)

theorem line_touched (cmd : MemCmd) :
    (Ways.touched g cmd b s).line a = if a = b then (s.line b).touch cmd else s.line a := by
  rw [← line_setLine]
  unfold Ways.touched
  split <;> rfl

/-- A hit. -/
theorem Ok.touched (h : Ok g s) (hb : b < g.assoc) (cmd : MemCmd) :
    Ok g (Ways.touched g cmd b s) := by
  have hl : Ok g (s.setLine b ((s.line b).touch cmd)) := h.rewrite hb rfl fun hv => hv
  unfold Ways.touched
  split
  · exact hl.toHead hb
  · exact hl

/-- A block gets a tag that no valid block has. -/
theorem Ok.fill (h : Ok g s) {l : Line} (hf : s.find l.tag = none) : Ok g (s.setLine b l) := by
  refine h.setLine fun _ a ha _ hva htag => ?_
  rw [(find_eq_none h).1 hf a ha htag] at hva
  cases hva

/-- A block is invalidated. -/
theorem Ok.drop (h : Ok g s) (hb : b < g.assoc) :
    Ok g (s.setLine b { s.line b with valid := false }) :=
  h.rewrite hb rfl nofun

theorem Ok.create (g : Params) : Ok g (WaySet.create g) :=
  ⟨List.reverse_perm _, fun _ _ _ _ hv => by cases hv⟩

/-- **What holds of a block that is hit** for an address: it is one of the set, it is valid, and it
has the tag of the address, if this is defined. -/
structure Hits (g : Params) (s : WaySet) (addr : Addr) (b : ℕ) : Prop where
  lt : b < g.assoc
  valid : (s.line b).valid = true
  tag : g.tagShift < 32 → (s.line b).tag = g.tag addr

variable {addr : Addr}

/-- A block that a search finds. -/
theorem Ok.hits (h : Ok g s) (hf : s.find (g.tag addr) = some b) : Hits g s addr b := by
  obtain ⟨hb, ht, hv⟩ := (find_eq_some h).1 hf
  exact ⟨hb, hv, fun _ => ht⟩

/-- If tags are defined, a search finds the block that is hit. -/
theorem Hits.find_eq (h : Hits g s addr b) (hok : Ok g s) (hdef : g.tagShift < 32) :
    s.find (g.tag addr) = some b := (find_eq_some hok).2 ⟨h.lt, h.tag hdef, h.valid⟩

/-- What a hit leaves can be hit again, for another address in the same block. -/
theorem Hits.touched (h : Hits g s addr b) (cmd : MemCmd) :
    Hits g (Ways.touched g cmd b s) (g.tagset addr) b := by
  have hline : (Ways.touched g cmd b s).line b = (s.line b).touch cmd := by
    rw [line_touched, if_pos rfl]
  refine ⟨h.lt, ?_, fun hdef => ?_⟩
  · rw [hline]
    exact h.valid
  · rw [hline, g.tag_tagset hdef]
    exact h.tag hdef

/-- Under LRU a hit leaves the block at the head. -/
theorem head_touched (hp : g.policy = .LRU) (cmd : MemCmd) :
    (Ways.touched g cmd b s).order.head? = some b := by
  unfold Ways.touched
  rw [if_pos hp]
  rfl

end WaySet

/-! ### Caches in order -/

namespace Ways

variable {g : Params} {c : Ways} {addr : Addr} {i b : ℕ}

/-- **The last block can be hit again**, and under LRU it is the first of the order. -/
def LastOk (g : Params) (c : Ways) : Prop :=
  ∀ block b, c.last = some (block, b) → (c.sets (g.set block)).Hits g block b ∧
    (g.policy = .LRU → (c.sets (g.set block)).order.head? = some b)

/-- All sets are in order, and the last block can be hit again. -/
structure Ok (g : Params) (c : Ways) : Prop where
  sets : ∀ i, (c.sets i).Ok g
  last : c.LastOk g

theorem LastOk.of_none (h : c.last = none) : c.LastOk g := by
  intro block b hb
  rw [h] at hb
  cases hb

theorem Ok.create (g : Params) : (Ways.create g).Ok g :=
  ⟨fun _ => WaySet.Ok.create g, LastOk.of_none rfl⟩

theorem Ok.forget (h : c.Ok g) : c.forget.Ok g := ⟨h.sets, LastOk.of_none rfl⟩

/-- An access that does not use the last block. -/
theorem lookup_eq_find (h : ∀ b, c.last ≠ some (g.tagset addr, b)) :
    c.lookup g addr = (c.sets (g.set addr)).find (g.tag addr) := by
  unfold lookup
  split
  · next block b hb =>
      refine if_neg ?_
      rintro rfl
      exact h b hb
  · rfl

theorem lookup_eq_last (h : c.last = some (g.tagset addr, b)) : c.lookup g addr = some b := by
  unfold lookup
  rw [h]
  exact if_pos rfl

/-- **An access uses a block that is hit.** -/
theorem Ok.hits (h : c.Ok g) (hf : c.lookup g addr = some b) :
    (c.sets (g.set addr)).Hits g addr b := by
  by_cases hlast : ∃ b, c.last = some (g.tagset addr, b)
  · obtain ⟨b', hb'⟩ := hlast
    rw [lookup_eq_last hb'] at hf
    cases hf
    obtain ⟨hlt, hvalid, htag⟩ := (h.last _ _ hb').1
    rw [g.set_tagset] at hvalid htag
    refine ⟨hlt, hvalid, fun hdef => ?_⟩
    rw [htag hdef, g.tag_tagset hdef]
  · rw [lookup_eq_find (not_exists.1 hlast)] at hf
    exact (h.sets _).hits hf

/-- An access that uses no block, since a search does not find one. -/
theorem find_of_lookup_eq_none (h : c.lookup g addr = none) :
    (c.sets (g.set addr)).find (g.tag addr) = none := by
  rw [← lookup_eq_find, h]
  intro b hb
  rw [lookup_eq_last hb] at h
  cases h

theorem sets_update (h : ∀ i, (c.sets i).Ok g) {v : WaySet} (hv : v.Ok g) (j : ℕ) :
    (Function.update c.sets i v j).Ok g := by
  by_cases hj : j = i
  · subst hj
    rwa [Function.update_self]
  · rw [Function.update_of_ne hj]
    exact h j

/-- The last block after a hit. -/
theorem lastOk_hit {cmd : MemCmd} {prefetch : Bool} (hf : (c.sets (g.set addr)).Hits g addr b) :
    (c.hit g cmd addr prefetch b).LastOk g := by
  rintro block b' hb
  cases hb
  have hset : (c.hit g cmd addr prefetch b).sets (g.set (g.tagset addr)) =
      touched g cmd b (c.sets (g.set addr)) := by
    rw [g.set_tagset]
    exact Function.update_self ..
  rw [hset]
  exact ⟨hf.touched cmd, fun hp => WaySet.head_touched hp cmd⟩

/-- A hit. -/
theorem Ok.hit (h : c.Ok g) {cmd : MemCmd} {prefetch : Bool}
    (hf : (c.sets (g.set addr)).Hits g addr b) : (c.hit g cmd addr prefetch b).Ok g :=
  ⟨sets_update h.sets ((h.sets _).touched hf.lt cmd), lastOk_hit hf⟩

end Ways

/-! ### What the operations do -/

/-- The accounting of a block that is replaced. -/
def Stats.replace (dirty : Bool) (st : Stats) : Stats :=
  { st with replacements := st.replacements + 1, writebacks := st.writebacks + dirty.toNat }

/-- The accounting of a block that is invalidated. -/
def Stats.invalidate (dirty : Bool) (st : Stats) : Stats :=
  { st with invalidations := st.invalidations + 1, writebacks := st.writebacks + dirty.toNat }

section Inversion

open Refine

variable {ε M : Type} {g : Params} {fn : Handler ε M} {c c' : Ways} {w w' : Shared × M}
  {cmd : MemCmd} {addr : Addr} {now : ℤ} {prefetch : Bool} {set : ℕ} {line : Line} {st : Stats}

/-- A block leaves the cache: it is written to the next level if it is dirty. -/
def Evicts (g : Params) (fn : Handler ε M) (set : ℕ) (line : Line) (w w' : Shared × M) : Prop :=
  if line.dirty then ∃ t l, fn .Write (g.mkBaddr line.tag set) g.bsize t false w = .ok (l, w')
  else w' = w

theorem lower_ok {α : Type} {x : Except ε α} {a : α} (h : lower x = .ok a) : x = .ok a := by
  cases x with
  | ok b =>
      cases h
      rfl
  | error e => cases h

/-- The replaced block. -/
theorem writeBack_ok {busFree : ℤ} {r : Refilled M}
    (h : writeBack g fn now set line st busFree w = .ok r) :
    if line.valid then r.stats = st.replace line.dirty ∧ Evicts g fn set line w r.world
    else r.stats = st ∧ r.world = w := by
  unfold writeBack at h
  unfold Evicts
  cases hv : line.valid with
  | false =>
      simp only [hv, Bool.false_eq_true, if_false] at h ⊢
      cases h
      exact ⟨rfl, rfl⟩
  | true =>
      cases hd : line.dirty with
      | false =>
          simp only [hv, hd, Bool.false_eq_true, if_false, if_true] at h ⊢
          cases h
          exact ⟨rfl, rfl⟩
      | true =>
          simp only [hv, hd, if_true] at h ⊢
          obtain ⟨⟨l, w'⟩, hfn, hr⟩ := bind_ok.1 h
          cases hr
          exact ⟨rfl, _, l, lower_ok hfn⟩

/-- The block that is filled. -/
theorem refill_ok {busFree : ℤ} {line' : Line} {r : Refilled M}
    (h : refill g fn cmd addr now prefetch line st busFree w = .ok (line', r)) :
    ∃ r₀ t l ready, writeBack g fn now (g.set addr) line st busFree w = .ok r₀ ∧
      fn .Read (g.baddr addr) g.bsize t prefetch r₀.world = .ok (l, r.world) ∧ r.stats = r₀.stats ∧
      line' = filled g cmd addr ready := by
  obtain ⟨r₀, hr₀, h⟩ := bind_ok.1 h
  obtain ⟨⟨l, w'⟩, hfn, h⟩ := bind_ok.1 h
  cases h
  exact ⟨r₀, _, l, _, hr₀, lower_ok hfn, rfl, rfl⟩

/-- A block that is invalidated. -/
theorem invalidate_ok {lat : ℤ} {x : Line × ℤ × Stats × Shared × M}
    (h : invalidate g fn now set line lat st w = .ok x) :
    x.1 = { line with valid := false } ∧ x.2.2.1 = st.invalidate line.dirty ∧
      Evicts g fn set line w x.2.2.2 := by
  unfold invalidate at h
  unfold Evicts
  cases hd : line.dirty with
  | false =>
      simp only [hd, Bool.false_eq_true, if_false] at h ⊢
      cases h
      exact ⟨rfl, rfl, rfl⟩
  | true =>
      simp only [hd, if_true] at h ⊢
      obtain ⟨⟨l, w'⟩, hfn, hr⟩ := bind_ok.1 h
      cases hr
      exact ⟨rfl, rfl, _, l, lower_ok hfn⟩

/-- The choice of a block to replace, and what becomes of the order. -/
structure Chosen (g : Params) (v : WaySet) (repl : ℕ) (v' : WaySet) : Prop where
  lt : repl < g.assoc
  line : v'.line = v.line
  order : if g.policy = .Random then v' = v
    else v.order.getLast? = some repl ∧ v' = v.toHead repl

theorem Chosen.ok {v v' : WaySet} {repl : ℕ} (h : Chosen g v repl v') (hok : v.Ok g) : v'.Ok g := by
  have ho := h.order
  split at ho
  · rwa [ho]
  · rw [ho.2]
    exact hok.toHead h.lt

theorem and_sub_one_lt (r : ℕ) : r &&& (g.assoc - 1) < g.assoc := by
  have hpos := g.assoc_pos
  exact Nat.lt_of_le_of_lt Nat.and_le_right (by omega)

theorem selectRepl_ok {v : WaySet} (hok : v.Ok g) {x : ℕ × WaySet × Shared × M}
    (h : Ways.selectRepl (ε := ε) g v w = .ok x) : Chosen g v x.1 x.2.1 ∧ x.2.2.2 = w.2 := by
  unfold Ways.selectRepl at h
  have hlast : g.policy ≠ .Random →
      (deref v.order.getLast? >>= fun repl => Except.ok (repl, v.toHead repl, w)) =
        (.ok x : Except (Fault ε) _) → Chosen g v x.1 x.2.1 ∧ x.2.2.2 = w.2 := by
    intro hp h
    obtain ⟨repl, hrepl, h⟩ := bind_ok.1 h
    cases h
    have hget : v.order.getLast? = some repl := by
      unfold deref at hrepl
      split at hrepl
      · next hl =>
          cases hrepl
          exact hl
      · cases hrepl
    refine ⟨⟨hok.mem.1 (List.mem_of_getLast? hget), rfl, ?_⟩, rfl⟩
    rw [if_neg hp]
    exact ⟨hget, rfl⟩
  cases hp : g.policy with
  | Random =>
      simp only [hp] at h
      cases h
      exact ⟨⟨and_sub_one_lt _, rfl, by rw [if_pos hp]⟩, rfl⟩
  | LRU =>
      simp only [hp] at h
      exact hlast (by rw [hp]; decide) h
  | FIFO =>
      simp only [hp] at h
      exact hlast (by rw [hp]; decide) h

/-- **What a miss does**: a block is chosen, leaves the cache if it is valid, and is filled. -/
structure Replaces (g : Params) (fn : Handler ε M) (cmd : MemCmd) (addr : Addr) (prefetch : Bool)
    (c : Ways) (w : Shared × M) (c' : Ways) (w' : Shared × M) (repl : ℕ) (v : WaySet) : Prop where
  chosen : Chosen g (c.sets (g.set addr)) repl v
  last : c'.last = none
  sets : ∃ ready,
    c'.sets = Function.update c.sets (g.set addr) (v.setLine repl (filled g cmd addr ready))
  world : ∃ w₁ w₂ t l, w₁.2 = w.2 ∧
    (if ((c.sets (g.set addr)).line repl).valid then
      c'.stats = (c.stats.miss cmd prefetch).replace ((c.sets (g.set addr)).line repl).dirty ∧
        Evicts g fn (g.set addr) ((c.sets (g.set addr)).line repl) w₁ w₂
    else c'.stats = c.stats.miss cmd prefetch ∧ w₂ = w₁) ∧
    fn .Read (g.baddr addr) g.bsize t prefetch w₂ = .ok (l, w')

/-- The lines of the set that is filled. -/
theorem Replaces.sets_line {repl : ℕ} {v : WaySet}
    (hr : Replaces g fn cmd addr prefetch c w c' w' repl v) : ∃ ready,
    c'.sets = Function.update c.sets (g.set addr) (v.setLine repl (filled g cmd addr ready)) ∧
    ∀ b, (v.setLine repl (filled g cmd addr ready)).line b =
      if b = repl then filled g cmd addr ready else (c.sets (g.set addr)).line b := by
  obtain ⟨ready, hsets⟩ := hr.sets
  refine ⟨ready, hsets, fun b => ?_⟩
  rw [WaySet.line_setLine, hr.chosen.line]

theorem Ways.missed_ok {e : Ended} (hok : (c.sets (g.set addr)).Ok g)
    (h : c.missed g fn cmd addr now prefetch w = .ok (e, c', w')) :
    e.isHit = false ∧ ∃ repl v, Replaces g fn cmd addr prefetch c w c' w' repl v := by
  obtain ⟨⟨repl, v, w₁⟩, hsel, h⟩ := bind_ok.1 h
  obtain ⟨⟨line, r⟩, hfill, h⟩ := bind_ok.1 h
  cases h
  obtain ⟨hchosen, hw⟩ := selectRepl_ok hok hsel
  obtain ⟨r₀, t, l, ready, hback, hread, hst, rfl⟩ := refill_ok hfill
  have hwb := writeBack_ok hback
  have hline : v.line repl = (c.sets (g.set addr)).line repl := congrFun hchosen.line repl
  rw [hline] at hwb
  refine ⟨rfl, repl, v, hchosen, rfl, ⟨ready, rfl⟩, w₁, r₀.world, t, l, hw, ?_, hread⟩
  change if _ then r.stats = _ ∧ _ else r.stats = _ ∧ _
  rw [hst]
  exact hwb

/-- **What an access does.** -/
theorem Ways.access_ok {nbytes : Addr} {e : Ended} (hok : c.Ok g)
    (h : c.access g fn cmd addr nbytes now prefetch w = .ok (e, c', w')) :
    (∃ b, (c.sets (g.set addr)).Hits g addr b ∧ e.isHit = true ∧
      c' = c.hit g cmd addr prefetch b ∧ w' = w) ∨
    ((c.sets (g.set addr)).find (g.tag addr) = none ∧ e.isHit = false ∧
      ∃ repl v, Replaces g fn cmd addr prefetch c w c' w' repl v) := by
  obtain ⟨_, _, h⟩ := bind_ok.1 h
  cases hf : c.lookup g addr with
  | some b =>
      simp only [hf] at h
      cases h
      exact .inl ⟨b, hok.hits hf, rfl, rfl, rfl⟩
  | none =>
      simp only [hf] at h
      exact .inr ⟨find_of_lookup_eq_none hf, Ways.missed_ok (hok.sets _) h⟩

end Inversion

end CacheSim
