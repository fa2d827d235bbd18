/-
**The cache module refines the cache without links.**

The cache module keeps the order of the blocks of a set in linked lists, finds blocks in large sets
through a hash table, and does not move the last block that was hit when it is hit again.  This
module shows that none of this makes a difference: every operation of `ArchLab/Cache.lean` refines
the one of `ArchLab/CacheWays.lean`, up to one failure of its own, the use of the null pointer that
stands for the last block when there is none.

In the relation of the two caches the links of each set represent its order (`CacheSim.Rep`), the
last block is the same, and under LRU it is at the head of the order (`CacheSim.Ways.LastOk`).

Main definitions:

* `CacheSim.Rel` — a cache with and without links;
* `CacheSim.StoreSim` — all operations of a cache refine those of another one.

Main results:

* `CacheSim.access_sim`, `CacheSim.flush_sim`, `CacheSim.flushAddr_sim` — the operations;
* `CacheSim.cache_storeSim` — **the cache module refines the cache without links**;
* `CacheSim.StoreSim.run`, `CacheSim.run_sim` — and so do sequences of calls.
-/

import ArchLab.CacheLinks
import ArchLab.Refine

set_option relaxedAutoImplicit false
set_option autoImplicit false

namespace CacheSim

open Refine

variable {ε M : Type} {g : Params} {s : CacheSet} {v : WaySet} {b : ℕ}

/-! ### The relation of the two caches -/

/-- A cache with links, and the same cache without. -/
structure Rel (g : Params) (cp : Cache) (c : Ways) : Prop where
  busFree : cp.busFree = c.busFree
  stats : cp.stats = c.stats
  sets : ∀ i, Rep g (cp.sets i) (c.sets i)
  lastTagset : cp.lastTagset = (c.last.map Prod.fst).getD 0
  lastBlk : cp.lastBlk = c.last.map fun x => (g.set x.1, x.2)
  last : c.LastOk g

theorem Rel.ok {cp : Cache} {c : Ways} (h : Rel g cp c) : c.Ok g :=
  ⟨fun i => (h.sets i).ok, h.last⟩

/-- The results of two operations are the same, and the caches are related. -/
def Agree {γ C C' W : Type} (R : C → C' → Prop) (x : γ × C × W) (y : γ × C' × W) : Prop :=
  x.1 = y.1 ∧ R x.2.1 y.2.1 ∧ x.2.2 = y.2.2

/-- The failure that only the cache with links has. -/
abbrev isNull (e : Fault ε) : Prop := e = .null

theorem rep_update {cp : Cache} {c : Ways} (h : ∀ i, Rep g (cp.sets i) (c.sets i)) {i : ℕ}
    (hs : Rep g s v) (j : ℕ) :
    Rep g (Function.update cp.sets i s j) (Function.update c.sets i v j) := by
  by_cases hj : j = i
  · subst hj
    rw [Function.update_self, Function.update_self]
    exact hs
  · rw [Function.update_of_ne hj, Function.update_of_ne hj]
    exact h j

/-! ### Accesses -/

section Access

variable {fn : Handler ε M} {w : Shared × M} {cp : Cache} {c : Ways}

/-- The choice of the block to replace. -/
theorem selectRepl_sim (h : Rep g s v) : Sim isNull
    (fun x y => x.1 < g.assoc ∧ y.2.1.line = v.line ∧ Agree (Rep g) x y)
    (selectRepl (ε := ε) g s w) (Ways.selectRepl g v w) := by
  have hne : v.order ≠ [] := by
    intro hnil
    have := h.ok.length
    rw [hnil] at this
    exact g.assoc_pos.ne this
  have hlast := List.getLast?_eq_some_getLast hne
  have htail : s.wayTail = some (v.order.getLast hne) := h.ways.tail.trans hlast
  have hlt : v.order.getLast hne < g.assoc := h.ok.mem.1 (List.getLast_mem hne)
  obtain ⟨s', hs', hrep⟩ := h.toHead (ε := ε) hlt
  unfold selectRepl Ways.selectRepl
  cases g.policy with
  | Random => exact ⟨and_sub_one_lt _, rfl, rfl, h, rfl⟩
  | LRU =>
      simp only [htail, hlast, deref]
      change Sim isNull _ (updateWayList s _ .Head >>= _) _
      rw [hs']
      exact ⟨hlt, rfl, rfl, hrep, rfl⟩
  | FIFO =>
      simp only [htail, hlast, deref]
      change Sim isNull _ (updateWayList s _ .Head >>= _) _
      rw [hs']
      exact ⟨hlt, rfl, rfl, hrep, rfl⟩

/-- **A miss.** -/
theorem missed_sim (h : Rel g cp c) {addr : Addr}
    (hf : (c.sets (g.set addr)).find (g.tag addr) = none)
    (cmd : MemCmd) (now : ℤ) (prefetch : Bool) :
    Sim isNull (Agree (Rel g)) (cp.missed g fn cmd addr now prefetch w)
      (c.missed g fn cmd addr now prefetch w) := by
  unfold Cache.missed Ways.missed
  refine (selectRepl_sim (h.sets (g.set addr))).bind ?_
  rintro ⟨repl, s, w₁⟩ ⟨_, v, _⟩ ⟨hlt, hv, rfl, hrep, rfl⟩
  obtain ⟨s₁, hs₁, hline, hfill⟩ := hrep.retag (ε := ε) hlt
  have hfv : v.find (g.tag addr) = none := by
    rw [WaySet.find_eq_none hrep.ok, hv]
    exact (WaySet.find_eq_none (h.sets (g.set addr)).ok).1 hf
  simp only [hs₁]
  change Sim isNull _ (refill g fn cmd addr now prefetch (s₁.line repl) _ _ w₁ >>= _) _
  rw [hline, h.stats, h.busFree]
  refine (Sim.refl (R := fun x y => x = y ∧ x.1.tag = g.tag addr) fun x hx => ⟨rfl, ?_⟩).bind ?_
  · obtain ⟨_, _, _, _, _, _, _, hline⟩ := refill_ok hx
    rw [hline]
    rfl
  rintro ⟨line, r⟩ _ ⟨rfl, htag⟩
  refine ⟨rfl, ⟨rfl, rfl, fun i => rep_update h.sets (hfill line ?_) i, rfl, rfl,
    Ways.LastOk.of_none rfl⟩, rfl⟩
  rw [htag]
  exact hfv

/-- The set after a hit, when the block has been moved to the head if necessary. -/
theorem reorder_spec (h : Rep g s v) (hb : b < g.assoc) :
    ∃ s', Cache.reorder (ε := ε) g s b = .ok s' ∧
      Rep g s' (if g.policy = .LRU then v.toHead b else v) := by
  unfold Cache.reorder
  by_cases hp : g.policy = .LRU
  · rw [if_pos hp]
    by_cases hprev : s.wayPrev b ≠ none
    · rw [if_pos ⟨hprev, hp⟩]
      exact h.toHead hb
    · -- the block is at the head already
      rw [if_neg fun hn => hprev hn.1]
      obtain ⟨l₁, l₂, hl⟩ := List.append_of_mem (h.ok.mem.2 hb)
      have hways := h.ways
      rw [hl] at hways
      have hnil : l₁ = [] := by
        rw [← List.getLast?_eq_none_iff, ← hways.pointers.1]
        exact not_not.1 hprev
      subst hnil
      have hsame : v.toHead b = v := by
        unfold WaySet.toHead
        rw [hl, List.nil_append, List.erase_cons_head, ← List.nil_append (b :: l₂), ← hl]
      rw [hsame]
      exact ⟨s, rfl, h⟩
  · rw [if_neg fun hn => hp hn.2, if_neg hp]
    exact ⟨s, rfl, h⟩

/-- **A hit** that has been found by a search. -/
theorem slowHit_sim (h : Rel g cp c) {addr : Addr} (hf : (c.sets (g.set addr)).Hits g addr b)
    (cmd : MemCmd) (prefetch : Bool) :
    ∃ cp', cp.slowHit (ε := ε) g cmd addr prefetch b = .ok cp' ∧
      Rel g cp' (c.hit g cmd addr prefetch b) := by
  have hset := h.sets (g.set addr)
  have hline := hset.line
  have hrep : Rep g ((cp.sets (g.set addr)).setLine b (((c.sets (g.set addr)).line b).touch cmd))
      ((c.sets (g.set addr)).setLine b (((c.sets (g.set addr)).line b).touch cmd)) :=
    hset.setLine rfl (hset.ok.rewrite hf.lt rfl fun hv => hv)
  obtain ⟨s', hs', hrep'⟩ := reorder_spec (ε := ε) hrep hf.lt
  unfold Cache.slowHit
  simp only [hline, hs']
  refine ⟨_, rfl, h.busFree, congrArg (Stats.hit cmd prefetch) h.stats,
    fun i => rep_update h.sets hrep' i, rfl, ?_, Ways.lastOk_hit hf⟩
  change some (g.set addr, b) = some (g.set (g.tagset addr), b)
  rw [g.set_tagset]

/-- The last block, in both caches. -/
theorem Rel.last_eq (h : Rel g cp c) {i : ℕ} (hb : cp.lastBlk = some (i, b)) :
    c.last = some (cp.lastTagset, b) ∧ i = g.set cp.lastTagset := by
  have hblk := h.lastBlk
  have htag := h.lastTagset
  rw [hb] at hblk
  cases hc : c.last with
  | none =>
      rw [hc] at hblk
      cases hblk
  | some x =>
      rw [hc] at hblk htag
      cases hblk
      rw [htag]
      exact ⟨rfl, rfl⟩

/-- **The fast hit is a slow hit of the last block**, if there is one: it is a block that can be
hit, and under LRU it is in its place already. -/
theorem fastHit_spec (h : Rel g cp c) {addr : Addr} (ht : g.tagset addr = cp.lastTagset) {i : ℕ}
    (hb : cp.lastBlk = some (i, b)) (cmd : MemCmd) (prefetch : Bool) :
    i = g.set addr ∧ c.lookup g addr = some b ∧
      (g.policy = .LRU → (c.sets (g.set addr)).order.head? = some b) ∧
      cp.slowHit (ε := ε) g cmd addr prefetch b = .ok (cp.fastHit g cmd addr prefetch (i, b)) := by
  obtain ⟨hlast, rfl⟩ := h.last_eq hb
  rw [← ht] at hlast ⊢
  rw [g.set_tagset]
  obtain ⟨-, hhead⟩ := h.last _ _ hlast
  rw [g.set_tagset] at hhead
  refine ⟨rfl, Ways.lookup_eq_last hlast, hhead, ?_⟩
  have hset := h.sets (g.set addr)
  have hreorder : Cache.reorder (ε := ε) g ((cp.sets (g.set addr)).setLine b
      (((cp.sets (g.set addr)).line b).touch cmd)) b = .ok ((cp.sets (g.set addr)).setLine b
      (((cp.sets (g.set addr)).line b).touch cmd)) := by
    unfold Cache.reorder
    refine if_neg fun hn => hn.1 ?_
    change (cp.sets (g.set addr)).wayPrev b = none
    have hh := hhead hn.2
    cases ho : (c.sets (g.set addr)).order with
    | nil => rw [ho] at hh; cases hh
    | cons a t =>
        rw [ho] at hh
        cases hh
        have hways := hset.ways
        rw [ho, ← List.nil_append (b :: t)] at hways
        exact hways.pointers.1
  unfold Cache.slowHit Cache.fastHit
  simp only [hreorder]
  rfl

/-- An access that does not take the short path. -/
theorem Rel.lookup_eq_find (h : Rel g cp c) {addr : Addr} (ht : g.tagset addr ≠ cp.lastTagset) :
    c.lookup g addr = (c.sets (g.set addr)).find (g.tag addr) := by
  refine Ways.lookup_eq_find fun b hb => ht ?_
  rw [h.lastTagset, hb]
  rfl

/-- **An access**, up to the generation of a prefetch. -/
theorem access_sim (h : Rel g cp c) (cmd : MemCmd) (addr nbytes : Addr) (now : ℤ)
    (prefetch : Bool) :
    Sim isNull (Agree (Rel g)) (cp.access g fn cmd addr nbytes now prefetch w)
      (c.access g fn cmd addr nbytes now prefetch w) := by
  unfold Cache.access Ways.access
  refine (Sim.refl (R := fun _ _ => True) fun _ _ => trivial).bind ?_
  rintro _ _ -
  by_cases ht : g.tagset addr = cp.lastTagset
  · rw [if_pos ht]
    cases hb : cp.lastBlk with
    | none => exact Sim.fault rfl
    | some blk =>
        obtain ⟨i, b⟩ := blk
        obtain ⟨rfl, hf, _, hfast⟩ := fastHit_spec (ε := ε) h ht hb cmd prefetch
        obtain ⟨cp', hcp', hrel⟩ := slowHit_sim (ε := ε) h (h.ok.hits hf) cmd prefetch
        rw [hfast] at hcp'
        cases hcp'
        rw [hf]
        exact ⟨rfl, hrel, rfl⟩
  · unfold Cache.slowAccess
    rw [if_neg ht, (h.sets (g.set addr)).findBlk, h.lookup_eq_find ht]
    cases hf : (c.sets (g.set addr)).find (g.tag addr) with
    | none => exact missed_sim h hf cmd now prefetch
    | some b =>
        obtain ⟨cp', hcp', hrel⟩ := slowHit_sim (ε := ε) h ((h.ok.sets _).hits hf) cmd prefetch
        simp only [bind, Except.bind, hcp']
        exact ⟨rfl, hrel, rfl⟩

theorem probe_eq (h : Rel g cp c) (addr : Addr) :
    cp.probe (ε := ε) g addr = .ok (c.resident g addr) := by
  unfold Cache.probe
  rw [(h.sets (g.set addr)).findBlk]
  rfl

end Access

/-! ### Flushes -/

section Flush

variable {fn : Handler ε M} {w : Shared × M} {cp : Cache} {c : Ways} {now : ℤ} {i : ℕ}

/-- What a flush does to a block. -/
theorem flushLine_line {l : Line} {lat : ℤ} {st : Stats} {x : Line × ℤ × Stats × Shared × M}
    (h : flushLine g fn now i l lat st w = .ok x) : x.1 = { l with valid := false } := by
  unfold flushLine at h
  split at h
  · exact (invalidate_ok h).1
  · next hv =>
      cases h
      rw [← Bool.eq_false_of_not_eq_true hv]

/-- The loop over the way list. -/
theorem flushWays_sim {l : List ℕ} {fuel : ℕ} {h : Option ℕ} {s : CacheSet} {v : WaySet} {lat : ℤ}
    {st : Stats} {w : Shared × M} (hc : Links.Chain s.wayNext h l) (hl : ∀ b ∈ l, b < g.assoc)
    (hlen : l.length ≤ fuel) (hrep : Rep g s v) :
    Sim isNull (fun x y => Rep g x.1 y.1 ∧ x.2 = y.2)
      (flushWays g fn now i fuel h s lat st w)
      (l.foldlM (Ways.flushBlk g fn now i) (v, lat, st, w)) := by
  induction l generalizing fuel h s v lat st w with
  | nil =>
      cases hc
      cases fuel <;> exact ⟨hrep, rfl⟩
  | cons b l ih =>
      obtain ⟨fuel, rfl⟩ := Nat.exists_eq_succ_of_ne_zero (Nat.ne_of_gt (Nat.zero_lt_of_lt hlen))
      obtain ⟨rfl, hc⟩ := hc
      have hb := hl b List.mem_cons_self
      unfold flushWays
      rw [List.foldlM_cons]
      unfold Ways.flushBlk
      simp only [bind_assoc, hrep.line]
      refine (Sim.refl (R := fun x y => x = y ∧ x.1 = { v.line b with valid := false })
        fun x hx => ⟨rfl, flushLine_line hx⟩).bind ?_
      rintro ⟨line, lat', st', w'⟩ _ ⟨rfl, hline⟩
      have hrep' : Rep g (s.setLine b line) (v.setLine b line) := by
        simp only at hline
        subst hline
        exact hrep.setLine rfl (hrep.ok.drop hb)
      exact ih hc (fun a ha => hl a (List.mem_cons_of_mem b ha)) (Nat.le_of_succ_le_succ hlen) hrep'

/-- **Flushing the cache.** -/
theorem flush_sim (h : Rel g cp c) (now : ℤ) : Sim isNull (Agree (Rel g)) (cacheFlush g fn now cp w)
    (c.flush g fn now w) := by
  unfold cacheFlush Ways.flush
  have hstart : Rel g { cp with lastTagset := 0, lastBlk := none } c.forget :=
    ⟨h.busFree, h.stats, h.sets, rfl, rfl, Ways.LastOk.of_none rfl⟩
  refine Sim.bind (R := fun x y => Rel g x.1 y.1 ∧ y.1.last = none ∧ x.2 = y.2)
    (Sim.foldlM ?_ ⟨hstart, rfl, rfl⟩) ?_
  · rintro i - ⟨cp, lat, w⟩ ⟨c, _⟩ ⟨hrel, hnone, rfl⟩
    unfold flushSet Ways.flushSet
    have hset := hrel.sets i
    have hstats : cp.stats = c.stats := hrel.stats
    simp only [hstats]
    refine (flushWays_sim hset.ways.forward (fun b hb => hset.ok.mem.1 hb) hset.ok.length.le
      hset).bind ?_
    rintro ⟨s, rest⟩ ⟨v, _⟩ ⟨hrep, rfl⟩
    exact ⟨⟨hrel.busFree, rfl, fun j => rep_update hrel.sets hrep j, hrel.lastTagset, hrel.lastBlk,
      Ways.LastOk.of_none hnone⟩, hnone, rfl⟩
  · rintro ⟨cp, lat, w⟩ ⟨c, _⟩ ⟨hrel, _, rfl⟩
    exact ⟨rfl, hrel, rfl⟩

/-- **Flushing a block.** -/
theorem flushAddr_sim (h : Rel g cp c) (addr : Addr) (now : ℤ) :
    Sim isNull (Agree (Rel g)) (cacheFlushAddr g fn addr now cp w)
    (c.flushAddr g fn addr now w) := by
  have hset := h.sets (g.set addr)
  unfold cacheFlushAddr Ways.flushAddr
  simp only [hset.findBlk]
  cases hf : (c.sets (g.set addr)).find (g.tag addr) with
  | none => exact ⟨rfl, h, rfl⟩
  | some b =>
      obtain ⟨hb, _, _⟩ := (WaySet.find_eq_some hset.ok).1 hf
      simp only [hset.line, h.stats]
      refine (Sim.refl (R := fun x y => x = y ∧
        x.1 = { (c.sets (g.set addr)).line b with valid := false })
        fun x hx => ⟨rfl, (invalidate_ok hx).1⟩).bind ?_
      rintro ⟨line, lat, st, w'⟩ _ ⟨rfl, hline⟩
      simp only at hline
      subst hline
      have hrep := hset.setLine (l := { (c.sets (g.set addr)).line b with valid := false }) rfl
        (hset.ok.drop hb)
      obtain ⟨s', hs', hrep'⟩ := hrep.toTail (ε := ε) hb
      simp only [hs']
      exact ⟨rfl, ⟨h.busFree, rfl, fun i => rep_update h.sets hrep' i, rfl, rfl,
        Ways.LastOk.of_none rfl⟩, rfl⟩

end Flush

/-! ### Calls and sequences of calls -/

/-- **All operations of a cache refine those of another one**, up to failures of a `bad` kind. -/
structure StoreSim {C C' : Type} (bad : Fault ε → Prop) (R : C → C' → Prop) (S : Store ε M C)
    (S' : Store ε M C') : Prop where
  access : ∀ {c c'}, R c c' → ∀ cmd addr nbytes now prefetch w,
    Sim bad (Agree R) (S.access cmd addr nbytes now prefetch c w)
      (S'.access cmd addr nbytes now prefetch c' w)
  probe : ∀ {c c'}, R c c' → ∀ addr, S.probe c addr = S'.probe c' addr
  ready : ∀ {c c'}, R c c' → S.ready c = S'.ready c'
  flush : ∀ {c c'}, R c c' → ∀ now w, Sim bad (Agree R) (S.flush now c w) (S'.flush now c' w)
  flushAddr : ∀ {c c'}, R c c' → ∀ addr now w,
    Sim bad (Agree R) (S.flushAddr addr now c w) (S'.flushAddr addr now c' w)

/-- **The cache module refines the cache without links.** -/
theorem cache_storeSim (fn : Handler ε M) : StoreSim isNull (Rel g) (store g fn)
    (Ways.store g fn) where
  access h cmd addr nbytes now prefetch _ := access_sim h cmd addr nbytes now prefetch
  probe h addr := probe_eq h addr
  ready h := funext fun i => funext fun b => congrArg Line.ready (congrFun (h.sets i).line b)
  flush h now _ := flush_sim h now
  flushAddr h addr now _ := flushAddr_sim h addr now

/-- New caches. -/
theorem Rel.create (g : Params) : Rel g (Cache.create g) (Ways.create g) :=
  ⟨rfl, rfl, fun _ => Rep.create g, rfl, rfl, Ways.LastOk.of_none rfl⟩

namespace StoreSim

variable {C C' : Type} {bad : Fault ε → Prop} {R : C → C' → Prop} {S : Store ε M C}
  {S' : Store ε M C'} {c : C} {c' : C'}

theorem prefetchBlock (hS : StoreSim bad R S S') (h : R c c') (addr : Addr) (w : Shared × M) :
    Sim bad (Agree R) (prefetchBlock g S addr c w) (prefetchBlock g S' addr c' w) := by
  unfold CacheSim.prefetchBlock
  refine (hS.access h _ _ _ _ _ _).bind ?_
  rintro ⟨e, c, w⟩ ⟨_, c', _⟩ ⟨rfl, hc, rfl⟩
  exact ⟨rfl, hc, rfl⟩

/-- A block is prefetched if it is not there. -/
theorem prefetch (hS : StoreSim bad R S S') (h : R c c') (p addr : Addr) (w : Shared × M) :
    Sim bad (Agree R)
      (do if ← S.probe c p then return ([], c, w) else CacheSim.prefetchBlock g S addr c w)
      (do if ← S'.probe c' p then return ([], c', w)
          else CacheSim.prefetchBlock g S' addr c' w) := by
  rw [hS.probe h p]
  refine (Sim.refl (R := Eq) fun _ _ => rfl).bind ?_
  rintro hit _ rfl
  cases hit with
  | true => exact ⟨rfl, h, rfl⟩
  | false => exact hS.prefetchBlock h addr w

theorem rptPrefetcher (hS : StoreSim bad R S S') (h : R c c') (size : ℕ) (issues : RptState → Bool)
    (addr : Addr) (w : Shared × M) : Sim bad (Agree R) (rptPrefetcher g S size issues addr c w)
      (rptPrefetcher g S' size issues addr c' w) := by
  unfold CacheSim.rptPrefetcher
  refine (Sim.refl (R := Eq) fun _ _ => rfl).bind ?_
  rintro ⟨rpt, e⟩ _ rfl
  cases hi : issues e.state with
  | false =>
      simp only [hi, Bool.false_eq_true, if_false]
      exact ⟨rfl, h, rfl⟩
  | true =>
      simp only [hi, if_true]
      exact hS.prefetch h _ _ _

theorem generatePrefetch (hS : StoreSim bad R S S') (h : R c c') (addr : Addr) (w : Shared × M) :
    Sim bad (Agree R) (generatePrefetch g S addr c w) (generatePrefetch g S' addr c' w) := by
  unfold CacheSim.generatePrefetch
  split
  · exact ⟨rfl, h, rfl⟩
  · exact hS.prefetch h _ _ _
  · exact hS.rptPrefetcher h _ _ _ _
  · exact hS.rptPrefetcher h _ _ _ _

theorem cacheAccess (hS : StoreSim bad R S S') (h : R c c') (cmd : MemCmd)
    (addr nbytes : Addr) (now : ℤ) (prefetch : Bool) (w : Shared × M) : Sim bad (Agree R)
      (cacheAccess g S cmd addr nbytes now prefetch c w)
      (cacheAccess g S' cmd addr nbytes now prefetch c' w) := by
  unfold CacheSim.cacheAccess
  refine (hS.access h _ _ _ _ _ _).bind ?_
  rintro ⟨e, c₁, w₁⟩ ⟨_, c₁', _⟩ ⟨rfl, h₁, rfl⟩
  cases prefetch with
  | true => exact ⟨congrArg (fun r => Ended.result g e now r _) (hS.ready h₁), h₁, rfl⟩
  | false =>
      refine (hS.generatePrefetch h₁ addr _).bind ?_
      rintro ⟨more, c₂, w₂⟩ ⟨_, c₂', _⟩ ⟨rfl, h₂, rfl⟩
      exact ⟨congrArg (fun r => Ended.result g e now r _) (hS.ready h₂), h₂, rfl⟩

theorem perform (hS : StoreSim bad R S S') (h : R c c') (op : Op) (w : Shared × M) :
    Sim bad (Agree R) (perform g S c w op) (perform g S' c' w op) := by
  cases op with
  | access cmd addr nbytes now prefetch pc =>
      refine (hS.cacheAccess h _ _ _ _ _ _).bind ?_
      rintro ⟨r, c₁, w₁⟩ ⟨_, c₁', _⟩ ⟨rfl, h₁, rfl⟩
      exact ⟨rfl, h₁, rfl⟩
  | flush now =>
      refine (hS.flush h _ _).bind ?_
      rintro ⟨lat, c₁, w₁⟩ ⟨_, c₁', _⟩ ⟨rfl, h₁, rfl⟩
      exact ⟨rfl, h₁, rfl⟩
  | flushAddr addr now =>
      refine (hS.flushAddr h _ _ _).bind ?_
      rintro ⟨lat, c₁, w₁⟩ ⟨_, c₁', _⟩ ⟨rfl, h₁, rfl⟩
      exact ⟨rfl, h₁, rfl⟩

/-- **Sequences of calls.** -/
theorem run (hS : StoreSim bad R S S') {ops : List Op} {c : C} {c' : C'} {w : Shared × M}
    (h : R c c') :
    Sim bad (Agree R) (run g S ops c w) (run g S' ops c' w) := by
  induction ops generalizing c c' w with
  | nil => exact ⟨rfl, h, rfl⟩
  | cons op ops ih =>
      unfold CacheSim.run
      refine (hS.perform h op w).bind ?_
      rintro ⟨es, c₁, w₁⟩ ⟨_, c₁', _⟩ ⟨rfl, h₁, rfl⟩
      refine (ih h₁).bind ?_
      rintro ⟨es', c₂, w₂⟩ ⟨_, c₂', _⟩ ⟨rfl, h₂, rfl⟩
      exact ⟨rfl, h₂, rfl⟩

end StoreSim

/-- **Every sequence of calls** of a new cache. -/
theorem run_sim (g : Params) (fn : Handler ε M) (ops : List Op) (w : Shared × M) :
    Sim isNull (Agree (Rel g)) (run g (store g fn) ops (Cache.create g) w)
      (run g (Ways.store g fn) ops (Ways.create g) w) := (cache_storeSim fn).run (Rel.create g)

/-- The cache without links after a sequence of calls. -/
theorem run_rel {fn : Handler ε M} {ops : List Op} {es : List Event} {cp : Cache}
    {w w' : Shared × M}
    (hr : run g (store g fn) ops (Cache.create g) w = .ok (es, cp, w')) : ∃ c, Rel g cp c := by
  have hsim := run_sim g fn ops w
  rw [hr] at hsim
  obtain ⟨⟨_, c, _⟩, _, _, hrel, _⟩ := hsim.ok
  exact ⟨c, hrel⟩

end CacheSim
