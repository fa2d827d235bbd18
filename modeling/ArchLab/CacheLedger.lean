/-
**The statistics of a cache add up.**

The counters of a cache are incremented in many places, but each of them stands for something that
can be counted otherwise: the hits and misses for the accesses that have been made, and the misses,
replacements and invalidations together for the blocks that are valid.  For two levels of caches,
the accesses of the second one are the misses and the write-backs of the first one.

Main definitions:

* `CacheSim.occupied` — the number of valid blocks;
* `CacheSim.Counted` — the hits and misses are those of some accesses;
* `CacheSim.Supplies` — the accesses of a second level are the misses and write-backs of the first.

Main results:

* `CacheSim.occupancy_ledger` — **the ledger of one cache**: valid blocks, write-backs, and reads;
* `CacheSim.two_level_ledger` — **the ledger of two caches**.
-/

import ArchLab.CacheRuns
import Mathlib.Algebra.BigOperators.Group.Finset.Basic
import Mathlib.Algebra.Order.BigOperators.Group.Finset

set_option relaxedAutoImplicit false
set_option autoImplicit false

namespace CacheSim

open Refine

/-! ### Valid blocks -/

/-- The number of valid blocks. -/
def occupied (g : Params) (line : ℕ → ℕ → Line) : ℕ :=
  ∑ i ∈ Finset.range g.nsets, ∑ b ∈ Finset.range g.assoc, (line i b).valid.toNat

/-- Two sums that differ in one place. -/
theorem sum_add_eq {n k : ℕ} {f f' : ℕ → ℕ} (hk : k < n) (h : ∀ j, j ≠ k → f' j = f j) :
    ∑ j ∈ Finset.range n, f' j + f k = ∑ j ∈ Finset.range n, f j + f' k := by
  have hmem := Finset.mem_range.2 hk
  have hrest : ∑ j ∈ (Finset.range n).erase k, f' j = ∑ j ∈ (Finset.range n).erase k, f j :=
    Finset.sum_congr rfl fun j hj => h j (Finset.ne_of_mem_erase hj)
  rw [← Finset.add_sum_erase _ f' hmem, ← Finset.add_sum_erase _ f hmem, hrest]
  omega

/-- One block changes. -/
theorem occupied_add_eq {g : Params} {line line' : ℕ → ℕ → Line} {i b : ℕ} (hi : i < g.nsets)
    (hb : b < g.assoc) (h : ∀ j a, ¬ (j = i ∧ a = b) → (line' j a).valid = (line j a).valid) :
    occupied g line' + (line i b).valid.toNat = occupied g line + (line' i b).valid.toNat := by
  have hset : ∑ a ∈ Finset.range g.assoc, (line' i a).valid.toNat + (line i b).valid.toNat =
      ∑ a ∈ Finset.range g.assoc, (line i a).valid.toNat + (line' i b).valid.toNat :=
    sum_add_eq (f := fun a => (line i a).valid.toNat) hb fun a ha =>
      congrArg Bool.toNat (h i a fun hn => ha hn.2)
  have hall : occupied g line' + ∑ a ∈ Finset.range g.assoc, (line i a).valid.toNat =
      occupied g line + ∑ a ∈ Finset.range g.assoc, (line' i a).valid.toNat :=
    sum_add_eq (f := fun j => ∑ a ∈ Finset.range g.assoc, (line j a).valid.toNat) hi fun j hj =>
      Finset.sum_congr rfl fun a _ => congrArg Bool.toNat (h j a fun hn => hj hn.1)
  omega

section Ways

variable {ε M : Type} {g : Params} {fn : Handler ε M} {c c' : Ways} {w w' : Shared × M}
  {cmd : MemCmd} {addr : Addr} {prefetch : Bool} {i b : ℕ}

/-- The number of valid blocks in a cache without links. -/
def Ways.occupied (g : Params) (c : Ways) : ℕ := CacheSim.occupied g fun i b => (c.sets i).line b

/-- One block of a set changes. -/
theorem Ways.occupied_update {v : WaySet} {line : Line} (hi : i < g.nsets) (hb : b < g.assoc)
    (hsets : c'.sets = Function.update c.sets i v)
    (hline : ∀ a, v.line a = if a = b then line else (c.sets i).line a) :
    c'.occupied g + ((c.sets i).line b).valid.toNat = c.occupied g + line.valid.toNat := by
  have hnew : (c'.sets i).line b = line := by
    rw [hsets, Function.update_self, hline, if_pos rfl]
  have hother : ∀ j a, ¬ (j = i ∧ a = b) → ((c'.sets j).line a).valid =
    ((c.sets j).line a).valid := by
    intro j a hja
    rw [hsets]
    by_cases hj : j = i
    · subst hj
      rw [Function.update_self, hline, if_neg fun ha => hja ⟨rfl, ha⟩]
    · rw [Function.update_of_ne hj]
  rw [← hnew]
  exact occupied_add_eq hi hb hother

theorem Ways.occupied_hit (hf : (c.sets (g.set addr)).Hits g addr b) :
    (c.hit g cmd addr prefetch b).occupied g = c.occupied g := by
  have h : (c.hit g cmd addr prefetch b).occupied g + ((c.sets (g.set addr)).line b).valid.toNat =
      c.occupied g + (((c.sets (g.set addr)).line b).touch cmd).valid.toNat :=
    Ways.occupied_update (g.set_lt addr) hf.lt rfl fun a => WaySet.line_touched cmd
  exact Nat.add_right_cancel h

theorem Ways.occupied_replaces {v : WaySet} (hr : Replaces g fn cmd addr prefetch c w c' w' b v) :
    c'.occupied g + ((c.sets (g.set addr)).line b).valid.toNat = c.occupied g + 1 := by
  obtain ⟨ready, hsets, hline⟩ := hr.sets_line
  exact Ways.occupied_update (g.set_lt addr) hr.chosen.lt hsets hline

theorem Ways.occupied_drop (hi : i < g.nsets) (hb : b < g.assoc)
    (hv : ((c.sets i).line b).valid = true) : (c.drop i b).occupied g + 1 = c.occupied g := by
  have h : (c.drop i b).occupied g + ((c.sets i).line b).valid.toNat = c.occupied g + false.toNat :=
    Ways.occupied_update hi hb rfl fun a => WaySet.line_setLine
      { (c.sets i).line b with valid := false }
  rw [hv] at h
  exact h

theorem Ways.occupied_moveTail : (c.moveTail i b).occupied g = c.occupied g := by
  refine congrArg (CacheSim.occupied g) (funext fun j => funext fun a => ?_)
  change (Function.update c.sets i ((c.sets i).toTail b) j).line a = _
  by_cases hj : j = i
  · subst hj
    rw [Function.update_self]
    rfl
  · rw [Function.update_of_ne hj]

/-! ### Hits and misses -/

/-- The accesses that are not prefetches. -/
def demand (_ : MemCmd) (prefetch : Bool) : Bool := !prefetch

/-- The reads that are not prefetches. -/
def demandRead (cmd : MemCmd) (prefetch : Bool) : Bool := decide (cmd = .Read) && !prefetch

/-- **The hits and misses are those of some accesses**, since the counters had other values. -/
structure Counted (st₀ : Stats) (es : List Event) (st : Stats) : Prop where
  demand : st.hits + st.misses = st₀.hits + st₀.misses + es.countP (Event.accesses CacheSim.demand)
  read : st.readHits + st.readMisses =
    st₀.readHits + st₀.readMisses + es.countP (Event.accesses demandRead)
  prefetch : st.prefetchHits + st.prefetchMisses =
    st₀.prefetchHits + st₀.prefetchMisses + es.countP (Event.accesses fun _ prefetch => prefetch)

theorem Counted.refl (st : Stats) : Counted st [] st := ⟨rfl, rfl, rfl⟩

section Counted

variable {st₀ st : Stats} {es : List Event} {found : Bool}

/-- What a hit adds to the counters. -/
theorem Stats.hit_sums (cmd : MemCmd) (prefetch : Bool) (st : Stats) :
    (st.hit cmd prefetch).hits + (st.hit cmd prefetch).misses =
      st.hits + st.misses + (CacheSim.demand cmd prefetch).toNat ∧
    (st.hit cmd prefetch).readHits + (st.hit cmd prefetch).readMisses =
      st.readHits + st.readMisses + (demandRead cmd prefetch).toNat ∧
    (st.hit cmd prefetch).prefetchHits + (st.hit cmd prefetch).prefetchMisses =
      st.prefetchHits + st.prefetchMisses + prefetch.toNat := by
  unfold Stats.hit demandRead CacheSim.demand
  cases prefetch <;> cases cmd <;> simp <;> omega

/-- What a miss adds to the counters. -/
theorem Stats.miss_sums (cmd : MemCmd) (prefetch : Bool) (st : Stats) :
    (st.miss cmd prefetch).hits + (st.miss cmd prefetch).misses =
      st.hits + st.misses + (CacheSim.demand cmd prefetch).toNat ∧
    (st.miss cmd prefetch).readHits + (st.miss cmd prefetch).readMisses =
      st.readHits + st.readMisses + (demandRead cmd prefetch).toNat ∧
    (st.miss cmd prefetch).prefetchHits + (st.miss cmd prefetch).prefetchMisses =
      st.prefetchHits + st.prefetchMisses + prefetch.toNat := by
  unfold Stats.miss demandRead CacheSim.demand
  cases prefetch <;> cases cmd <;> simp <;> omega

/-- One more access. -/
theorem Counted.access (h : Counted st₀ es st) {st' : Stats}
    (hst : st'.hits + st'.misses = st.hits + st.misses + (CacheSim.demand cmd prefetch).toNat ∧
      st'.readHits + st'.readMisses =
        st.readHits + st.readMisses + (demandRead cmd prefetch).toNat ∧
      st'.prefetchHits + st'.prefetchMisses =
        st.prefetchHits + st.prefetchMisses + prefetch.toNat) :
    Counted st₀ (es ++ [.access ⟨cmd, addr, prefetch, found⟩]) st' := by
  have hcount : ∀ q : MemCmd → Bool → Bool,
      (es ++ [Event.access ⟨cmd, addr, prefetch, found⟩]).countP (Event.accesses q) =
        es.countP (Event.accesses q) + (q cmd prefetch).toNat := by
    intro q
    rw [List.countP_append, List.countP_cons, List.countP_nil]
    change _ + (0 + if q cmd prefetch = true then 1 else 0) = _
    cases q cmd prefetch <;> rfl
  obtain ⟨h₁, h₂, h₃⟩ := hst
  refine ⟨?_, ?_, ?_⟩
  · rw [hcount, h₁, h.demand, Nat.add_assoc]
  · rw [hcount, h₂, h.read, Nat.add_assoc]
  · rw [hcount, h₃, h.prefetch, Nat.add_assoc]

theorem Counted.replace (h : Counted st₀ es st) (dirty : Bool) :
    Counted st₀ es (st.replace dirty) :=
  ⟨h.demand, h.read, h.prefetch⟩

theorem Counted.invalidate (h : Counted st₀ es st) (dirty : Bool) :
    Counted st₀ es (st.invalidate dirty) :=
  ⟨h.demand, h.read, h.prefetch⟩

/-- An event that is not an access. -/
theorem Counted.silent (h : Counted st₀ es st) {e : Event} (he : ∀ q, e.accesses q = false) :
    Counted st₀ (es ++ [e]) st := by
  have hcount : ∀ q, (es ++ [e]).countP (Event.accesses q) = es.countP (Event.accesses q) := by
    intro q
    rw [List.countP_append, List.countP_cons, he q]
    rfl
  exact ⟨by rw [hcount]; exact h.demand, by rw [hcount]; exact h.read,
    by rw [hcount]; exact h.prefetch⟩

/-- **Hits and misses are counted by all operations.** -/
theorem keeps_counted (st₀ : Stats) :
    Keeps g (Ways.store g fn) fun es c (_ : M) => c.Ok g ∧ Counted st₀ es c.stats := by
  refine Ways.keeps ?_ ?_ ?_ ?_
  · rintro es c m cmd addr prefetch b hok h hf
    exact h.access (Stats.hit_sums ..)
  · rintro es c c' cmd addr prefetch repl v w w' hok h hf hr
    obtain ⟨w₁, w₂, t, l, _, hback, _⟩ := hr.world
    split at hback
    · rw [hback.1]
      exact (h.access (Stats.miss_sums ..)).replace _
    · rw [hback.1]
      exact h.access (Stats.miss_sums ..)
  · rintro es c c' now lat w w' hok h hr
    refine Counted.silent ?_ fun _ => rfl
    exact (Ways.flush_keeps (Q := fun c _ => Counted st₀ es c.stats)
      (fun _ _ _ _ h _ => h.invalidate _) hok h hr).2
  · rintro es c c' addr now lat w w' hok h hr
    refine Counted.silent ?_ fun _ => rfl
    rcases Ways.flushAddr_ok hr with ⟨_, rfl, _⟩ | ⟨b, _, rfl, _⟩
    · exact h
    · exact h.invalidate _

end Counted

/-! ### The ledger of one cache -/

/-- The balance of one cache: its valid blocks, and its write-backs. -/
structure Balanced (g : Params) (c : Ways) : Prop where
  valid : c.occupied g + c.stats.replacements + c.stats.invalidations =
    c.stats.misses + c.stats.prefetchMisses
  writebacks : c.stats.writebacks ≤ c.stats.replacements + c.stats.invalidations

theorem Balanced.drop (h : Balanced g c) (hi : i < g.nsets) (hb : b < g.assoc)
    (hv : ((c.sets i).line b).valid = true) : Balanced g (c.drop i b) := by
  have hocc := Ways.occupied_drop (g := g) hi hb hv
  have hle := Bool.toNat_le ((c.sets i).line b).dirty
  obtain ⟨h₁, h₂⟩ := h
  constructor
  · change (c.drop i b).occupied g + c.stats.replacements + (c.stats.invalidations + 1) =
      c.stats.misses + c.stats.prefetchMisses
    omega
  · change c.stats.writebacks + ((c.sets i).line b).dirty.toNat ≤
      c.stats.replacements + (c.stats.invalidations + 1)
    omega

theorem Balanced.moveTail (h : Balanced g c) : Balanced g (c.moveTail i b) :=
  ⟨by rw [Ways.occupied_moveTail]; exact h.valid, h.writebacks⟩

theorem Balanced.forget (h : Balanced g c) : Balanced g c.forget := ⟨h.valid, h.writebacks⟩

theorem keeps_balanced :
    Keeps g (Ways.store g fn) fun _ c (_ : M) => c.Ok g ∧ Balanced g c := by
  refine Ways.keeps ?_ ?_ ?_ ?_
  · rintro es c m cmd addr prefetch b hok h hf
    refine ⟨?_, ?_⟩
    · rw [Ways.occupied_hit hf]
      unfold Ways.hit Stats.hit
      cases prefetch <;> exact h.valid
    · unfold Ways.hit Stats.hit
      cases prefetch <;> exact h.writebacks
  · rintro es c c' cmd addr prefetch repl v w w' hok ⟨h₁, h₂⟩ hf hr
    have hocc := Ways.occupied_replaces hr
    have hle := Bool.toNat_le ((c.sets (g.set addr)).line repl).dirty
    obtain ⟨w₁, w₂, t, l, _, hback, _⟩ := hr.world
    split at hback
    · next hv =>
        rw [hv, Bool.toNat_true] at hocc
        constructor
        · rw [hback.1]
          unfold Stats.miss Stats.replace
          cases prefetch <;> simp <;> omega
        · rw [hback.1]
          unfold Stats.miss Stats.replace
          cases prefetch <;> simp <;> omega
    · next hv =>
        rw [Bool.eq_false_of_not_eq_true hv, Bool.toNat_false] at hocc
        constructor
        · rw [hback.1]
          unfold Stats.miss
          cases prefetch <;> simp <;> omega
        · rw [hback.1]
          unfold Stats.miss
          cases prefetch <;> exact h₂
  · rintro es c c' now lat w w' hok h hr
    exact (Ways.flush_keeps (Q := fun c _ => Balanced g c)
      (fun _ hi hb hv h _ => h.drop hi hb hv) hok h.forget hr).2
  · rintro es c c' addr now lat w w' hok h hr
    rcases Ways.flushAddr_ok hr with ⟨_, rfl, _⟩ | ⟨b, hf, rfl, _⟩
    · exact h
    · obtain ⟨hb, _, hv⟩ := (WaySet.find_eq_some (hok.sets _)).1 hf
      exact (h.forget.drop (g.set_lt _) hb hv).moveTail

theorem Balanced.create (g : Params) : Balanced g (Ways.create g) := by
  have hzero : (Ways.create g).occupied g = 0 := by
    unfold Ways.occupied occupied
    exact Finset.sum_eq_zero fun _ _ => Finset.sum_eq_zero fun _ _ => rfl
  exact ⟨by rw [hzero]; rfl, Nat.zero_le _⟩

/-- **The ledger of one cache**, after every sequence of calls. -/
theorem occupancy_ledger (ops : List Op) {es : List Event} {cp : Cache}
    (hr : run g (store g fn) ops (Cache.create g) w = .ok (es, cp, w')) :
    occupied g (fun i b => (cp.sets i).line b) + cp.stats.replacements + cp.stats.invalidations =
      cp.stats.misses + cp.stats.prefetchMisses ∧
    cp.stats.writebacks ≤ cp.stats.replacements + cp.stats.invalidations ∧
    cp.stats.readHits + cp.stats.readMisses = ops.countP (Op.accesses demandRead) := by
  obtain ⟨c, hrel, _, hbal⟩ := run_keeps (cache_storeSim fn) keeps_balanced
    ⟨Ways.Ok.create g, Balanced.create g⟩ hr
  obtain ⟨c', hrel', _, hcount⟩ := run_keeps (cache_storeSim fn) (keeps_counted {})
    ⟨Ways.Ok.create g, Counted.refl {}⟩ hr
  have hocc : occupied g (fun i b => (cp.sets i).line b) = c.occupied g :=
    congrArg (occupied g) (funext fun i => (hrel.sets i).line)
  rw [hocc, ← run_countP (q := demandRead) rfl hr]
  refine ⟨?_, ?_, ?_⟩
  · rw [hrel.stats]
    exact hbal.valid
  · rw [hrel.stats]
    exact hbal.writebacks
  · rw [hrel'.stats, hcount.read]
    exact Nat.zero_add _

/-- Four accesses and two flushes of a small cache with random replacement. -/
theorem occupancy_ledger_six : ∃ es cp w',
    run (.small .Random 1) (store (.small .Random 1) dl2AccessFn)
      [.access .Write 16 4 0 false 0, .access .Read 32 4 1 false 0, .access .Read 48 4 2 false 0,
        .flushAddr 16 3, .access .Read 20 4 4 false 0, .flush 5] (Cache.create (.small .Random 1))
      (.start, ()) = .ok (es, cp, w') ∧
    occupied (.small .Random 1) (fun i b => (cp.sets i).line b) + cp.stats.replacements +
        cp.stats.invalidations = cp.stats.misses + cp.stats.prefetchMisses ∧
      cp.stats.writebacks ≤ cp.stats.replacements + cp.stats.invalidations ∧
      cp.stats.readHits + cp.stats.readMisses = 3 := by
  obtain ⟨⟨es, cp, w'⟩, hr⟩ := exists_ok (x := run (.small .Random 1)
    (store (.small .Random 1) dl2AccessFn)
    [.access .Write 16 4 0 false 0, .access .Read 32 4 1 false 0, .access .Read 48 4 2 false 0,
      .flushAddr 16 3, .access .Read 20 4 4 false 0, .flush 5] (Cache.create (.small .Random 1))
    (.start, ())) (by decide +kernel)
  exact ⟨es, cp, w', hr, occupancy_ledger _ hr⟩

end Ways

/-! ### The ledger of two caches -/

section TwoLevels

variable {ε M : Type} {g g₂ : Params} {fn : Handler ε M} {st : Stats} {cmd : MemCmd} {addr : Addr}
  {prefetch : Bool}

/-- An access to the second level, as its counters show it. -/
theorem dl2_call {dl2 : Cache} {d : Ways} {sh : Shared} {m : M} {n : ℕ} {t : ℤ}
    {x : ℤ × Shared × Cache × M} (hrel : Rel g₂ dl2 d)
    (h : dl1AccessFn g₂ fn cmd addr n t prefetch (sh, dl2, m) = .ok x) :
    (∃ d', Rel g₂ x.2.2.1 d') ∧
    x.2.2.1.stats.hits + x.2.2.1.stats.misses =
      dl2.stats.hits + dl2.stats.misses + (!prefetch).toNat ∧
    (g₂.prefetchType = 0 → x.2.2.1.stats.prefetchHits + x.2.2.1.stats.prefetchMisses =
      dl2.stats.prefetchHits + dl2.stats.prefetchMisses + prefetch.toNat) := by
  obtain ⟨⟨r, dl2', sh', m'⟩, ha, hx⟩ := bind_ok.1 h
  cases hx
  have hsim := (cache_storeSim fn).cacheAccess (g := g₂) hrel cmd addr
    (BitVec.ofNat 32 n) t prefetch
    (sh, m)
  rw [ha] at hsim
  obtain ⟨⟨_, d', _⟩, hd, rfl, hrel', rfl⟩ := hsim.ok
  obtain ⟨_, hcount⟩ := (keeps_counted d.stats).cacheAccess (w := (sh, m))
    ⟨hrel.ok, Counted.refl d.stats⟩ hd
  obtain ⟨hit, more, hacc, hmore, hzero⟩ := cacheAccess_accessed hd
  have hnone : (more.map Event.access).countP (Event.accesses demand) = 0 := by
    rw [List.countP_eq_zero]
    intro e he
    obtain ⟨a, ha, rfl⟩ := List.mem_map.1 he
    simp [Event.accesses, demand, (hmore a ha).2]
  rw [List.nil_append, hacc, List.map_cons] at hcount
  refine ⟨⟨d', hrel'⟩, ?_, fun htype => ?_⟩
  · have hdemand := hcount.demand
    rw [List.countP_cons, hnone, Nat.zero_add, ← hrel.stats, ← hrel'.stats] at hdemand
    rw [hdemand]
    cases prefetch <;> rfl
  · have hprefetch := hcount.prefetch
    rw [hzero htype, List.map_nil, List.countP_cons, List.countP_nil, Nat.zero_add, ← hrel.stats,
      ← hrel'.stats] at hprefetch
    rw [hprefetch]
    cases prefetch <;> rfl

/-- **The accesses of the second level are the misses and the write-backs of the first one.** -/
structure Supplies (g₂ : Params) (dl2 : Cache) (st : Stats) : Prop where
  rel : ∃ d, Rel g₂ dl2 d
  demand : dl2.stats.hits + dl2.stats.misses = st.misses + st.writebacks
  prefetch : g₂.prefetchType = 0 →
    dl2.stats.prefetchHits + dl2.stats.prefetchMisses = st.prefetchMisses

variable {w w' : Shared × Cache × M} {line : Line} {i : ℕ}

/-- A block leaves the first level. -/
theorem Supplies.evicts (h : Supplies g₂ w.2.1 st) (he : Evicts g (dl1AccessFn g₂ fn) i line w w')
    {st' : Stats} (hm : st'.misses = st.misses) (hp : st'.prefetchMisses = st.prefetchMisses)
    (hw : st'.writebacks = st.writebacks + line.dirty.toNat) : Supplies g₂ w'.2.1 st' := by
  unfold Evicts at he
  split at he
  · next hd =>
      rw [hd, Bool.toNat_true] at hw
      obtain ⟨t, l, hfn⟩ := he
      obtain ⟨d, hrel⟩ := h.rel
      obtain ⟨hrel', hdemand, hprefetch⟩ := dl2_call hrel hfn
      refine ⟨hrel', ?_, fun htype => ?_⟩
      · rw [hdemand, h.demand, hm, hw, Nat.add_assoc]
        rfl
      · rw [hprefetch htype, h.prefetch htype, hp]
        rfl
  · next hd =>
      rw [Bool.eq_false_of_not_eq_true hd, Bool.toNat_false, Nat.add_zero] at hw
      rw [he]
      refine ⟨h.rel, ?_, fun htype => ?_⟩
      · rw [h.demand, hm, hw]
      · rw [h.prefetch htype, hp]

theorem Supplies.replace (h : Supplies g₂ w.2.1 st)
    (he : Evicts g (dl1AccessFn g₂ fn) i line w w') : Supplies g₂ w'.2.1 (st.replace line.dirty) :=
  h.evicts he rfl rfl rfl

theorem Supplies.invalidate (h : Supplies g₂ w.2.1 st)
    (he : Evicts g (dl1AccessFn g₂ fn) i line w w') :
    Supplies g₂ w'.2.1 (st.invalidate line.dirty) :=
  h.evicts he rfl rfl rfl

/-- A block is read for the first level. -/
theorem Supplies.miss (h : Supplies g₂ w.2.1 st) {n : ℕ} {t l : ℤ}
    (hfn : dl1AccessFn g₂ fn .Read addr n t prefetch w = .ok (l, w')) (cmd : MemCmd) :
    Supplies g₂ w'.2.1 (st.miss cmd prefetch) := by
  obtain ⟨d, hrel⟩ := h.rel
  obtain ⟨hrel', hdemand, hprefetch⟩ := dl2_call hrel hfn
  refine ⟨hrel', ?_, fun htype => ?_⟩
  · rw [hdemand, h.demand]
    unfold Stats.miss
    cases prefetch
    · exact Nat.add_right_comm st.misses st.writebacks 1
    · rfl
  · rw [hprefetch htype, h.prefetch htype]
    unfold Stats.miss
    cases prefetch <;> rfl

theorem miss_replace (cmd : MemCmd) (prefetch dirty : Bool) :
    (st.miss cmd prefetch).replace dirty = (st.replace dirty).miss cmd prefetch := by
  cases prefetch <;> rfl

theorem keeps_supplies : Keeps g (Ways.store g (dl1AccessFn g₂ fn)) fun _ c m =>
    c.Ok g ∧ Supplies g₂ m.1 c.stats := by
  refine Ways.keeps ?_ ?_ ?_ ?_
  · rintro es c m cmd addr prefetch b hok h hf
    unfold Ways.hit Stats.hit
    cases prefetch <;> exact ⟨h.rel, h.demand, h.prefetch⟩
  · rintro es c c' cmd addr prefetch repl v w w' hok h hf hr
    obtain ⟨w₁, w₂, t, l, hw, hback, hread⟩ := hr.world
    rw [← hw] at h
    split at hback
    · rw [hback.1, miss_replace]
      exact (h.replace hback.2).miss hread cmd
    · obtain ⟨hst, rfl⟩ := hback
      rw [hst]
      exact h.miss hread cmd
  · rintro es c c' now lat w w' hok h hr
    exact (Ways.flush_keeps (Q := fun c m => Supplies g₂ m.1 c.stats)
      (fun _ _ _ _ h he => h.invalidate he) hok h hr).2
  · rintro es c c' addr now lat w w' hok h hr
    rcases Ways.flushAddr_ok hr with ⟨_, rfl, rfl⟩ | ⟨b, _, rfl, he⟩
    · exact h
    · exact h.invalidate he

/-- **The ledger of two caches**, after every sequence of calls to the first one. -/
theorem two_level_ledger (ops : List Op) {es : List Event} {dl1 dl2 : Cache}
    {sh sh' : Shared} {m m' : M}
    (hr : run g (store g (dl1AccessFn g₂ fn)) ops (Cache.create g) (sh, Cache.create g₂, m) =
      .ok (es, dl1, sh', dl2, m')) :
    dl2.stats.hits + dl2.stats.misses = dl1.stats.misses + dl1.stats.writebacks ∧
    (g₂.prefetchType = 0 →
      dl2.stats.prefetchHits + dl2.stats.prefetchMisses = dl1.stats.prefetchMisses) ∧
    dl1.stats.hits + dl1.stats.misses = ops.countP (Op.accesses demand) := by
  obtain ⟨c, hrel, _, h⟩ := run_keeps (cache_storeSim _) keeps_supplies
    ⟨Ways.Ok.create g, ⟨_, Rel.create g₂⟩, rfl, fun _ => rfl⟩ hr
  obtain ⟨c', hrel', _, hcount⟩ := run_keeps (cache_storeSim _) (keeps_counted {})
    ⟨Ways.Ok.create g, Counted.refl {}⟩ hr
  rw [← run_countP (q := demand) rfl hr]
  refine ⟨?_, fun htype => ?_, ?_⟩
  · rw [hrel.stats]
    exact h.demand
  · rw [hrel.stats]
    exact h.prefetch htype
  · rw [hrel'.stats, hcount.demand]
    exact Nat.zero_add _

/-- A small cache with next-line prefetches over one without. -/
theorem two_level_ledger_small : ∃ es dl1 sh dl2 m,
    run (.small .LRU 1) (store (.small .LRU 1) (dl1AccessFn (.small .FIFO 0) dl2AccessFn))
      [.access .Write 16 4 0 false 0, .access .Read 32 4 1 false 0, .access .Read 48 4 2 false 0,
        .flush 3] (Cache.create (.small .LRU 1)) (.start, Cache.create (.small .FIFO 0), ()) =
      .ok (es, dl1, sh, dl2, m) ∧
    dl2.stats.hits + dl2.stats.misses = dl1.stats.misses + dl1.stats.writebacks ∧
      dl2.stats.prefetchHits + dl2.stats.prefetchMisses = dl1.stats.prefetchMisses ∧
      dl1.stats.hits + dl1.stats.misses = 3 := by
  obtain ⟨⟨es, dl1, sh, dl2, m⟩, hr⟩ := exists_ok (x := run (.small .LRU 1)
    (store (.small .LRU 1) (dl1AccessFn (.small .FIFO 0) dl2AccessFn))
    [.access .Write 16 4 0 false 0, .access .Read 32 4 1 false 0, .access .Read 48 4 2 false 0,
      .flush 3] (Cache.create (.small .LRU 1)) (.start, Cache.create (.small .FIFO 0), ()))
    (by decide +kernel)
  obtain ⟨h₁, h₂, h₃⟩ := two_level_ledger _ hr
  exact ⟨es, dl1, sh, dl2, m, hr, h₁, h₂ rfl, h₃⟩

end TwoLevels

end CacheSim
