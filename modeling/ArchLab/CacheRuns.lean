/-
**Rules for sequences of calls.**

A call to a cache consists of few steps: an access up to the generation of a prefetch, at most one
more such access for a block that a prefetcher has picked, or a flush.  What each of these steps
keeps is kept by every sequence of calls (`CacheSim.Keeps.run`); the property may depend on what has
happened to the cache so far and on the state of the miss handler.  For the cache without links the
steps are taken apart once more, into hits, misses and invalidations of blocks.

Main definitions:

* `CacheSim.pick` — the address that a prefetcher picks;
* `CacheSim.Keeps` — a property is kept by all operations of a cache.

Main results:

* `CacheSim.generatePrefetch_eq` — **what the prefetchers have in common**: the block of the address
  they pick is accessed unless it is there;
* `CacheSim.Keeps.run` — properties of sequences of calls;
* `CacheSim.run_countP` — the accesses of a sequence of calls, apart from prefetches;
* `CacheSim.Ways.flush_keeps`, `CacheSim.Ways.flushAddr_ok` — flushes are invalidations of blocks;
* `CacheSim.run_keeps` — properties of a cache with links, from those of the cache without links.
-/

import ArchLab.CacheRefine

set_option relaxedAutoImplicit false
set_option autoImplicit false

namespace CacheSim

open Refine

/-! ### Prefetches -/

/-- The address that a prefetcher with a table picks, if any, and the table afterwards. -/
def pickRpt (g : Params) (size : ℕ) (issues : RptState → Bool) (pc addr : Addr) (r : Rpt) :
    Except RptFault (Rpt × Option Addr) := do
  let (r, e) ← rptAccess size pc addr r
  return (r, if issues e.state then some (g.tagset (e.prevAddr + e.stride)) else none)

/-- The address that the prefetcher of a cache picks after an access, if any. -/
def pick (g : Params) (pc addr : Addr) (r : Rpt) : Except RptFault (Rpt × Option Addr) :=
  match g.prefetchType with
  | 0 => .ok (r, none)
  | 1 => .ok (r, some (addr + BitVec.ofNat 32 g.bsize))
  | 2 => pickRpt g 1024 (fun state => decide (state = .STEADY)) pc addr r
  | size => pickRpt g size (fun state => decide (state ≠ .NOPRED)) pc addr r

section Store

variable {ε M C : Type} {g : Params} {S : Store ε M C}

/-- Prefetch the block of an address unless it is there. -/
def prefetchMissing (g : Params) (S : Store ε M C) (p : Option Addr) (c : C) (w : Shared × M) :
    Except (Fault ε) (List Accessed × C × Shared × M) :=
  match p with
  | none => .ok ([], c, w)
  | some p => do
      if ← S.probe c p then return ([], c, w) else prefetchBlock g S (g.tagset p) c w

theorem prefetchMissing_tagset (a : Addr) (c : C) (w : Shared × M) :
    prefetchMissing g S (some (g.tagset a)) c w = (do
      if ← S.probe c (g.tagset a) then return ([], c, w)
      else prefetchBlock g S (g.tagset a) c w) := by
  simp only [prefetchMissing, g.tagset_tagset]

/-- The prefetchers with a table: the address that they pick is the one of a block. -/
theorem rptPrefetcher_eq (size : ℕ) (issues : RptState → Bool) (addr : Addr) (c : C)
    (w : Shared × M) :
    rptPrefetcher g S size issues addr c w = (do
      let (rpt, p) ← liftRpt (pickRpt g size issues w.1.pc addr w.1.rpt)
      prefetchMissing g S p c ({ w.1 with rpt }, w.2)) := by
  unfold rptPrefetcher pickRpt
  cases rptAccess size w.1.pc addr w.1.rpt with
  | error e => rfl
  | ok x =>
      obtain ⟨rpt, e⟩ := x
      change (if issues e.state = true then _ else _) =
        prefetchMissing g S (if issues e.state = true then _ else _) c _
      by_cases hi : issues e.state = true
      · rw [if_pos hi, if_pos hi, g.sub_offset]
        exact (prefetchMissing_tagset _ c _).symm
      · rw [if_neg hi, if_neg hi]
        rfl

/-- **What the prefetchers have in common**: the block of the address they pick is accessed unless
it is there. -/
theorem generatePrefetch_eq (addr : Addr) (c : C) (w : Shared × M) :
    generatePrefetch g S addr c w = (do
      let (rpt, p) ← liftRpt (pick g w.1.pc addr w.1.rpt)
      prefetchMissing g S p c ({ w.1 with rpt }, w.2)) := by
  unfold generatePrefetch pick stridePrefetcher
  rcases g.prefetchType with _ | _ | _ | n
  · rfl
  · rfl
  · exact rptPrefetcher_eq ..
  · exact rptPrefetcher_eq ..

theorem liftRpt_ok {α : Type} {x : Except RptFault α} {a : α} (h : liftRpt (ε := ε) x = .ok a) :
    x = .ok a := by
  cases x with
  | ok b =>
      cases h
      rfl
  | error e => cases h

theorem StoreSim.prefetchMissing {C' : Type} {bad : Fault ε → Prop} {R : C → C' → Prop}
    {S' : Store ε M C'} {c : C} {c' : C'} (hS : StoreSim bad R S S') (h : R c c') (p : Option Addr)
    (w : Shared × M) :
    Sim bad (Agree R) (prefetchMissing g S p c w) (prefetchMissing g S' p c' w) := by
  cases p with
  | none => exact ⟨rfl, h, rfl⟩
  | some p => exact hS.prefetch h p (g.tagset p) w

/-! ### Properties of sequences of calls -/

/-- What is kept by all operations of a cache, given what has happened so far. -/
structure Keeps (g : Params) (S : Store ε M C) (P : List Event → C → M → Prop) : Prop where
  access : ∀ {es c w cmd addr nbytes now prefetch e c' w'}, P es c w.2 →
    S.access cmd addr nbytes now prefetch c w = .ok (e, c', w') →
    P (es ++ [.access ⟨cmd, addr, prefetch, e.isHit⟩]) c' w'.2
  flush : ∀ {es c w now lat c' w'}, P es c w.2 → S.flush now c w = .ok (lat, c', w') →
    P (es ++ [.flush]) c' w'.2
  flushAddr : ∀ {es c w addr now lat c' w'}, P es c w.2 →
    S.flushAddr addr now c w = .ok (lat, c', w') → P (es ++ [.flushAddr addr]) c' w'.2

variable {P : List Event → C → M → Prop} {es es' : List Event} {as : List Accessed} {c c' : C}
  {w w' : Shared × M} {addr : Addr}

theorem Keeps.prefetchMissing (hS : Keeps g S P) {p : Option Addr} (h : P es c w.2)
    (hr : prefetchMissing g S p c w = .ok (as, c', w')) : P (es ++ as.map .access) c' w'.2 := by
  cases p with
  | none =>
      cases hr
      rwa [List.map_nil, List.append_nil]
  | some p =>
      obtain ⟨hit, _, hr⟩ := bind_ok.1 hr
      cases hit with
      | true =>
          cases hr
          rwa [List.map_nil, List.append_nil]
      | false =>
          obtain ⟨⟨e, c₁, w₁⟩, ha, hr⟩ := bind_ok.1 hr
          cases hr
          exact hS.access h ha

/-- An access with its prefetch. -/
theorem Keeps.cacheAccess (hS : Keeps g S P) {cmd : MemCmd} {nbytes : Addr} {now : ℤ}
    {prefetch : Bool} {r : Result} (h : P es c w.2)
    (hr : cacheAccess g S cmd addr nbytes now prefetch c w = .ok (r, c', w')) :
    P (es ++ r.accessed.map .access) c' w'.2 := by
  obtain ⟨⟨e, c₁, w₁⟩, ha, hr⟩ := bind_ok.1 hr
  have h₁ := hS.access h ha
  cases prefetch with
  | true =>
      cases hr
      cases e <;> exact h₁
  | false =>
      obtain ⟨⟨more, c₂, w₂⟩, hp, hr⟩ := bind_ok.1 hr
      cases hr
      rw [generatePrefetch_eq] at hp
      obtain ⟨⟨rpt, p⟩, _, hp⟩ := bind_ok.1 hp
      have h₂ := hS.prefetchMissing (w := ({ w₁.1 with rpt }, w₁.2)) h₁ hp
      rw [List.append_assoc] at h₂
      cases e <;> exact h₂

theorem Keeps.perform (hS : Keeps g S P) {op : Op} (h : P es c w.2)
    (hr : perform g S c w op = .ok (es', c', w')) :
    P (es ++ es') c' w'.2 := by
  cases op with
  | access cmd addr nbytes now prefetch pc =>
      obtain ⟨⟨r, c₁, w₁⟩, ha, hr⟩ := bind_ok.1 hr
      cases hr
      exact hS.cacheAccess (w := ({ w.1 with pc }, w.2)) h ha
  | flush now =>
      obtain ⟨⟨lat, c₁, w₁⟩, ha, hr⟩ := bind_ok.1 hr
      cases hr
      exact hS.flush h ha
  | flushAddr addr now =>
      obtain ⟨⟨lat, c₁, w₁⟩, ha, hr⟩ := bind_ok.1 hr
      cases hr
      exact hS.flushAddr h ha

/-- **What all operations keep is kept by every sequence of calls.** -/
theorem Keeps.run (hS : Keeps g S P) {ops : List Op} {es es' : List Event} {c c' : C}
    {w w' : Shared × M}
    (h : P es c w.2) (hr : run g S ops c w = .ok (es', c', w')) : P (es ++ es') c' w'.2 := by
  induction ops generalizing es es' c w with
  | nil =>
      cases hr
      rwa [List.append_nil]
  | cons op ops ih =>
      obtain ⟨⟨es₁, c₁, w₁⟩, h₁, hr⟩ := bind_ok.1 hr
      obtain ⟨⟨es₂, c₂, w₂⟩, h₂, hr⟩ := bind_ok.1 hr
      cases hr
      rw [← List.append_assoc]
      exact ih (hS.perform h h₁) h₂

/-- The calls of `cache_access` with a command and a prefetch flag of some kind, among the
events. -/
def Event.accesses (q : MemCmd → Bool → Bool) : Event → Bool
  | .access a => q a.cmd a.prefetch
  | _ => false

/-- The same among the calls themselves. -/
def Op.accesses (q : MemCmd → Bool → Bool) : Op → Bool
  | .access cmd _ _ _ prefetch _ => q cmd prefetch
  | _ => false

theorem prefetchMissing_accessed {p : Option Addr}
    (hr : prefetchMissing g S p c w = .ok (as, c', w')) :
    ∀ a ∈ as, a.cmd = .Read ∧ a.prefetch = true := by
  cases p with
  | none =>
      cases hr
      exact nofun
  | some p =>
      obtain ⟨hit, _, hr⟩ := bind_ok.1 hr
      cases hit with
      | true =>
          cases hr
          exact nofun
      | false =>
          obtain ⟨⟨e, c₁, w₁⟩, ha, hr⟩ := bind_ok.1 hr
          cases hr
          intro a ha
          rw [List.mem_singleton.1 ha]
          exact ⟨rfl, rfl⟩

/-- The calls of `cache_access` in an access are itself and prefetches. -/
theorem cacheAccess_accessed {cmd : MemCmd} {nbytes : Addr} {now : ℤ} {prefetch : Bool} {r : Result}
    (hr : cacheAccess g S cmd addr nbytes now prefetch c w = .ok (r, c', w')) :
    ∃ hit more, r.accessed = ⟨cmd, addr, prefetch, hit⟩ :: more ∧
      (∀ a ∈ more, a.cmd = .Read ∧ a.prefetch = true) ∧ (g.prefetchType = 0 → more = []) := by
  obtain ⟨⟨e, c₁, w₁⟩, ha, hr⟩ := bind_ok.1 hr
  cases prefetch with
  | true =>
      cases hr
      exact ⟨e.isHit, [], by cases e <;> rfl, nofun, fun _ => rfl⟩
  | false =>
      obtain ⟨⟨more, c₂, w₂⟩, hp, hr⟩ := bind_ok.1 hr
      cases hr
      rw [generatePrefetch_eq] at hp
      obtain ⟨⟨rpt, p⟩, hpick, hp⟩ := bind_ok.1 hp
      refine ⟨e.isHit, more, by cases e <;> rfl, prefetchMissing_accessed hp, fun hzero => ?_⟩
      unfold pick at hpick
      rw [hzero] at hpick
      cases hpick
      cases hp
      rfl

/-- The accesses of a single call. -/
theorem perform_countP {q : MemCmd → Bool → Bool} (hq : q .Read true = false) {op : Op}
    {es : List Event} (hr : perform g S c w op = .ok (es, c', w')) :
    es.countP (Event.accesses q) = if Op.accesses q op then 1 else 0 := by
  cases op with
  | access cmd addr nbytes now prefetch pc =>
      obtain ⟨⟨r, c₁, w₁⟩, ha, hr⟩ := bind_ok.1 hr
      cases hr
      obtain ⟨hit, more, hacc, hmore, _⟩ := cacheAccess_accessed ha
      have hnone : (more.map Event.access).countP (Event.accesses q) = 0 := by
        rw [List.countP_eq_zero]
        intro e he
        obtain ⟨a, ha, rfl⟩ := List.mem_map.1 he
        obtain ⟨hc, hp⟩ := hmore a ha
        simp [Event.accesses, hc, hp, hq]
      rw [hacc, List.map_cons, List.countP_cons, hnone, Nat.zero_add]
      rfl
  | flush now =>
      obtain ⟨⟨lat, c₁, w₁⟩, _, hr⟩ := bind_ok.1 hr
      cases hr
      rfl
  | flushAddr addr now =>
      obtain ⟨⟨lat, c₁, w₁⟩, _, hr⟩ := bind_ok.1 hr
      cases hr
      rfl

/-- **The accesses of a sequence of calls** are those that have been asked for, apart from
prefetches. -/
theorem run_countP {q : MemCmd → Bool → Bool} (hq : q .Read true = false) {ops : List Op}
    {es : List Event} (hr : run g S ops c w = .ok (es, c', w')) :
    es.countP (Event.accesses q) = ops.countP (Op.accesses q) := by
  induction ops generalizing es c w with
  | nil =>
      cases hr
      rfl
  | cons op ops ih =>
      obtain ⟨⟨es₁, c₁, w₁⟩, h₁, hr⟩ := bind_ok.1 hr
      obtain ⟨⟨es₂, c₂, w₂⟩, h₂, hr⟩ := bind_ok.1 hr
      cases hr
      have hop := perform_countP hq h₁
      have hrest := ih h₂
      rw [List.countP_append, List.countP_cons, hop, hrest, Nat.add_comm]

end Store

/-! ### The cache without links -/

section Ways

variable {ε M : Type} {g : Params} {fn : Handler ε M} {c c' : Ways} {w w' : Shared × M}
  {addr : Addr} {now lat : ℤ} {i b : ℕ}

namespace Ways

/-- A miss. -/
theorem Ok.replaces (h : c.Ok g) {cmd : MemCmd} {prefetch : Bool} {v : WaySet}
    (hf : (c.sets (g.set addr)).find (g.tag addr) = none)
    (hr : Replaces g fn cmd addr prefetch c w c' w' b v) : c'.Ok g := by
  obtain ⟨ready, hsets⟩ := hr.sets
  have hok := hr.chosen.ok (h.sets _)
  have hv : v.find (filled g cmd addr ready).tag = none := by
    rw [WaySet.find_eq_none hok, hr.chosen.line]
    exact (WaySet.find_eq_none (h.sets _)).1 hf
  refine ⟨fun j => ?_, LastOk.of_none hr.last⟩
  rw [hsets]
  exact sets_update h.sets (hok.fill hv) j

/-- A block is invalidated. -/
def drop (c : Ways) (i b : ℕ) : Ways :=
  { c.setSet i ((c.sets i).setLine b { (c.sets i).line b with valid := false }) with
    stats := c.stats.invalidate ((c.sets i).line b).dirty }

/-- A block is moved to the tail of its set. -/
def moveTail (c : Ways) (i b : ℕ) : Ways := c.setSet i ((c.sets i).toTail b)

theorem Ok.drop (h : c.Ok g) (hlast : c.last = none) (hb : b < g.assoc) : (c.drop i b).Ok g :=
  ⟨sets_update h.sets ((h.sets i).drop hb), LastOk.of_none hlast⟩

theorem Ok.moveTail (h : c.Ok g) (hlast : c.last = none) (hb : b < g.assoc) :
    (c.moveTail i b).Ok g :=
  ⟨sets_update h.sets ((h.sets i).toTail hb), LastOk.of_none hlast⟩

/-- The cache while a set is being flushed. -/
def flushing (c : Ways) (i : ℕ) (v : WaySet) (st : Stats) : Ways :=
  { c.setSet i v with stats := st }

theorem flushing_self (c : Ways) (i : ℕ) : c.flushing i (c.sets i) c.stats = c := by
  unfold flushing setSet
  rw [Function.update_eq_self]

theorem drop_flushing {v : WaySet} {st : Stats} : (c.flushing i v st).drop i b =
    c.flushing i (v.setLine b { v.line b with valid := false })
    (st.invalidate (v.line b).dirty) := by
  unfold drop flushing setSet
  simp only [Function.update_self, Function.update_idem]

/-- Flushing a set is a sequence of invalidations of valid blocks. -/
theorem flushSet_keeps {Q : Ways → M → Prop} {x : Ways × ℤ × Shared × M}
    (hdrop : ∀ {c : Ways} {i b : ℕ} {w w' : Shared × M}, c.Ok g → i < g.nsets → b < g.assoc →
      ((c.sets i).line b).valid = true → Q c w.2 → Evicts g fn i ((c.sets i).line b) w w' →
      Q (c.drop i b) w'.2)
    (hi : i < g.nsets) (hok : c.Ok g) (hlast : c.last = none) (h : Q c w.2)
    (hr : flushSet g fn now (c, lat, w) i = .ok x) :
    x.1.Ok g ∧ x.1.last = none ∧ Q x.1 x.2.2.2 := by
  obtain ⟨⟨v, lat₁, st, w₁⟩, hs, he⟩ := bind_ok.1 hr
  cases he
  have hfold : (c.flushing i v st).Ok g ∧ Q (c.flushing i v st) w₁.2 := by
    refine foldlM_ok (P := fun x => (c.flushing i x.1 x.2.2.1).Ok g ∧
      Q (c.flushing i x.1 x.2.2.1) x.2.2.2.2) ?_ ?_ hs
    · rintro b hb ⟨v, lat, st, w⟩ x ⟨hok', h⟩ hx
      have hlt := (hok.sets i).mem.1 hb
      obtain ⟨⟨line, lat', st', w'⟩, hl, hx⟩ := bind_ok.1 hx
      cases hx
      have hv : (c.flushing i v st).sets i = v := Function.update_self ..
      unfold flushLine at hl
      split at hl
      · next hvalid =>
          obtain ⟨rfl, rfl, hev⟩ := invalidate_ok hl
          change (c.flushing i _ _).Ok g ∧ Q (c.flushing i _ _) _
          rw [← drop_flushing]
          refine ⟨hok'.drop hlast hlt, hdrop hok' hi hlt ?_ h ?_⟩
          · rwa [hv]
          · rwa [hv]
      · cases hl
        change (c.flushing i (v.setLine b (v.line b)) st).Ok g ∧
          Q (c.flushing i (v.setLine b (v.line b)) st) _
        unfold WaySet.setLine
        rw [Function.update_eq_self]
        exact ⟨hok', h⟩
    · rw [flushing_self]
      exact ⟨hok, h⟩
  exact ⟨hfold.1, hlast, hfold.2⟩

/-- **Flushing the cache** is a sequence of invalidations of valid blocks, after the last block has
been forgotten. -/
theorem flush_keeps {Q : Ways → M → Prop}
    (hdrop : ∀ {c : Ways} {i b : ℕ} {w w' : Shared × M}, c.Ok g → i < g.nsets → b < g.assoc →
      ((c.sets i).line b).valid = true → Q c w.2 → Evicts g fn i ((c.sets i).line b) w w' →
      Q (c.drop i b) w'.2)
    (hok : c.Ok g) (h : Q c.forget w.2) (hr : c.flush g fn now w = .ok (lat, c', w')) :
    c'.Ok g ∧ Q c' w'.2 := by
  obtain ⟨⟨c₁, lat₁, w₁⟩, hr, he⟩ := bind_ok.1 hr
  cases he
  have hfold : c'.Ok g ∧ c'.last = none ∧ Q c' w'.2 := by
    refine foldlM_ok (P := fun x => x.1.Ok g ∧ x.1.last = none ∧ Q x.1 x.2.2.2) ?_
      ⟨hok.forget, rfl, h⟩ hr
    rintro i hi ⟨c, lat, w⟩ x ⟨hok, hlast, h⟩ hs
    exact flushSet_keeps hdrop (List.mem_range.1 hi) hok hlast h hs
  exact ⟨hfold.1, hfold.2.2⟩

/-- After a set has been flushed, none of its blocks is valid, and the other sets have not
changed. -/
theorem flushSet_invalid {x : Ways × ℤ × Shared × M} (hok : c.Ok g)
    (hr : flushSet g fn now (c, lat, w) i = .ok x) :
    (∀ b < g.assoc, ((x.1.sets i).line b).valid = false) ∧ ∀ j ≠ i, x.1.sets j = c.sets j := by
  obtain ⟨⟨v, lat₁, st, w₁⟩, hs, he⟩ := bind_ok.1 hr
  cases he
  refine ⟨fun b hb => ?_, fun j hj => Function.update_of_ne hj ..⟩
  change ((Function.update c.sets i v i).line b).valid = false
  rw [Function.update_self]
  have hblk : ∀ b y y', flushBlk g fn now i y b = .ok y' →
      y'.1 = y.1.setLine b { y.1.line b with valid := false } := by
    rintro b ⟨v, lat, st, w⟩ y' hy
    obtain ⟨⟨line, lat', st', w'⟩, hl, hx⟩ := bind_ok.1 hy
    cases hx
    rw [← flushLine_line hl]
  refine foldlM_each (I := fun _ => True) (P := fun b y => (y.1.line b).valid = false) ?_ ?_
    trivial hs b
    ((hok.sets i).mem.2 hb)
  · intro b _ y y' _ hy
    rw [hblk b y y' hy, WaySet.line_setLine, if_pos rfl]
    exact ⟨trivial, rfl⟩
  · intro b _ d _ y y' _ hv hy
    rw [hblk d y y' hy, WaySet.line_setLine]
    split
    · rfl
    · exact hv

/-- **After a flush no block is valid.** -/
theorem flush_invalid (hok : c.Ok g) (hr : c.flush g fn now w = .ok (lat, c', w')) :
    ∀ i < g.nsets, ∀ b < g.assoc, ((c'.sets i).line b).valid = false := by
  obtain ⟨⟨c₁, lat₁, w₁⟩, hr, he⟩ := bind_ok.1 hr
  cases he
  intro i hi
  refine foldlM_each (I := fun x => x.1.Ok g ∧ x.1.last = none)
    (P := fun i x => ∀ b < g.assoc, ((x.1.sets i).line b).valid = false) ?_ ?_ ⟨hok.forget, rfl⟩
    hr i (List.mem_range.2 hi)
  · rintro i hi ⟨c, lat, w⟩ x ⟨hok, hlast⟩ hs
    obtain ⟨hok', hlast', -⟩ := flushSet_keeps (Q := fun _ _ => True) (fun _ _ _ _ _ _ => trivial)
      (List.mem_range.1 hi) hok hlast trivial hs
    exact ⟨⟨hok', hlast'⟩, (flushSet_invalid hok hs).1⟩
  · rintro i _ j _ ⟨c, lat, w⟩ x ⟨hok, _⟩ hi hs
    obtain ⟨hj, hother⟩ := flushSet_invalid hok hs
    by_cases hij : i = j
    · subst hij
      exact hj
    · rw [hother i hij]
      exact hi

/-- **Flushing a block** is an invalidation, after which the block is moved to the tail; the last
block is forgotten. -/
theorem flushAddr_ok (hr : c.flushAddr g fn addr now w = .ok (lat, c', w')) :
    (((c.sets (g.set addr)).find (g.tag addr) = none ∧ c' = c ∧ w' = w) ∨
    ∃ b, (c.sets (g.set addr)).find (g.tag addr) = some b ∧
      c' = (c.forget.drop (g.set addr) b).moveTail (g.set addr) b ∧
      Evicts g fn (g.set addr) ((c.sets (g.set addr)).line b) w w') := by
  unfold flushAddr at hr
  cases hf : (c.sets (g.set addr)).find (g.tag addr) with
  | none =>
      simp only [hf] at hr
      cases hr
      exact .inl ⟨rfl, rfl, rfl⟩
  | some b =>
      simp only [hf] at hr
      obtain ⟨⟨line, lat₁, st, w₁⟩, hinv, hr⟩ := bind_ok.1 hr
      cases hr
      obtain ⟨rfl, rfl, hev⟩ := invalidate_ok hinv
      refine .inr ⟨b, rfl, ?_, hev⟩
      unfold moveTail drop setSet forget
      simp only [Function.update_self, Function.update_idem]

theorem Ok.flushAddr (hok : c.Ok g) (hr : c.flushAddr g fn addr now w = .ok (lat, c', w')) :
    c'.Ok g := by
  rcases flushAddr_ok hr with ⟨_, rfl, _⟩ | ⟨b, hf, rfl, _⟩
  · exact hok
  · have hb := ((WaySet.find_eq_some (hok.sets _)).1 hf).1
    exact (hok.forget.drop rfl hb).moveTail rfl hb

/-- **Properties of the cache without links**: what is kept by hits, misses and flushes, if all sets
are in order. -/
theorem keeps {P : List Event → Ways → M → Prop}
    (hhit : ∀ {es c m cmd addr prefetch b}, c.Ok g → P es c m →
      (c.sets (g.set addr)).Hits g addr b →
      P (es ++ [.access ⟨cmd, addr, prefetch, true⟩]) (c.hit g cmd addr prefetch b) m)
    (hmiss : ∀ {es c c' cmd addr prefetch repl v} {w w' : Shared × M}, c.Ok g → P es c w.2 →
      (c.sets (g.set addr)).find (g.tag addr) = none →
      Replaces g fn cmd addr prefetch c w c' w' repl v →
      P (es ++ [.access ⟨cmd, addr, prefetch, false⟩]) c' w'.2)
    (hflush : ∀ {es c c' now lat} {w w' : Shared × M}, c.Ok g → P es c w.2 →
      c.flush g fn now w = .ok (lat, c', w') → P (es ++ [.flush]) c' w'.2)
    (hflushAddr : ∀ {es c c' addr now lat} {w w' : Shared × M}, c.Ok g → P es c w.2 →
      c.flushAddr g fn addr now w = .ok (lat, c', w') → P (es ++ [.flushAddr addr]) c' w'.2) :
    Keeps g (Ways.store g fn) fun es c m => c.Ok g ∧ P es c m where
  access := by
    rintro es c w cmd addr nbytes now prefetch e c' w' ⟨hok, h⟩ hr
    rcases Ways.access_ok hok hr with ⟨b, hf, he, rfl, rfl⟩ | ⟨hf, he, repl, v, hrep⟩
    · rw [he]
      exact ⟨hok.hit hf, hhit hok h hf⟩
    · rw [he]
      exact ⟨hok.replaces hf hrep, hmiss hok h hf hrep⟩
  flush := by
    rintro es c w now lat c' w' ⟨hok, h⟩ hr
    exact ⟨(flush_keeps (Q := fun _ _ => True) (fun _ _ _ _ _ _ => trivial) hok trivial hr).1,
      hflush hok h hr⟩
  flushAddr := by
    rintro es c w addr now lat c' w' ⟨hok, h⟩ hr
    exact ⟨hok.flushAddr hr, hflushAddr hok h hr⟩

end Ways

/-- **Properties of a cache with links**, from those of the cache without links that it refines. -/
theorem run_keeps {S : Store ε M Cache} {S' : Store ε M Ways} {P : List Event → Ways → M → Prop}
    {ops : List Op} {es : List Event} {cp : Cache} (hS : StoreSim isNull (Rel g) S S')
    (hP : Keeps g S' P) (h₀ : P [] (Ways.create g) w.2)
    (hr : run g S ops (Cache.create g) w = .ok (es, cp, w')) : ∃ c, Rel g cp c ∧ P es c w'.2 := by
  have hsim : Sim isNull (Agree (Rel g)) (run g S ops (Cache.create g) w)
      (run g S' ops (Ways.create g) w) := hS.run (Rel.create g)
  rw [hr] at hsim
  obtain ⟨⟨_, c, _⟩, hc, rfl, hrel, rfl⟩ := hsim.ok
  exact ⟨c, hrel, hP.run h₀ hc⟩

end Ways

/-! ### A small cache -/

/-- Two sets of two blocks of eight bytes each. -/
def Params.small (policy : CachePolicy) (prefetchType : ℕ) : Params where
  nsets := 2
  bsize := 8
  assoc := 2
  policy := policy
  hitLatency := 1
  prefetchType := prefetchType
  undef := .masked
  nsets_pow := ⟨1, rfl⟩
  nsets_lt := by decide
  bsize_pow := ⟨3, rfl⟩
  bsize_ge := by decide
  bsize_lt := by decide
  assoc_pow := ⟨1, rfl⟩
  assoc_lt := by decide

/-- Four sets of two blocks of a gigabyte each, which take up all 32 bits of an address, on a
machine that takes shifts modulo 32. -/
def Params.wide (prefetchType : ℕ) : Params where
  nsets := 2 ^ 2
  bsize := 2 ^ 30
  assoc := 2
  policy := .LRU
  hitLatency := 1
  prefetchType := prefetchType
  undef := .masked
  nsets_pow := ⟨2, rfl⟩
  nsets_lt := by decide
  bsize_pow := ⟨30, rfl⟩
  bsize_ge := by decide
  bsize_lt := by decide
  assoc_pow := ⟨1, rfl⟩
  assoc_lt := by decide

/-- The start of a program. -/
def Shared.start : Shared := ⟨Rpt.unused, 0, fun _ => 0⟩

end CacheSim
