/-
**A larger LRU cache never misses more.**

Two caches with LRU replacement and blocks of one size, neither of which prefetches, are given the
same calls.  The second one has at least as many sets and at least as many blocks in a set.  Then
every block in the first cache is in the second one at all times, and every access that is a hit in
the first cache is a hit in the second one, so that none of the counters of misses of the second
cache is ever ahead.  With a FIFO policy this fails, since a hit in the larger cache leaves a block
where it is, and a miss in the smaller one makes it the youngest.

The number of sets enters through the bits that select the set: with more sets, the sets of the
first cache are split.  The comparison itself is that of LRU stacks in `ArchLab/Lru.lean`, for the
addresses of blocks in place of tags.

Main definitions:

* `CacheSim.Event.request` — what an event does to the blocks of a cache;
* `CacheSim.Blocks` — the lists of tags are those of lists of blocks.

Main results:

* `CacheSim.Blocks.after` — **the reference is an LRU stack**;
* `CacheSim.lru_inclusion` — **a larger LRU cache never misses more**.
-/

import ArchLab.Lru
import ArchLab.CacheReference
import ArchLab.CacheLedger

set_option relaxedAutoImplicit false
set_option autoImplicit false

namespace CacheSim

open Refine

/-! ### The reference as a stack -/

/-- What an event does to the blocks of a cache. -/
def Event.request (g : Params) : Event → Lru.Request Addr
  | .access a => .use (g.tagset a.addr)
  | .flush => .clear
  | .flushAddr addr => .remove (g.tagset addr)

/-- The tags of each set are those of a list of blocks of the set. -/
def Blocks (g : Params) (R : ℕ → List Addr) (r : Reference) : Prop :=
  ∀ i, r i = (R i).map g.tag ∧ (R i).length ≤ g.assoc ∧ ∀ b ∈ R i, g.set b = i ∧ g.tagset b = b

namespace Blocks

variable {g : Params} {R : ℕ → List Addr} {r : Reference} {i : ℕ} {l : List Addr} {b : Addr}

/-- In a set, a block is known by its tag. -/
theorem tag_eq_iff (hdef : g.tagShift < 32) (hl : ∀ b ∈ l, g.set b = i ∧ g.tagset b = b)
    (hb : g.set b = i ∧ g.tagset b = b) {x : Addr} (hx : x ∈ l) : g.tag x = g.tag b ↔ x = b := by
  obtain ⟨hset, hblk⟩ := hl x hx
  constructor
  · intro ht
    rw [← hblk, ← hb.2]
    exact (g.tagset_eq_iff hdef).2 ⟨ht, hset.trans hb.1.symm⟩
  · rintro rfl
    rfl

theorem tag_mem_iff (hdef : g.tagShift < 32) (hl : ∀ b ∈ l, g.set b = i ∧ g.tagset b = b)
    (hb : g.set b = i ∧ g.tagset b = b) : g.tag b ∈ l.map g.tag ↔ b ∈ l := by
  rw [List.mem_map]
  constructor
  · rintro ⟨x, hx, ht⟩
    rwa [← (tag_eq_iff hdef hl hb hx).1 ht]
  · exact fun h => ⟨b, h, rfl⟩

theorem map_erase (hdef : g.tagShift < 32) (hl : ∀ b ∈ l, g.set b = i ∧ g.tagset b = b)
    (hb : g.set b = i ∧ g.tagset b = b) :
    (l.erase b).map g.tag = (l.map g.tag).erase (g.tag b) := by
  induction l with
  | nil => rfl
  | cons x l ih =>
      have htail := ih fun y hy => hl y (List.mem_cons_of_mem x hy)
      have hx := tag_eq_iff hdef hl hb List.mem_cons_self
      rw [List.map_cons, List.erase_cons, List.erase_cons]
      simp only [beq_iff_eq, hx]
      split
      · rfl
      · rw [List.map_cons, htail]

/-- An access moves a block to the front of its list. -/
theorem map_touch (hdef : g.tagShift < 32) (hp : g.policy = .LRU)
    (hl : ∀ b ∈ l, g.set b = i ∧ g.tagset b = b) (hlen : l.length ≤ g.assoc)
    (hb : g.set b = i ∧ g.tagset b = b) :
    (Lru.touch g.assoc b l).map g.tag = Reference.touch g (g.tag b) (l.map g.tag) := by
  unfold Lru.touch Reference.touch
  simp only [tag_mem_iff hdef hl hb, hp, if_true]
  split
  · next hmem =>
      rw [List.take_of_length_le, List.map_cons, map_erase hdef hl hb]
      rw [List.length_cons, List.length_erase_of_mem hmem]
      have := List.length_pos_of_mem hmem
      omega
  · next hmem =>
      rw [List.erase_of_not_mem hmem, Reference.bounded, ← List.map_cons, List.length_map]
      split
      · next hfull =>
          have hassoc : g.assoc = (b :: l).length - 1 := by
            rw [List.length_cons] at hfull ⊢
            omega
          rw [← List.map_dropLast, List.dropLast_eq_take, hassoc]
      · next hfull => rw [List.take_of_length_le (not_lt.1 hfull)]

/-- One list changes. -/
theorem update (h : Blocks g R r) {l' : List Addr} (ht : l' = l.map g.tag)
    (hlen : l.length ≤ g.assoc) (hl : ∀ b ∈ l, g.set b = i ∧ g.tagset b = b) :
    Blocks g (Function.update R i l) (Function.update r i l') := by
  intro j
  by_cases hj : j = i
  · subst hj
    rw [Function.update_self, Function.update_self]
    exact ⟨ht, hlen, hl⟩
  · rw [Function.update_of_ne hj, Function.update_of_ne hj]
    exact h j

theorem empty : Blocks g (fun _ => []) fun _ => [] := fun _ => ⟨rfl, Nat.zero_le _, nofun⟩

theorem step (h : Blocks g R r) (hdef : g.tagShift < 32) (hp : g.policy = .LRU) (e : Event) :
    Blocks g (Lru.step g.set g.assoc R (e.request g)) (Reference.step g r e) := by
  cases e with
  | access a =>
      obtain ⟨ht, hlen, hl⟩ := h (g.set a.addr)
      have hb : g.set (g.tagset a.addr) = g.set a.addr ∧
          g.tagset (g.tagset a.addr) = g.tagset a.addr := ⟨g.set_tagset _, g.tagset_tagset _⟩
      simp only [Event.request, Lru.step, Reference.step, g.set_tagset]
      refine h.update ?_ (Lru.length_touch_le _ _ _) ?_
      · rw [map_touch hdef hp hl hlen hb, ht, g.tag_tagset hdef]
      · intro b hb'
        rcases List.mem_cons.1 (List.mem_of_mem_take hb') with rfl | hb'
        · exact hb
        · exact hl b (List.mem_of_mem_erase hb')
  | flush => exact empty
  | flushAddr addr =>
      obtain ⟨ht, hlen, hl⟩ := h (g.set addr)
      have hb : g.set (g.tagset addr) = g.set addr ∧ g.tagset (g.tagset addr) = g.tagset addr :=
        ⟨g.set_tagset _, g.tagset_tagset _⟩
      simp only [Event.request, Lru.step, Reference.step, g.set_tagset]
      refine h.update ?_ ?_ fun b hb' => hl b (List.mem_of_mem_erase hb')
      · rw [map_erase hdef hl hb, ht, g.tag_tagset hdef]
      · exact le_trans (List.length_erase_le) hlen

/-- **The reference is an LRU stack.** -/
theorem after (h : Blocks g R r) (hdef : g.tagShift < 32) (hp : g.policy = .LRU)
    (es : List Event) :
    Blocks g (Lru.after g.set g.assoc R (es.map (Event.request g))) (Reference.after g r es) := by
  induction es generalizing R r with
  | nil => exact h
  | cons e es ih => exact ih (h.step hdef hp e)

/-- A hit of the reference is one of the stack. -/
theorem hits_iff (h : Blocks g R r) (hdef : g.tagShift < 32) (addr : Addr) :
    r.hits g addr = true ↔ g.tagset addr ∈ R (g.set addr) := by
  obtain ⟨ht, -, hl⟩ := h (g.set addr)
  rw [Reference.hits, decide_eq_true_eq, ht, ← g.tag_tagset hdef addr]
  exact tag_mem_iff hdef hl ⟨g.set_tagset _, g.tagset_tagset _⟩

end Blocks

/-! ### More sets -/

/-- The set of an address, as a remainder. -/
theorem Params.set_eq_mod (g : Params) (a : Addr) : g.set a = a.toNat / g.bsize % g.nsets := by
  have hlt := g.nsets_lt
  have hmask : (g.nsets - 1) % 2 ^ 32 = g.nsets - 1 := Nat.mod_eq_of_lt (by omega)
  rw [set, BitVec.toNat_and, BitVec.toNat_ushiftRight, setMask, BitVec.toNat_ofNat, hmask,
    Nat.shiftRight_eq_div_pow, ← bsize_eq, nsets_eq, Nat.and_two_pow_sub_one_eq_mod]

/-- Sets are split if there are more of them. -/
theorem Params.set_mod {g₁ g₂ : Params} (hbsize : g₁.bsize = g₂.bsize)
    (hnsets : g₁.nsets ≤ g₂.nsets) (a : Addr) : g₁.set a = g₂.set a % g₁.nsets := by
  have hdvd : g₁.nsets ∣ g₂.nsets := by
    rw [g₁.nsets_eq, g₂.nsets_eq] at hnsets ⊢
    exact Nat.pow_dvd_pow 2 ((Nat.pow_le_pow_iff_right (by decide)).1 hnsets)
  rw [g₁.set_eq_mod, g₂.set_eq_mod, Nat.mod_mod_of_dvd _ hdvd, hbsize]

theorem Params.tagset_congr {g₁ g₂ : Params} (hbsize : g₁.bsize = g₂.bsize) (a : Addr) :
    g₁.tagset a = g₂.tagset a := by
  unfold tagset tagsetMask blkMask
  rw [hbsize]

/-! ### The same calls -/

/-- An event, apart from the question whether it was a hit. -/
def Event.blank : Event → Event
  | .access a => .access { a with hit := false }
  | e => e

/-- The event of a call to a cache that does not prefetch, apart from that question. -/
def Op.event : Op → Event
  | .access cmd addr _ _ prefetch _ => .access ⟨cmd, addr, prefetch, false⟩
  | .flush _ => .flush
  | .flushAddr addr _ => .flushAddr addr

/-- An access that was a hit. -/
def Event.isHit : Event → Bool
  | .access a => a.hit
  | _ => false

/-- The misses with a command and a prefetch flag of some kind. -/
def Event.misses (q : MemCmd → Bool → Bool) : Event → Bool
  | .access a => q a.cmd a.prefetch && !a.hit
  | _ => false

theorem Event.request_blank (g : Params) (e : Event) : e.blank.request g = e.request g := by
  cases e <;> rfl

section Run

variable {ε M : Type} {g : Params} {fn : Handler ε M} {cp cp' : Cache} {w w' : Shared × M}

/-- A call to a cache that does not prefetch is one event. -/
theorem perform_blank (hzero : g.prefetchType = 0) {op : Op} {es : List Event}
    (hr : perform g (store g fn) cp w op = .ok (es, cp', w')) :
    es.map Event.blank = [op.event] := by
  cases op with
  | access cmd addr nbytes now prefetch pc =>
      obtain ⟨⟨r, c₁, w₁⟩, ha, hr⟩ := bind_ok.1 hr
      cases hr
      obtain ⟨hit, more, hacc, -, hmore⟩ := cacheAccess_accessed ha
      rw [hacc, hmore hzero]
      rfl
  | flush now =>
      obtain ⟨⟨lat, c₁, w₁⟩, -, hr⟩ := bind_ok.1 hr
      cases hr
      rfl
  | flushAddr addr now =>
      obtain ⟨⟨lat, c₁, w₁⟩, -, hr⟩ := bind_ok.1 hr
      cases hr
      rfl

theorem run_blank (hzero : g.prefetchType = 0) {ops : List Op} {es : List Event}
    (hr : run g (store g fn) ops cp w = .ok (es, cp', w')) :
    es.map Event.blank = ops.map Op.event := by
  induction ops generalizing es cp w with
  | nil =>
      cases hr
      rfl
  | cons op ops ih =>
      obtain ⟨⟨es₁, c₁, w₁⟩, h₁, hr⟩ := bind_ok.1 hr
      obtain ⟨⟨es₂, c₂, w₂⟩, h₂, hr⟩ := bind_ok.1 hr
      cases hr
      rw [List.map_append, perform_blank hzero h₁, ih h₂]
      rfl

end Run

/-! ### The counters of misses -/

/-- The counters of misses are those of some events. -/
structure Missed (es : List Event) (st : Stats) : Prop where
  demand : st.misses = es.countP (Event.misses CacheSim.demand)
  read : st.readMisses = es.countP (Event.misses demandRead)
  prefetch : st.prefetchMisses = es.countP (Event.misses fun _ prefetch => prefetch)

section Missed

variable {ε M : Type} {g : Params} {fn : Handler ε M} {es : List Event} {st : Stats} {cmd : MemCmd}
  {addr : Addr} {prefetch : Bool}

theorem countP_misses_append (q : MemCmd → Bool → Bool) (e : Event) :
    (es ++ [e]).countP (Event.misses q) = es.countP (Event.misses q) + (e.misses q).toNat := by
  rw [List.countP_append, List.countP_cons, List.countP_nil, Nat.zero_add]
  cases e.misses q <;> rfl

theorem Missed.silent (h : Missed es st) {e : Event} (he : ∀ q, e.misses q = false) :
    Missed (es ++ [e]) st := by
  constructor <;> rw [countP_misses_append, he]
  · exact h.demand
  · exact h.read
  · exact h.prefetch

theorem Missed.hit (h : Missed es st) :
    Missed (es ++ [.access ⟨cmd, addr, prefetch, true⟩]) (st.hit cmd prefetch) := by
  refine Missed.silent ?_ fun q => by simp [Event.misses]
  cases prefetch <;> exact ⟨h.demand, h.read, h.prefetch⟩

theorem Missed.miss (h : Missed es st) :
    Missed (es ++ [.access ⟨cmd, addr, prefetch, false⟩]) (st.miss cmd prefetch) := by
  constructor <;> rw [countP_misses_append]
  · rw [← h.demand]
    cases prefetch <;> rfl
  · rw [← h.read]
    cases prefetch <;> cases cmd <;> rfl
  · rw [← h.prefetch]
    cases prefetch <;> rfl

/-- **Misses are counted by all operations.** -/
theorem keeps_missed :
    Keeps g (Ways.store g fn) fun es c (_ : M) => c.Ok g ∧ Missed es c.stats := by
  refine Ways.keeps ?_ ?_ ?_ ?_
  · rintro es c m cmd addr prefetch b hok h hf
    exact h.hit
  · rintro es c c' cmd addr prefetch repl v w w' hok h hf hr
    obtain ⟨w₁, w₂, t, l, -, hback, -⟩ := hr.world
    have hmiss : Missed (es ++ [.access ⟨cmd, addr, prefetch, false⟩])
        (c.stats.miss cmd prefetch) := h.miss
    split at hback
    · rw [hback.1]
      exact ⟨hmiss.demand, hmiss.read, hmiss.prefetch⟩
    · rw [hback.1]
      exact hmiss
  · rintro es c c' now lat w w' hok h hr
    refine Missed.silent ?_ fun _ => rfl
    exact (Ways.flush_keeps (Q := fun c _ => Missed es c.stats)
      (fun _ _ _ _ h _ => ⟨h.demand, h.read, h.prefetch⟩) hok h hr).2
  · rintro es c c' addr now lat w w' hok h hr
    refine Missed.silent ?_ fun _ => rfl
    rcases Ways.flushAddr_ok hr with ⟨-, rfl, -⟩ | ⟨b, -, rfl, -⟩
    · exact h
    · exact ⟨h.demand, h.read, h.prefetch⟩

end Missed

/-! ### Comparing two caches -/

/-- An event of a smaller and one of a larger cache for the same call: a hit of the smaller cache is
one of the larger cache. -/
def Event.Le (e₁ e₂ : Event) : Prop :=
  e₁.blank = e₂.blank ∧ (e₁.isHit = true → e₂.isHit = true)

/-- Fewer misses, of every kind. -/
theorem Event.Le.misses {e₁ e₂ : Event} (h : e₁.Le e₂) (q : MemCmd → Bool → Bool)
    (hm : e₂.misses q = true) : e₁.misses q = true := by
  obtain ⟨hblank, hhit⟩ := h
  cases e₁ with
  | access a₁ =>
      cases e₂ with
      | access a₂ =>
          obtain ⟨cmd₁, addr₁, prefetch₁, hit₁⟩ := a₁
          obtain ⟨cmd₂, addr₂, prefetch₂, hit₂⟩ := a₂
          cases hblank
          simp only [Event.misses, Bool.and_eq_true, Bool.not_eq_true'] at hm ⊢
          refine ⟨hm.1, ?_⟩
          cases hit₁ with
          | false => rfl
          | true =>
              have hhit₂ : hit₂ = true := hhit rfl
              cases hhit₂.symm.trans hm.2
      | flush => cases hblank
      | flushAddr addr => cases hblank
  | flush =>
      cases e₂ <;> cases hblank
      cases hm
  | flushAddr addr =>
      cases e₂ <;> cases hblank
      cases hm

theorem countP_le_of_le {es₁ es₂ : List Event} (h : List.Forall₂ Event.Le es₁ es₂)
    (q : MemCmd → Bool → Bool) :
    es₂.countP (Event.misses q) ≤ es₁.countP (Event.misses q) := by
  induction h with
  | nil => exact le_rfl
  | @cons e₁ e₂ es₁ es₂ he hes ih =>
      rw [List.countP_cons, List.countP_cons]
      split
      · next hm =>
          rw [if_pos (he.misses q hm)]
          exact Nat.add_le_add_right ih 1
      · exact le_trans ih (Nat.le_add_right _ _)

section Compare

variable {g₁ g₂ : Params} {R₁ R₂ : ℕ → List Addr} {r₁ r₂ : Reference} {es₁ es₂ : List Event}

/-- The requests of two caches with blocks of one size are the same. -/
theorem request_congr (hbsize : g₁.bsize = g₂.bsize) {e₁ e₂ : Event} (h : e₁.blank = e₂.blank) :
    e₁.request g₁ = e₂.request g₂ := by
  have hsize : ∀ e : Event, e.request g₁ = e.request g₂ := by
    intro e
    cases e <;> simp only [Event.request, Params.tagset_congr hbsize]
  rw [hsize, ← e₁.request_blank, ← e₂.request_blank, h]

theorem map_request_congr (hbsize : g₁.bsize = g₂.bsize)
    (h : es₁.map Event.blank = es₂.map Event.blank) :
    es₁.map (Event.request g₁) = es₂.map (Event.request g₂) := by
  have hsize : ∀ e : Event, e.blank.request g₁ = e.request g₂ := fun e =>
    request_congr hbsize (by cases e <;> rfl)
  calc es₁.map (Event.request g₁)
      _ = (es₁.map Event.blank).map (Event.request g₁) := by
        rw [List.map_map]
        exact List.map_congr_left fun e _ => (e.request_blank g₁).symm
      _ = es₂.map (Event.request g₂) := by
        rw [h, List.map_map]
        exact List.map_congr_left fun e _ => hsize e

/-- The first of some events that a reference explains. -/
theorem Reference.Explains.head {g : Params} {r : Reference} {e : Event} {es : List Event}
    (h : Reference.Explains g r (e :: es)) :
    (∀ a, e = .access a → a.hit = r.hits g a.addr) ∧
      Reference.Explains g (Reference.step g r e) es := by
  cases e with
  | access a =>
      refine ⟨?_, h.2⟩
      rintro _ ⟨⟩
      exact h.1
  | flush => exact ⟨fun _ e => (by cases e), h⟩
  | flushAddr addr => exact ⟨fun _ e => (by cases e), h⟩

/-- A hit of the smaller cache is one of the larger cache. -/
theorem Blocks.hits_of_included (h₁ : Blocks g₁ R₁ r₁) (h₂ : Blocks g₂ R₂ r₂)
    (hdef₁ : g₁.tagShift < 32) (hdef₂ : g₂.tagShift < 32) (hbsize : g₁.bsize = g₂.bsize)
    (hnsets : g₁.nsets ≤ g₂.nsets)
    (hinc : Lru.Included g₂.set (· % g₁.nsets) R₁ R₂) {addr : Addr}
    (hhit : r₁.hits g₁ addr = true) : r₂.hits g₂ addr = true := by
  rw [h₁.hits_iff hdef₁, ← g₁.set_tagset] at hhit
  have hmem := hinc.mem (Params.set_mod hbsize hnsets) hhit
  rw [h₂.hits_iff hdef₂, ← g₂.set_tagset, ← Params.tagset_congr hbsize]
  exact hmem

/-- **Every hit of the smaller cache is one of the larger cache**, by induction on the calls: the
stacks are included in each other after every call. -/
theorem le_of_explains (hdef₁ : g₁.tagShift < 32) (hdef₂ : g₂.tagShift < 32)
    (hbsize : g₁.bsize = g₂.bsize) (hnsets : g₁.nsets ≤ g₂.nsets)
    (hassoc : g₁.assoc ≤ g₂.assoc) (hp₁ : g₁.policy = .LRU) (hp₂ : g₂.policy = .LRU)
    (hblank : es₁.map Event.blank = es₂.map Event.blank) (h₁ : Blocks g₁ R₁ r₁)
    (h₂ : Blocks g₂ R₂ r₂) (hinc : Lru.Included g₂.set (· % g₁.nsets) R₁ R₂)
    (hex₁ : Reference.Explains g₁ r₁ es₁) (hex₂ : Reference.Explains g₂ r₂ es₂) :
    List.Forall₂ Event.Le es₁ es₂ := by
  have hset := Params.set_mod hbsize hnsets
  induction es₁ generalizing es₂ R₁ R₂ r₁ r₂ with
  | nil =>
      cases es₂ with
      | nil => exact .nil
      | cons e₂ es₂ => cases hblank
  | cons e₁ es₁ ih =>
      cases es₂ with
      | nil => cases hblank
      | cons e₂ es₂ =>
          obtain ⟨he, hes⟩ := List.cons.inj hblank
          obtain ⟨hhit₁, hrest₁⟩ := hex₁.head
          obtain ⟨hhit₂, hrest₂⟩ := hex₂.head
          have hinc' : Lru.Included g₂.set (· % g₁.nsets)
              (Lru.step g₁.set g₁.assoc R₁ (e₁.request g₁))
              (Lru.step g₂.set g₂.assoc R₂ (e₂.request g₂)) := by
            rw [← request_congr hbsize he]
            exact hinc.step hset hassoc _
          refine .cons ⟨he, fun hhit => ?_⟩
            (ih hes (h₁.step hdef₁ hp₁ e₁) (h₂.step hdef₂ hp₂ e₂) hinc' hrest₁ hrest₂)
          cases e₁ with
          | access a₁ =>
              cases e₂ with
              | access a₂ =>
                  have haddr : a₁.addr = a₂.addr := by
                    injection he with he
                    injection he
                  have hr := h₁.hits_of_included h₂ hdef₁ hdef₂ hbsize hnsets hinc
                    ((hhit₁ a₁ rfl).symm.trans hhit)
                  rw [haddr] at hr
                  exact (hhit₂ a₂ rfl).trans hr
              | flush => cases he
              | flushAddr addr => cases he
          | flush => cases hhit
          | flushAddr addr => cases hhit

variable {ε₁ M₁ ε₂ M₂ : Type} {fn₁ : Handler ε₁ M₁} {fn₂ : Handler ε₂ M₂} {cp₁ cp₂ : Cache}
  {w₁ w₁' : Shared × M₁} {w₂ w₂' : Shared × M₂}

/-- **A larger LRU cache never misses more.** Two caches with blocks of one size and LRU
replacement, neither of which prefetches, are given the same calls; the second has at least as many
sets, and at least as many blocks in a set.  Whatever the levels below them are, every access that
is a hit in the first cache is one in the second, no counter of misses of the second is ahead, and
all that is in the first cache afterwards is in the second.  The shifts for the tags have to be
defined. -/
theorem lru_inclusion (hdef₁ : g₁.tagShift < 32) (hdef₂ : g₂.tagShift < 32)
    (hbsize : g₁.bsize = g₂.bsize) (hnsets : g₁.nsets ≤ g₂.nsets)
    (hassoc : g₁.assoc ≤ g₂.assoc) (hp₁ : g₁.policy = .LRU) (hp₂ : g₂.policy = .LRU)
    (hzero₁ : g₁.prefetchType = 0) (hzero₂ : g₂.prefetchType = 0) (ops : List Op)
    (hr₁ : run g₁ (store g₁ fn₁) ops (Cache.create g₁) w₁ = .ok (es₁, cp₁, w₁'))
    (hr₂ : run g₂ (store g₂ fn₂) ops (Cache.create g₂) w₂ = .ok (es₂, cp₂, w₂')) :
    List.Forall₂ Event.Le es₁ es₂ ∧
    (cp₂.stats.misses ≤ cp₁.stats.misses ∧ cp₂.stats.readMisses ≤ cp₁.stats.readMisses ∧
      cp₂.stats.prefetchMisses ≤ cp₁.stats.prefetchMisses) ∧
    ∀ addr, cp₁.probe (ε := ε₁) g₁ addr = .ok true → cp₂.probe (ε := ε₂) g₂ addr = .ok true := by
  have hlru : ∀ {g : Params}, g.policy = .LRU → g.policy ≠ .Random := by
    intro g hp
    rw [hp]
    decide
  obtain ⟨c₁, hrel₁, hok₁, hf₁, hex₁⟩ := run_keeps (cache_storeSim fn₁)
    (keeps_reference hdef₁ (hlru hp₁)) ⟨Ways.Ok.create g₁, Follows.create g₁, trivial⟩ hr₁
  obtain ⟨c₂, hrel₂, hok₂, hf₂, hex₂⟩ := run_keeps (cache_storeSim fn₂)
    (keeps_reference hdef₂ (hlru hp₂)) ⟨Ways.Ok.create g₂, Follows.create g₂, trivial⟩ hr₂
  obtain ⟨d₁, hd₁, -, hm₁⟩ := run_keeps (cache_storeSim fn₁) keeps_missed
    ⟨Ways.Ok.create g₁, ⟨rfl, rfl, rfl⟩⟩ hr₁
  obtain ⟨d₂, hd₂, -, hm₂⟩ := run_keeps (cache_storeSim fn₂) keeps_missed
    ⟨Ways.Ok.create g₂, ⟨rfl, rfl, rfl⟩⟩ hr₂
  have hblank : es₁.map Event.blank = es₂.map Event.blank :=
    (run_blank hzero₁ hr₁).trans (run_blank hzero₂ hr₂).symm
  have hle := le_of_explains hdef₁ hdef₂ hbsize hnsets hassoc hp₁ hp₂ hblank Blocks.empty
    Blocks.empty Lru.Included.empty hex₁ hex₂
  refine ⟨hle, ?_, ?_⟩
  · rw [hd₁.stats, hd₂.stats, hm₁.demand, hm₁.read, hm₁.prefetch, hm₂.demand, hm₂.read,
      hm₂.prefetch]
    exact ⟨countP_le_of_le hle _, countP_le_of_le hle _, countP_le_of_le hle _⟩
  · intro addr hprobe
    have hempty : Lru.Included g₂.set (· % g₁.nsets) (fun _ => []) fun _ => [] :=
      Lru.Included.empty
    have hinc := hempty.after (Params.set_mod hbsize hnsets) hassoc (es₁.map (Event.request g₁))
    nth_rewrite 2 [map_request_congr hbsize hblank] at hinc
    rw [probe_eq hrel₁, ← hf₁.hits hok₁] at hprobe
    rw [probe_eq hrel₂, ← hf₂.hits hok₂, (Blocks.empty.after hdef₁ hp₁ es₁).hits_of_included
      (Blocks.empty.after hdef₂ hp₂ es₂) hdef₁ hdef₂ hbsize hnsets hinc (Except.ok.inj hprobe)]

end Compare

/-- Four sets of four blocks of eight bytes each. -/
def Params.larger (policy : CachePolicy) : Params where
  nsets := 4
  bsize := 8
  assoc := 4
  policy := policy
  hitLatency := 1
  prefetchType := 0
  undef := .masked
  nsets_pow := ⟨2, rfl⟩
  nsets_lt := by decide
  bsize_pow := (Params.small policy 0).bsize_pow
  bsize_ge := (Params.small policy 0).bsize_ge
  bsize_lt := (Params.small policy 0).bsize_lt
  assoc_pow := ⟨2, rfl⟩
  assoc_lt := by decide

/-- Seven reads of blocks that are in one set of both caches. -/
def sevenReads : List Op :=
  [256, 32, 64, 96, 256, 128, 256].map fun addr => .access .Read addr 4 0 false 0

/-- The seven reads, with LRU replacement. -/
theorem lru_inclusion_seven : ∃ es₁ cp₁ w₁ es₂ cp₂ w₂,
    run (.small .LRU 0) (store (.small .LRU 0) dl2AccessFn) sevenReads
      (Cache.create (.small .LRU 0)) (.start, ()) = .ok (es₁, cp₁, w₁) ∧
    run (.larger .LRU) (store (.larger .LRU) dl2AccessFn) sevenReads
      (Cache.create (.larger .LRU)) (.start, ()) = .ok (es₂, cp₂, w₂) ∧
    List.Forall₂ Event.Le es₁ es₂ ∧ cp₂.stats.misses ≤ cp₁.stats.misses := by
  obtain ⟨⟨es₁, cp₁, w₁⟩, hr₁⟩ := exists_ok (x := run (.small .LRU 0)
    (store (.small .LRU 0) dl2AccessFn) sevenReads (Cache.create (.small .LRU 0)) (.start, ()))
    (by decide +kernel)
  obtain ⟨⟨es₂, cp₂, w₂⟩, hr₂⟩ := exists_ok (x := run (.larger .LRU)
    (store (.larger .LRU) dl2AccessFn) sevenReads (Cache.create (.larger .LRU)) (.start, ()))
    (by decide +kernel)
  have hbsize : (Params.small .LRU 0).bsize = (Params.larger .LRU).bsize := rfl
  obtain ⟨hle, hmisses, -⟩ := lru_inclusion (by decide) (by decide) hbsize (by decide) (by decide)
    rfl rfl rfl rfl sevenReads hr₁ hr₂
  exact ⟨es₁, cp₁, w₁, es₂, cp₂, w₂, hr₁, hr₂, hle, hmisses.1⟩

/-- The hits among the events of a run. -/
def hitsOf {ε M : Type} (g : Params) (fn : Handler ε M) (ops : List Op) (w : Shared × M) :
    Option (List Bool) :=
  match run g (store g fn) ops (Cache.create g) w with
  | .ok (es, _) => some (es.map Event.isHit)
  | .error _ => none

-- with FIFO replacement the last of the reads is a hit in the smaller cache only
example : hitsOf (.small .FIFO 0) dl2AccessFn sevenReads (.start, ()) =
      some [false, false, false, false, false, false, true] ∧
    hitsOf (.larger .FIFO) dl2AccessFn sevenReads (.start, ()) =
      some [false, false, false, false, true, false, false] := by
  decide +kernel

end CacheSim
