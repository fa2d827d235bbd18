/-
**The cache follows a list of tags.**

A textbook describes a set of a cache with LRU or FIFO replacement as a list of tags, at most as
many as there are blocks: a new tag is pushed in front and the last one drops out; an access to a
listed tag moves it to the front under LRU and leaves the list alone under FIFO.  The blocks of the
cache module also have an order when they are invalid, and a block is never removed from its set.
Both descriptions agree since valid blocks always come before invalid ones in the order
(`CacheSim.Listed`): so an invalid block is replaced as long as there is one, and the valid blocks
in their order are the list of the textbook.

Main definitions:

* `CacheSim.Reference` — lists of tags, one for each set, and what happens to them;
* `CacheSim.Reference.Explains` — the hits among some events are those of the reference;
* `CacheSim.Listed` — the valid blocks of a set, in their order, have the tags of a list.

Main results:

* `CacheSim.Listed.touched`, `CacheSim.Listed.fill`, `CacheSim.Listed.drop` — the operations on a
  set;
* `CacheSim.run_reference` — **the cache module hits exactly when the reference does**, and has the
  same contents.
-/

import ArchLab.CacheRuns

set_option relaxedAutoImplicit false
set_option autoImplicit false

namespace CacheSim

open Refine

/-! ### The reference -/

/-- The tags in each set, in the order of their replacement. -/
abbrev Reference : Type := ℕ → List Addr

namespace Reference

variable (g : Params)

/-- The block of an address is listed. -/
def hits (r : Reference) (addr : Addr) : Bool := decide (g.tag addr ∈ r (g.set addr))

/-- A list that has become too long loses its last tag. -/
def bounded (l : List Addr) : List Addr := if g.assoc < l.length then l.dropLast else l

/-- The list of a set after an access to a tag. -/
def touch (tag : Addr) (l : List Addr) : List Addr :=
  if tag ∈ l then if g.policy = .LRU then tag :: l.erase tag else l else bounded g (tag :: l)

/-- What happens to the reference. -/
def step (r : Reference) : Event → Reference
  | .access a => Function.update r (g.set a.addr) (touch g (g.tag a.addr) (r (g.set a.addr)))
  | .flush => fun _ => []
  | .flushAddr addr => Function.update r (g.set addr) ((r (g.set addr)).erase (g.tag addr))

/-- The reference after some events. -/
def after (r : Reference) (es : List Event) : Reference := es.foldl (step g) r

/-- All accesses among some events are hits exactly if they are hits of the reference. -/
def Explains : Reference → List Event → Prop
  | _, [] => True
  | r, .access a :: es => a.hit = r.hits g a.addr ∧ Explains (step g r (.access a)) es
  | r, e :: es => Explains (step g r e) es

variable {g} {r : Reference} {es : List Event}

theorem after_append (e : Event) : after g r (es ++ [e]) = step g (after g r es) e := by
  unfold after
  rw [List.foldl_append]
  rfl

theorem Explains.append {e : Event} (h : Explains g r es)
    (he : ∀ a, e = .access a → a.hit = (after g r es).hits g a.addr) :
    Explains g r (es ++ [e]) := by
  induction es generalizing r with
  | nil =>
      cases e with
      | access a => exact ⟨he a rfl, trivial⟩
      | flush => exact trivial
      | flushAddr addr => exact trivial
  | cons x es ih =>
      cases x with
      | access a => exact ⟨h.1, ih h.2 he⟩
      | flush => exact ih h he
      | flushAddr addr => exact ih h he

end Reference

/-! ### The tags of a set -/

/-- The valid blocks of a set come before the invalid ones in its order, and have the tags of a
list. -/
def Listed (v : WaySet) (l : List Addr) : Prop :=
  ∃ vs is, v.order = vs ++ is ∧ (∀ b ∈ vs, (v.line b).valid = true) ∧
    (∀ b ∈ is, (v.line b).valid = false) ∧ l = vs.map fun b => (v.line b).tag

namespace Listed

variable {g : Params} {v v' : WaySet} {l : List Addr} {tag : Addr} {b : ℕ}

/-- The tags in the list are those that can be found. -/
theorem mem_iff (h : Listed v l) (hok : v.Ok g) : tag ∈ l ↔ (v.find tag).isSome = true := by
  obtain ⟨vs, is, ho, hvs, his, rfl⟩ := h
  rw [List.mem_map, Option.isSome_iff_exists]
  constructor
  · rintro ⟨b, hb, ht⟩
    have hlt := hok.mem.1 (ho ▸ List.mem_append_left is hb)
    exact ⟨b, (WaySet.find_eq_some hok).2 ⟨hlt, ht, hvs b hb⟩⟩
  · rintro ⟨b, hf⟩
    obtain ⟨hlt, ht, hv⟩ := (WaySet.find_eq_some hok).1 hf
    have hb := hok.mem.2 hlt
    rw [ho, List.mem_append] at hb
    rcases hb with hb | hb
    · exact ⟨b, hb, ht⟩
    · rw [his b hb] at hv
      cases hv

/-- A valid block among the others: where it is in the order, and its tag in the list. -/
theorem split (h : Listed v l) (hok : v.Ok g) (hf : v.find tag = some b) :
    ∃ v₁ v₂ is, v.order = v₁ ++ b :: v₂ ++ is ∧ (∀ a ∈ v₁ ++ v₂, (v.line a).valid = true) ∧
      (∀ a ∈ is, (v.line a).valid = false) ∧ b ∉ v₁ ++ v₂ ++ is ∧ (v.line b).tag = tag ∧
      v.order.erase b = v₁ ++ v₂ ++ is ∧
      l = (v₁.map fun a => (v.line a).tag) ++ tag :: v₂.map (fun a => (v.line a).tag) ∧
      l.erase tag = (v₁ ++ v₂).map fun a => (v.line a).tag := by
  have hnodup := hok.nodup
  have hmem : ∀ a ∈ v.order, a < g.assoc := fun a ha => hok.mem.1 ha
  obtain ⟨vs, is, ho, hvs, his, rfl⟩ := h
  obtain ⟨hlt, ht, hv⟩ := (WaySet.find_eq_some hok).1 hf
  have hb := hok.mem.2 hlt
  rw [ho, List.mem_append] at hb
  have hb : b ∈ vs := hb.resolve_right fun hb => by
    rw [his b hb] at hv
    cases hv
  obtain ⟨v₁, v₂, rfl⟩ := List.append_of_mem hb
  rw [ho, List.append_assoc, List.cons_append] at hnodup
  obtain ⟨hnot, _⟩ := List.nodup_cons.1 (List.perm_middle.nodup_iff.1 hnodup)
  have hb₁ : b ∉ v₁ := fun hm => hnot (List.mem_append_left _ hm)
  -- the tags of the other valid blocks are different
  have htag : tag ∉ v₁.map fun a => (v.line a).tag := by
    intro hm
    obtain ⟨a, ha, hat⟩ := List.mem_map.1 hm
    have hav : a ∈ v₁ ++ b :: v₂ := List.mem_append_left _ ha
    have hab := hok.unique a b (hmem a (ho ▸ List.mem_append_left is hav)) hlt (hvs a hav) hv
      (hat.trans ht.symm)
    exact hb₁ (hab ▸ ha)
  have hmap : (v₁ ++ b :: v₂).map (fun a => (v.line a).tag) =
      (v₁.map fun a => (v.line a).tag) ++ tag :: v₂.map (fun a => (v.line a).tag) := by
    rw [List.map_append, List.map_cons, ht]
  refine ⟨v₁, v₂, is, ho, ?_, his, ?_, ht, ?_, hmap, ?_⟩
  · intro a ha
    refine hvs a ?_
    rw [List.mem_append] at ha ⊢
    exact ha.imp_right (List.mem_cons_of_mem b)
  · rwa [List.append_assoc]
  · rw [ho, List.append_assoc, List.cons_append, List.erase_append_right _ hb₁,
      List.erase_cons_head,
      List.append_assoc]
  · rw [hmap, List.erase_append_right _ htag, List.erase_cons_head, List.map_append]

/-- A hit. -/
theorem touched (h : Listed v l) (hok : v.Ok g) (hf : v.find tag = some b) (cmd : MemCmd) :
    Listed (Ways.touched g cmd b v) (Reference.touch g tag l) := by
  have hmem : tag ∈ l := (h.mem_iff hok).2 (by rw [hf]; rfl)
  have hvalid : ∀ a, ((Ways.touched g cmd b v).line a).valid = (v.line a).valid := by
    intro a
    rw [WaySet.line_touched]
    split
    · next hab => rw [hab]; rfl
    · rfl
  have htags : ∀ a, ((Ways.touched g cmd b v).line a).tag = (v.line a).tag := by
    intro a
    rw [WaySet.line_touched]
    split
    · next hab => rw [hab]; rfl
    · rfl
  unfold Reference.touch Listed
  rw [if_pos hmem]
  simp only [hvalid, htags]
  unfold Ways.touched
  split
  · -- LRU: the block is moved to the head
    obtain ⟨v₁, v₂, is, _, hvs, his, _, _, herase, _, hl⟩ := h.split hok hf
    obtain ⟨_, ht, hv⟩ := (WaySet.find_eq_some hok).1 hf
    refine ⟨b :: (v₁ ++ v₂), is, congrArg (List.cons b) herase, ?_, his, ?_⟩
    · intro a ha
      rcases List.mem_cons.1 ha with rfl | ha
      · exact hv
      · exact hvs a ha
    · rw [hl, List.map_cons, ht]
  · exact h

/-- The last block in the order is filled. -/
theorem fill (h : Listed v l) (hok : v.Ok g) (hf : v.find tag = none) (hp : g.policy ≠ .Random)
    (hc : Chosen g v b v') {line : Line} (ht : line.tag = tag) (hv : line.valid = true) :
    Listed (v'.setLine b line) (Reference.touch g tag l) := by
  have hmem : tag ∉ l := fun hm => by
    have := (h.mem_iff hok).1 hm
    rw [hf] at this
    cases this
  have hnodup := hok.nodup
  have hlen := hok.length
  obtain ⟨vs, is, ho, hvs, his, rfl⟩ := h
  have horder := hc.order
  rw [if_neg hp] at horder
  obtain ⟨hlast, rfl⟩ := horder
  obtain ⟨t, ht'⟩ := List.getLast?_eq_some_iff.1 hlast
  have hbt : b ∉ t := by
    rw [ht'] at hnodup
    exact fun hm => (List.nodup_append.1 hnodup).2.2 b hm b List.mem_cons_self rfl
  have herase : v.order.erase b = t := by
    rw [ht', List.erase_append_right _ hbt, List.erase_cons_head, List.append_nil]
  -- what the blocks hold afterwards
  have hself : (((v.toHead b).setLine b line).line b) = line := by
    rw [WaySet.line_setLine, if_pos rfl]
  have hother : ∀ a ∈ t, ((v.toHead b).setLine b line).line a = v.line a := by
    intro a ha
    rw [WaySet.line_setLine, if_neg]
    · rfl
    · rintro rfl
      exact hbt ha
  have hmap : ∀ vs' : List ℕ, (∀ a ∈ vs', a ∈ t) →
      tag :: vs'.map (fun a => (v.line a).tag) =
        (b :: vs').map fun a => (((v.toHead b).setLine b line).line a).tag := by
    intro vs' hsub
    rw [List.map_cons, hself, ht]
    exact congrArg (List.cons tag) (List.map_congr_left fun a ha => by rw [hother a (hsub a ha)])
  unfold Reference.touch Reference.bounded
  rw [if_neg hmem]
  rcases List.eq_nil_or_concat' is with rfl | ⟨is', b', rfl⟩
  · -- all blocks are valid: the last tag drops out
    rw [List.append_nil] at ho
    subst ho
    rw [if_pos (by rw [List.length_cons, List.length_map, hlen]; omega), ht', List.map_append,
      List.map_singleton, ← List.cons_append, List.dropLast_concat]
    refine ⟨b :: t, [], ?_, ?_, nofun, hmap t fun _ ha => ha⟩
    · rw [List.append_nil]
      exact congrArg (List.cons b) herase
    · intro a ha
      rcases List.mem_cons.1 ha with rfl | ha
      · rw [hself]
        exact hv
      · rw [hother a ha]
        exact hvs a (by rw [ht']; exact List.mem_append_left _ ha)
  · -- the last block is invalid
    have hsplit : t = vs ++ is' ∧ b' = b := by
      rw [ho, ← List.append_assoc] at ht'
      obtain ⟨h₁, h₂⟩ := List.append_inj' ht' rfl
      exact ⟨h₁.symm, (List.cons.inj h₂).1⟩
    obtain ⟨rfl, rfl⟩ := hsplit
    rw [if_neg]
    · refine ⟨b' :: vs, is', congrArg (List.cons b') herase, ?_, ?_,
        hmap vs fun a ha => List.mem_append_left _ ha⟩
      · intro a ha
        rcases List.mem_cons.1 ha with rfl | ha
        · rw [hself]
          exact hv
        · rw [hother a (List.mem_append_left _ ha)]
          exact hvs a ha
      · intro a ha
        rw [hother a (List.mem_append_right _ ha)]
        exact his a (List.mem_append_left _ ha)
    · rw [List.length_cons, List.length_map]
      rw [ho, List.length_append, List.length_append, List.length_singleton] at hlen
      omega

/-- A block is invalidated, and moved to the tail. -/
theorem drop (h : Listed v l) (hok : v.Ok g) (hf : v.find tag = some b) :
    Listed ((v.setLine b { v.line b with valid := false }).toTail b) (l.erase tag) := by
  obtain ⟨v₁, v₂, is, _, hvs, his, hnot, _, herase, _, hl⟩ := h.split hok hf
  have hother : ∀ a ∈ v₁ ++ v₂ ++ is,
      ((v.setLine b { v.line b with valid := false }).toTail b).line a = v.line a := by
    intro a ha
    refine (WaySet.line_setLine _).trans (if_neg ?_)
    rintro rfl
    exact hnot ha
  refine ⟨v₁ ++ v₂, is ++ [b], ?_, ?_, ?_, ?_⟩
  · change v.order.erase b ++ [b] = _
    rw [herase, List.append_assoc]
  · intro a ha
    rw [hother a (List.mem_append_left _ ha)]
    exact hvs a ha
  · intro a ha
    rcases List.mem_append.1 ha with ha | ha
    · rw [hother a (List.mem_append_right _ ha)]
      exact his a ha
    · rw [List.mem_singleton.1 ha]
      exact congrArg Line.valid (Function.update_self b _ v.line)
  · rw [hl]
    exact (List.map_congr_left fun a ha => by rw [hother a (List.mem_append_left _ ha)]).symm

/-- All blocks are invalid. -/
theorem nil (hok : v.Ok g) (h : ∀ b < g.assoc, (v.line b).valid = false) : Listed v [] :=
  ⟨[], v.order, rfl, nofun, fun b hb => h b (hok.mem.1 hb), rfl⟩

end Listed

/-! ### Sequences of calls -/

section Run

variable {ε M : Type} {g : Params} {fn : Handler ε M} {c : Ways} {r : Reference}

/-- The sets of a cache have the tags of the reference. -/
def Follows (g : Params) (c : Ways) (r : Reference) : Prop := ∀ i < g.nsets, Listed (c.sets i) (r i)

theorem Follows.create (g : Params) : Follows g (Ways.create g) fun _ => [] :=
  fun _ _ => Listed.nil (WaySet.Ok.create g) fun _ _ => rfl

/-- One set changes. -/
theorem Follows.update (h : Follows g c r) {i : ℕ} {v : WaySet} {l : List Addr} (hv : Listed v l)
    {sets : ℕ → WaySet} (hs : sets = Function.update c.sets i v) :
    ∀ j < g.nsets, Listed (sets j) (Function.update r i l j) := by
  intro j hj
  rw [hs]
  by_cases hji : j = i
  · subst hji
    rwa [Function.update_self, Function.update_self]
  · rw [Function.update_of_ne hji, Function.update_of_ne hji]
    exact h j hj

/-- A search finds a block exactly if the reference has its tag. -/
theorem Follows.hits (h : Follows g c r) (hok : c.Ok g) (addr : Addr) :
    r.hits g addr = c.resident g addr := by
  unfold Reference.hits Ways.resident
  rw [Bool.eq_iff_iff, decide_eq_true_iff]
  exact (h _ (g.set_lt addr)).mem_iff (hok.sets _)

/-- All operations follow the reference. -/
theorem keeps_reference (hdef : g.tagShift < 32) (hp : g.policy ≠ .Random) :
    Keeps g (Ways.store g fn) fun es c (_ : M) => c.Ok g ∧
      Follows g c (Reference.after g (fun _ => []) es) ∧
      Reference.Explains g (fun _ => []) es := by
  refine Ways.keeps ?_ ?_ ?_ ?_
  · rintro es c m cmd addr prefetch b hok ⟨h, hex⟩ hhits
    have hf := hhits.find_eq (hok.sets _) hdef
    rw [Reference.after_append]
    refine ⟨h.update ((h _ (g.set_lt addr)).touched (hok.sets _) hf cmd) rfl, hex.append ?_⟩
    rintro _ ⟨⟩
    rw [h.hits hok, Ways.resident, hf]
    rfl
  · rintro es c c' cmd addr prefetch repl v w w' hok ⟨h, hex⟩ hf hr
    rw [Reference.after_append]
    obtain ⟨ready, hsets⟩ := hr.sets
    refine ⟨h.update ((h _ (g.set_lt addr)).fill (hok.sets _) hf hp hr.chosen rfl rfl) hsets,
      hex.append ?_⟩
    rintro _ ⟨⟩
    rw [h.hits hok, Ways.resident, hf]
    rfl
  · rintro es c c' now lat w w' hok ⟨h, hex⟩ hr
    rw [Reference.after_append]
    have hok' := (Ways.flush_keeps (Q := fun _ _ => True) (fun _ _ _ _ _ _ => trivial) hok
      trivial hr).1
    exact ⟨fun i hi => Listed.nil (hok'.sets i) (Ways.flush_invalid hok hr i hi), hex.append nofun⟩
  · rintro es c c' addr now lat w w' hok ⟨h, hex⟩ hr
    rw [Reference.after_append]
    refine ⟨?_, hex.append nofun⟩
    have hset := h _ (g.set_lt addr)
    rcases Ways.flushAddr_ok hr with ⟨hf, rfl, _⟩ | ⟨b, hf, rfl, _⟩
    · -- the tag is not in the list
      have hnot := (hset.mem_iff (hok.sets _)).not.2 (by rw [hf]; decide)
      change Follows g _ (Function.update _ _ _)
      rw [List.erase_of_not_mem hnot, Function.update_eq_self]
      exact h
    · refine h.update (hset.drop (hok.sets _) hf) ?_
      unfold Ways.moveTail Ways.drop Ways.setSet Ways.forget
      simp only [Function.update_self, Function.update_idem]

/-- **The cache module hits exactly when the reference does**, in every sequence of calls, and a
probe agrees with the contents of the reference afterwards, if the shift for the tag is defined. -/
theorem run_reference (hdef : g.tagShift < 32) (hp : g.policy ≠ .Random) (ops : List Op)
    {es : List Event} {cp : Cache} {w w' : Shared × M}
    (hr : run g (store g fn) ops (Cache.create g) w = .ok (es, cp, w')) :
    Reference.Explains g (fun _ => []) es ∧
      ∀ addr, cp.probe (ε := ε) g addr =
        .ok ((Reference.after g (fun _ => []) es).hits g addr) := by
  obtain ⟨c, hrel, hok, hfollows, hex⟩ := run_keeps (cache_storeSim fn) (keeps_reference hdef hp)
    ⟨Ways.Ok.create g, Follows.create g, trivial⟩ hr
  refine ⟨hex, fun addr => ?_⟩
  rw [probe_eq hrel, hfollows.hits hok]

/-- Three blocks of one set: the first one is replaced. -/
theorem run_reference_three : ∃ es cp w',
    run (.small .LRU 1) (store (.small .LRU 1) dl2AccessFn)
      [.access .Read 16 4 0 false 0, .access .Write 32 4 1 false 0, .access .Read 48 4 2 false 0,
        .flushAddr 32 3] (Cache.create (.small .LRU 1)) (.start, ()) = .ok (es, cp, w') ∧
    Reference.Explains (.small .LRU 1) (fun _ => []) es ∧
      ∀ addr, cp.probe (ε := Empty) (.small .LRU 1) addr =
        .ok ((Reference.after (.small .LRU 1) (fun _ => []) es).hits (.small .LRU 1) addr) := by
  obtain ⟨⟨es, cp, w'⟩, hr⟩ := exists_ok (x := run (.small .LRU 1)
    (store (.small .LRU 1) dl2AccessFn)
    [.access .Read 16 4 0 false 0, .access .Write 32 4 1 false 0, .access .Read 48 4 2 false 0,
      .flushAddr 32 3] (Cache.create (.small .LRU 1)) (.start, ())) (by decide +kernel)
  exact ⟨es, cp, w', hr, run_reference (by decide) (by decide) _ hr⟩

end Run

end CacheSim
