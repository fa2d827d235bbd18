/-
**The links of a set represent its order.**

The cache module keeps the order of the blocks of a set in a doubly linked list, and in large sets
the blocks are also in the chains of a hash table.  This module says what these links are at any
time (`CacheSim.Rep`): the way list is the order, read in both directions, and each block is in the
chain of the hash table that belongs to its tag, also if it is not valid.  From this it follows what
the functions on links do: no assertion in them fails, no loop over a list runs forever, and the
search for a block finds what a search along the order finds.

Main definitions:

* `CacheSim.Hashed`, `CacheSim.WayList`, `CacheSim.Rep` — the hash table, the way list, and all
  links of a set.

Main results:

* `CacheSim.unlinkHtabEnt_spec`, `CacheSim.linkHtabEnt_spec`, `CacheSim.updateWayList_spec` — what
  the functions on links do;
* `CacheSim.Rep.hashFind`, `CacheSim.Rep.wayFind`, `CacheSim.Rep.toHead`, `CacheSim.Rep.toTail`,
  `CacheSim.Rep.retag` — the search for a block, the moves of a block, and the change of its tag;
* `CacheSim.Rep.create` — a new set.
-/

import ArchLab.CacheWays

set_option relaxedAutoImplicit false
set_option autoImplicit false

namespace CacheSim

variable {ε : Type} {g : Params} {s : CacheSet} {v : WaySet} {b : ℕ}

/-! ### The hash table of a set -/

/-- The blocks that are in the hash table are in the chains that belong to their tags, once. -/
def Hashed (g : Params) (s : CacheSet) (linked : ℕ → Prop) : Prop :=
  ∃ ch : ℕ → List ℕ, ∀ k < g.hsize, Links.Chain s.hashNext (s.hash k) (ch k) ∧ (ch k).Nodup ∧
    ∀ b, b ∈ ch k ↔ b < g.assoc ∧ linked b ∧ g.hash (s.line b).tag = k

theorem length_le_of_nodup {l : List ℕ} {n : ℕ} (hn : l.Nodup) (hl : ∀ b ∈ l, b < n) :
    l.length ≤ n := by
  have := (List.subperm_of_subset hn fun b hb => List.mem_range.2 (hl b hb)).length_le
  rwa [List.length_range] at this

/-- A chain that a block is not in is not affected by its link. -/
theorem chain_update {h : Option ℕ} {l : List ℕ} {next : ℕ → Option ℕ} (hc : Links.Chain next h l)
    (hb : b ∉ l) (x : Option ℕ) : Links.Chain (Function.update next b x) h l :=
  hc.congr fun a ha => Function.update_of_ne (fun (e : a = b) => hb (e ▸ ha)) _ _

/-- **Unlinking a block** from its chain succeeds, and the other blocks stay. -/
theorem unlinkHtabEnt_spec (hh : g.hsize ≠ 0) (h : Hashed g s fun _ => True) (hb : b < g.assoc) :
    ∃ hash hashNext, unlinkHtabEnt (ε := ε) g s b = .ok { s with hash, hashNext } ∧
      Hashed g { s with hash, hashNext } (· ≠ b) := by
  obtain ⟨ch, hch⟩ := h
  obtain ⟨k, hk⟩ : ∃ k, k = g.hash (s.line b).tag := ⟨_, rfl⟩
  have hklt : k < g.hsize := hk ▸ g.hash_lt hh _
  obtain ⟨hchain, hnodup, hmem⟩ := hch k hklt
  have hlen : (ch k).length ≤ g.assoc := length_le_of_nodup hnodup fun a ha => ((hmem a).1 ha).1
  obtain ⟨l₁, l₂, hl⟩ := List.append_of_mem ((hmem b).2 ⟨hb, trivial, hk.symm⟩)
  rw [hl] at hchain hnodup hlen
  obtain ⟨hn₁, hn₂', hdisj⟩ := List.nodup_append.1 hnodup
  obtain ⟨hb₂, hn₂⟩ := List.nodup_cons.1 hn₂'
  have hb₁ : b ∉ l₁ := fun hm => hdisj b hm b List.mem_cons_self rfl
  have hbefore := hchain.before_eq (p := none) hb₁
    (show l₁.length < g.assoc by rw [List.length_append, List.length_cons] at hlen; omega)
  rw [Option.or_none] at hbefore
  -- the new chain, and the others, which the changed links do not belong to
  have hrest : (l₁ ++ l₂).Nodup ∧ ∀ a, a ∈ l₁ ++ l₂ ↔
      a < g.assoc ∧ a ≠ b ∧ g.hash (s.line a).tag = k := by
    refine ⟨List.nodup_append.2 ⟨hn₁, hn₂, fun a h₁ a' h₂ e =>
      hdisj a h₁ a' (List.mem_cons_of_mem b h₂) e⟩, fun a => ?_⟩
    have ha := hmem a
    rw [hl] at ha
    simp only [List.mem_append, List.mem_cons, true_and] at ha ⊢
    constructor
    · intro hm
      have hab : a ≠ b := by
        rintro rfl
        rcases hm with hm | hm
        · exact hb₁ hm
        · exact hb₂ hm
      exact ⟨(ha.1 (hm.imp_right .inr)).1, hab, (ha.1 (hm.imp_right .inr)).2⟩
    · rintro ⟨h₁, h₂, h₃⟩
      rcases ha.2 ⟨h₁, h₃⟩ with hm | rfl | hm
      · exact .inl hm
      · exact absurd rfl h₂
      · exact .inr hm
  have hother : ∀ k', k' ≠ k → ∀ a, a ∈ ch k → k' < g.hsize → a ∉ ch k' := by
    intro k' hne a ha hlt hm
    exact hne ((((hch k' hlt).2.2 a).1 hm).2.2.symm.trans (((hch k hklt).2.2 a).1 ha).2.2)
  have hbk : b ∈ ch k := hl ▸ List.mem_append_right _ List.mem_cons_self
  have hothers : ∀ k' < g.hsize, k' ≠ k → ∀ a, a ∈ ch k' ↔
      a < g.assoc ∧ a ≠ b ∧ g.hash (s.line a).tag = k' := by
    intro k' hlt hne a
    rw [(hch k' hlt).2.2 a]
    refine and_congr_right fun _ => ⟨fun ⟨_, he⟩ => ⟨?_, he⟩, fun ⟨_, he⟩ => ⟨trivial, he⟩⟩
    rintro rfl
    exact hne (he.symm.trans hk.symm)
  have hcode : unlinkHtabEnt (ε := ε) g s b = l₁.getLast?.elim
      (.ok ((s.setHash k (s.hashNext b)).setHashNext b none))
      fun p => .ok ((s.setHashNext p (s.hashNext b)).setHashNext b none) := by
    unfold unlinkHtabEnt
    simp only [← hk, hbefore]
    cases l₁.getLast? <;> rfl
  rw [hcode]
  cases hlast : l₁.getLast? with
  | none =>
      rw [List.getLast?_eq_none_iff] at hlast
      subst hlast
      refine ⟨_, _, rfl, Function.update ch k l₂, fun k' hlt => ?_⟩
      by_cases hkk : k' = k
      · subst hkk
        simp only [CacheSet.setHash, Function.update_self]
        exact ⟨chain_update hchain.tail hb₂ _, hrest⟩
      · simp only [CacheSet.setHash, Function.update_of_ne hkk]
        exact ⟨chain_update (hch k' hlt).1 (hother k' hkk b hbk hlt) _, (hch k' hlt).2.1,
          hothers k' hlt hkk⟩
  | some p =>
      have hp : p ∈ l₁ := List.mem_of_getLast? hlast
      have hpk : p ∈ ch k := hl ▸ List.mem_append_left _ hp
      refine ⟨_, _, rfl, Function.update ch k (l₁ ++ l₂), fun k' hlt => ?_⟩
      by_cases hkk : k' = k
      · subst hkk
        simp only [CacheSet.setHashNext, Function.update_self]
        refine ⟨chain_update (hchain.remove hnodup hlast) ?_ _, hrest⟩
        exact fun hm => (List.mem_append.1 hm).elim hb₁ hb₂
      · simp only [CacheSet.setHashNext, Function.update_of_ne hkk]
        exact ⟨chain_update (chain_update (hch k' hlt).1 (hother k' hkk p hpk hlt) _)
          (hother k' hkk b hbk hlt) _, (hch k' hlt).2.1, hothers k' hlt hkk⟩

/-- **Linking a block** into the chain of its tag. -/
theorem linkHtabEnt_spec {linked : ℕ → Prop} (h : Hashed g s linked)
    (hb : b < g.assoc) (hn : ¬ linked b) :
    ∃ hash hashNext, linkHtabEnt g s b = { s with hash, hashNext } ∧
      Hashed g { s with hash, hashNext } fun a => linked a ∨ a = b := by
  obtain ⟨ch, hch⟩ := h
  obtain ⟨k, hk⟩ : ∃ k, k = g.hash (s.line b).tag := ⟨_, rfl⟩
  have hnot : ∀ k' < g.hsize, b ∉ ch k' := fun k' hlt hm => hn (((hch k' hlt).2.2 b).1 hm).2.1
  refine ⟨_, _, rfl, Function.update ch k (b :: ch k), fun k' hlt => ?_⟩
  obtain ⟨hchain, hnodup, hmem⟩ := hch k' hlt
  simp only [CacheSet.setHashNext, ← hk]
  by_cases hkk : k' = k
  · subst hkk
    rw [Function.update_self, Function.update_self]
    refine ⟨⟨rfl, ?_⟩, List.nodup_cons.2 ⟨hnot k' hlt, hnodup⟩, fun a => ?_⟩
    · rw [Function.update_self]
      exact chain_update hchain (hnot k' hlt) _
    · rw [List.mem_cons, hmem a]
      constructor
      · rintro (rfl | ⟨h₁, h₂, h₃⟩)
        · exact ⟨hb, .inr rfl, hk.symm⟩
        · exact ⟨h₁, .inl h₂, h₃⟩
      · rintro ⟨h₁, h₂ | rfl, h₃⟩
        · exact .inr ⟨h₁, h₂, h₃⟩
        · exact .inl rfl
  · rw [Function.update_of_ne hkk, Function.update_of_ne hkk]
    refine ⟨chain_update hchain (hnot k' hlt) _, hnodup, fun a => ?_⟩
    rw [hmem a]
    refine and_congr_right fun _ => ⟨fun ⟨h₁, h₂⟩ => ⟨.inl h₁, h₂⟩, fun ⟨h₁, h₂⟩ => ⟨?_, h₂⟩⟩
    rcases h₁ with h₁ | rfl
    · exact h₁
    · exact absurd (h₂.symm.trans hk.symm) hkk

/-- The hash table only looks at the tags of the blocks that are in it. -/
theorem Hashed.setLine {linked : ℕ → Prop} (h : Hashed g s linked) {l : Line}
    (hl : linked b → l.tag = (s.line b).tag) : Hashed g (s.setLine b l) linked := by
  obtain ⟨ch, hch⟩ := h
  refine ⟨ch, fun k hk => ⟨(hch k hk).1, (hch k hk).2.1, fun a => ?_⟩⟩
  rw [(hch k hk).2.2 a]
  refine and_congr_right fun _ => and_congr_right fun ha => ?_
  change _ ↔ g.hash (Function.update s.line b l a).tag = k
  by_cases hab : a = b
  · subst hab
    rw [Function.update_self, hl ha]
  · rw [Function.update_of_ne hab]

theorem Hashed.congr {linked linked' : ℕ → Prop} (h : Hashed g s linked)
    (hl : ∀ a, linked a ↔ linked' a) : Hashed g s linked' := by
  obtain rfl : linked = linked' := funext fun a => propext (hl a)
  exact h

/-! ### The way list of a set -/

section WayList

variable {l : List ℕ}

/-- The way list of a set is a list of blocks. -/
abbrev WayList (s : CacheSet) (l : List ℕ) : Prop :=
  Links.Linked s.wayNext s.wayPrev s.wayHead s.wayTail l

/-- What can be changed of a set when its way list is. -/
def CacheSet.relink (s : CacheSet) (head tail : Option ℕ) (next prev : ℕ → Option ℕ) : CacheSet :=
  { s with wayHead := head, wayTail := tail, wayNext := next, wayPrev := prev }

/-- A block is linked in at the head. -/
theorem linkWay_head (h : WayList s l) (hl : l ≠ []) (hb : b ∉ l) :
    ∃ head tail next prev, linkWay (ε := ε) s b .Head = .ok (s.relink head tail next prev) ∧
      Links.Linked next prev head tail (b :: l) := by
  obtain ⟨y, t, rfl⟩ := List.exists_cons_of_ne_nil hl
  have hhead : s.wayHead = some y := h.head
  have hpush := h.pushFront hb
  refine ⟨some b, s.wayTail, _, _, ?_, hpush⟩
  unfold linkWay
  rw [hhead]
  rfl

/-- A block is linked in at the tail. -/
theorem linkWay_tail (h : WayList s l) (hl : l ≠ []) (hb : b ∉ l) :
    ∃ head tail next prev, linkWay (ε := ε) s b .Tail = .ok (s.relink head tail next prev) ∧
      Links.Linked next prev head tail (l ++ [b]) := by
  have hlast := List.getLast?_eq_some_getLast hl
  have htail : s.wayTail = some (l.getLast hl) := h.tail.trans hlast
  have hpush := h.pushBack hlast hb
  refine ⟨s.wayHead, some b, _, _, ?_, hpush⟩
  unfold linkWay
  rw [htail]
  rfl

/-- A block that is in a list of its own, or at the end it is moved to. -/
theorem WayList.stays (h : WayList s l) {l' : List ℕ} (hl : l = l') :
    ∃ head tail next prev, (Except.ok s : Except (Fault ε) CacheSet) =
      .ok (s.relink head tail next prev) ∧ Links.Linked next prev head tail l' :=
  ⟨s.wayHead, s.wayTail, s.wayNext, s.wayPrev, rfl, hl ▸ h⟩

/-- The list without a block. -/
theorem erase_append_cons {l₁ l₂ : List ℕ} (hb : b ∉ l₁) : (l₁ ++ b :: l₂).erase b = l₁ ++ l₂ := by
  rw [List.erase_append_right _ hb, List.erase_cons_head]

/-- **Moving a block** to one of the ends of the way list; no assertion fails. -/
theorem updateWayList_spec (h : WayList s l) (hb : b ∈ l) (loc : ListLoc) :
    ∃ head tail next prev, updateWayList (ε := ε) s b loc = .ok (s.relink head tail next prev) ∧
      Links.Linked next prev head tail
        (match loc with
        | .Head => b :: l.erase b
        | .Tail => l.erase b ++ [b]) := by
  obtain ⟨l₁, l₂, rfl⟩ := List.append_of_mem hb
  obtain ⟨hprev, hnext⟩ := h.pointers
  obtain ⟨hn₁, hn₂', hdisj⟩ := List.nodup_append.1 h.nodup
  obtain ⟨hb₂, hn₂⟩ := List.nodup_cons.1 hn₂'
  have hb₁ : b ∉ l₁ := fun hm => hdisj b hm b List.mem_cons_self rfl
  have hbl : b ∉ l₁ ++ l₂ := fun hm => (List.mem_append.1 hm).elim hb₁ hb₂
  have hun := h.unlink
  have hhead := h.head
  have htail := h.tail
  rw [erase_append_cons hb₁]
  unfold Links.Linked.skipNext Links.Linked.skipPrev at hun
  unfold updateWayList
  rw [hprev, hnext] at *
  -- the block before, and the block behind
  rcases List.eq_nil_or_concat' l₁ with rfl | ⟨t₁, p, rfl⟩
  · cases l₂ with
    | nil =>
        have hassert : s.wayHead = some b ∧ s.wayTail = some b := ⟨hhead, htail⟩
        simp only [List.getLast?_nil, List.head?_nil]
        rw [if_pos hassert]
        exact h.stays (by cases loc <;> rfl)
    | cons n t₂ =>
        have hne : s.wayTail ≠ some b := by
          rw [htail]
          intro e
          exact hb₂ (List.mem_of_getLast? (by simpa [List.getLast?_cons_cons] using e))
        simp only [List.getLast?_nil, List.head?_cons]
        rw [if_pos ⟨hhead, hne⟩]
        cases loc with
        | Head => exact h.stays rfl
        | Tail =>
            rw [if_neg (by decide)]
            exact linkWay_tail hun (by simp) hbl
  · have hlast : (t₁ ++ [p]).getLast? = some p := by simp
    have hne₁ : t₁ ++ [p] ≠ [] := by simp
    have hne : s.wayHead ≠ some b := by
      rw [hhead, List.head?_append_of_ne_nil _ hne₁]
      exact fun e => hb₁ (List.mem_of_head? e)
    cases l₂ with
    | nil =>
        have htb : s.wayTail = some b := by rw [htail]; simp
        simp only [hlast, List.head?_nil] at hun ⊢
        rw [if_neg hne₁, if_pos trivial] at hun
        rw [if_pos ⟨hne, htb⟩]
        cases loc with
        | Tail => exact h.stays (by simp)
        | Head =>
            rw [if_neg (by decide)]
            exact linkWay_head hun (by simp) hbl
    | cons n t₂ =>
        have htb : s.wayTail ≠ some b := by
          rw [htail]
          intro e
          refine hb₂ (List.mem_of_getLast? ?_)
          rw [← e]
          simp [List.getLast?_append, List.getLast?_cons]
        simp only [hlast, List.head?_cons] at hun ⊢
        rw [if_neg hne₁, if_neg (List.cons_ne_nil n t₂)] at hun
        rw [if_pos ⟨hne, htb⟩]
        cases loc with
        | Head => exact linkWay_head hun (by simp) hbl
        | Tail => exact linkWay_tail hun (by simp) hbl

end WayList

/-! ### The links of a set -/

/-- **The links of a set represent its order.** -/
structure Rep (g : Params) (s : CacheSet) (v : WaySet) : Prop where
  line : s.line = v.line
  ways : WayList s v.order
  hashed : g.hsize ≠ 0 → Hashed g s fun _ => True
  ok : v.Ok g

theorem Rep.holds (h : Rep g s v) (tag : Addr) : s.holds tag = v.holds tag := by
  unfold CacheSet.holds WaySet.holds
  rw [h.line]

/-- **The search through the hash table** finds what a search along the order finds. -/
theorem Rep.hashFind (h : Rep g s v) (hh : g.hsize ≠ 0) (tag : Addr) :
    hashFind g s tag = some (v.find tag) := by
  obtain ⟨ch, hch⟩ := h.hashed hh
  obtain ⟨hchain, hnodup, hmem⟩ := hch (g.hash tag) (g.hash_lt hh tag)
  rw [h.line] at hmem
  have hlen := length_le_of_nodup hnodup fun a ha => ((hmem a).1 ha).1
  unfold CacheSim.hashFind
  rw [h.holds, hchain.find_eq hlen]
  refine congrArg some ?_
  cases hf : v.find tag with
  | none =>
      rw [List.find?_eq_none]
      intro a ha hq
      obtain ⟨ht, hv⟩ := WaySet.holds_iff.1 hq
      rw [(WaySet.find_eq_none h.ok).1 hf a ((hmem a).1 ha).1 ht] at hv
      cases hv
  | some b =>
      obtain ⟨hb, ht, hv⟩ := (WaySet.find_eq_some h.ok).1 hf
      have hbm : b ∈ ch (g.hash tag) := (hmem b).2 ⟨hb, trivial, by rw [ht]⟩
      cases hf' : (ch (g.hash tag)).find? (v.holds tag) with
      | none => exact absurd (WaySet.holds_iff.2 ⟨ht, hv⟩) (List.find?_eq_none.1 hf' b hbm)
      | some a =>
          have ha := ((hmem a).1 (List.mem_of_find?_eq_some hf')).1
          obtain ⟨hta, hva⟩ := WaySet.holds_iff.1 (List.find?_some hf')
          rw [h.ok.unique a b ha hb hva hv (hta.trans ht.symm)]

/-- **The search along the way list** is a search along the order. -/
theorem Rep.wayFind (h : Rep g s v) (tag : Addr) : wayFind g s tag = some (v.find tag) := by
  unfold CacheSim.wayFind
  rw [h.holds, h.ways.forward.find_eq h.ok.length.le]
  rfl

/-- **The search** of the cache finds what a search along the order finds. -/
theorem Rep.findBlk (h : Rep g s v) (tag : Addr) : findBlk (ε := ε) g s tag = .ok (v.find tag) := by
  unfold CacheSim.findBlk
  by_cases hh : g.hsize ≠ 0
  · rw [if_pos hh, h.hashFind hh]
    rfl
  · rw [if_neg hh, h.wayFind]
    rfl

/-- A block is written to, and keeps its tag. -/
theorem Rep.setLine (h : Rep g s v) {l : Line} (ht : l.tag = (v.line b).tag)
    (hok : (v.setLine b l).Ok g) : Rep g (s.setLine b l) (v.setLine b l) := by
  refine ⟨?_, h.ways, fun hh => (h.hashed hh).setLine fun _ => ?_, hok⟩
  · change Function.update s.line b l = Function.update v.line b l
    rw [h.line]
  · rw [h.line]
    exact ht

/-- **Moving a block** to the head of its list. -/
theorem Rep.toHead (h : Rep g s v) (hb : b < g.assoc) :
    ∃ s', updateWayList (ε := ε) s b .Head = .ok s' ∧ Rep g s' (v.toHead b) := by
  obtain ⟨head, tail, next, prev, hs, hl⟩ := updateWayList_spec h.ways (h.ok.mem.2 hb) .Head
  exact ⟨_, hs, h.line, hl, h.hashed, h.ok.toHead hb⟩

/-- **Moving a block** to the tail of its list. -/
theorem Rep.toTail (h : Rep g s v) (hb : b < g.assoc) :
    ∃ s', updateWayList (ε := ε) s b .Tail = .ok s' ∧ Rep g s' (v.toTail b) := by
  obtain ⟨head, tail, next, prev, hs, hl⟩ := updateWayList_spec h.ways (h.ok.mem.2 hb) .Tail
  exact ⟨_, hs, h.line, hl, h.hashed, h.ok.toTail hb⟩

/-- **A block gets another tag**: it is unlinked from its chain before, and linked into the new one
afterwards. -/
theorem Rep.retag (h : Rep g s v) (hb : b < g.assoc) :
    ∃ s₁, unlinkHash (ε := ε) g s b = .ok s₁ ∧ s₁.line = v.line ∧
      ∀ l : Line, v.find l.tag = none →
        Rep g (linkHash g (s₁.setLine b l) b) (v.setLine b l) := by
  unfold unlinkHash linkHash
  by_cases hh : g.hsize ≠ 0
  · obtain ⟨hash, hashNext, hun, hhash⟩ := unlinkHtabEnt_spec (ε := ε) hh (h.hashed hh) hb
    rw [if_pos hh, hun]
    refine ⟨_, rfl, h.line, fun l hl => ?_⟩
    have hset : Hashed g (CacheSet.setLine { s with hash, hashNext } b l) (· ≠ b) :=
      hhash.setLine fun hn => absurd rfl hn
    obtain ⟨hash', hashNext', hlink, hhash'⟩ := linkHtabEnt_spec hset hb (not_not.2 rfl)
    rw [if_pos hh, hlink]
    refine ⟨?_, h.ways, fun _ => hhash'.congr fun a => ?_, h.ok.fill hl⟩
    · change Function.update s.line b l = Function.update v.line b l
      rw [h.line]
    · exact iff_true_intro (ne_or_eq a b)
  · rw [if_neg hh]
    refine ⟨s, rfl, h.line, fun l hl => ?_⟩
    rw [if_neg hh]
    refine ⟨?_, h.ways, fun hh' => absurd hh' hh, h.ok.fill hl⟩
    change Function.update s.line b l = Function.update v.line b l
    rw [h.line]

/-! ### New sets -/

/-- A set some blocks of which have been linked. -/
structure Linked (g : Params) (s : CacheSet) (n : ℕ) : Prop where
  line : s.line = fun _ => {}
  ways : WayList s (List.range n).reverse
  hashed : g.hsize ≠ 0 → Hashed g s (· < n)

theorem Linked.unlinked : Linked g CacheSet.unlinked 0 := by
  refine ⟨rfl, ⟨List.nodup_nil, rfl, rfl, trivial⟩, fun _ => ⟨fun _ => [], fun k _ => ?_⟩⟩
  exact ⟨rfl, List.nodup_nil, fun b => by simp⟩

/-- The first step of linking one more block: the hash table. -/
theorem Linked.linkHash {n : ℕ} (h : Linked g s n) (hn : n < g.assoc) :
    ∃ hash hashNext, linkHash g (s.setLine n {}) n = { s with hash, hashNext } ∧
      (g.hsize ≠ 0 → Hashed g { s with hash, hashNext } (· < n + 1)) := by
  have hline : s.setLine n {} = s := by
    unfold CacheSet.setLine
    rw [h.line, Function.update_eq_self_iff.2 rfl, ← h.line]
  unfold CacheSim.linkHash
  rw [hline]
  by_cases hh : g.hsize ≠ 0
  · obtain ⟨hash, hashNext, hlink, hhash⟩ := linkHtabEnt_spec (h.hashed hh) hn (lt_irrefl n)
    rw [if_pos hh]
    exact ⟨hash, hashNext, hlink, fun _ => hhash.congr fun a => Nat.lt_succ_iff_lt_or_eq.symm⟩
  · rw [if_neg hh]
    exact ⟨s.hash, s.hashNext, rfl, fun hh' => absurd hh' hh⟩

/-- One more block. -/
theorem Linked.linkBlk {n : ℕ} (h : Linked g s n) (hn : n < g.assoc) :
    Linked g (linkBlk g s n) (n + 1) := by
  obtain ⟨hash, hashNext, hlink, hhash⟩ := h.linkHash hn
  unfold CacheSim.linkBlk
  simp only [hlink]
  cases n with
  | zero =>
      -- the first block is at both ends of the list
      have hhead : s.wayHead = none := h.ways.head
      have htail : s.wayTail = none := h.ways.tail
      simp only [hhead, htail, CacheSet.setWayNext, CacheSet.setWayPrev, if_true]
      refine ⟨h.line, ⟨List.nodup_singleton 0, rfl, rfl, ?_⟩, hhash⟩
      exact ⟨Function.update_self (0 : ℕ) none s.wayPrev,
        Function.update_self (0 : ℕ) none s.wayNext,
        trivial⟩
  | succ n =>
      have hlist : (List.range (n + 1)).reverse = n :: (List.range n).reverse := by
        rw [List.range_succ, List.reverse_append, List.reverse_singleton, List.singleton_append]
      have hways := h.ways
      rw [hlist] at hways
      have hhead : s.wayHead = some n := hways.head
      have htail : s.wayTail ≠ none := by
        rw [hways.tail, List.getLast?_cons]
        exact Option.some_ne_none _
      have hnot : n + 1 ∉ n :: (List.range n).reverse := by
        rw [← hlist, List.mem_reverse, List.mem_range]
        exact lt_irrefl _
      have hpush := hways.pushFront hnot
      rw [hhead, ← hlist] at hpush
      simp only [hhead, CacheSet.setWayNext, CacheSet.setWayPrev, if_neg htail]
      refine ⟨h.line, ?_, hhash⟩
      rw [List.range_succ, List.reverse_append, List.reverse_singleton, List.singleton_append]
      exact hpush

/-- **A new set.** -/
theorem Rep.create (g : Params) : Rep g (CacheSet.create g) (WaySet.create g) := by
  have hall : ∀ n ≤ g.assoc,
      Linked g ((List.range n).foldl (CacheSim.linkBlk g) CacheSet.unlinked) n := by
    intro n hn
    induction n with
    | zero => exact Linked.unlinked
    | succ n ih =>
        rw [List.range_succ, List.foldl_append]
        exact (ih (by omega)).linkBlk (by omega)
  have h := hall g.assoc le_rfl
  refine ⟨h.line, h.ways, fun hh => ?_, WaySet.Ok.create g⟩
  obtain ⟨ch, hch⟩ := h.hashed hh
  refine ⟨ch, fun k hk => ⟨(hch k hk).1, (hch k hk).2.1, fun b => ?_⟩⟩
  rw [(hch k hk).2.2 b]
  exact ⟨fun ⟨h₁, _, h₂⟩ => ⟨h₁, trivial, h₂⟩, fun ⟨h₁, _, h₂⟩ => ⟨h₁, h₁, h₂⟩⟩

end CacheSim
