/-
**Counting acknowledgements.**

A cache that stores to a block with sharers waits for their acknowledgements.  The directory tells
it how many to expect, as a negative `AckCount` with the data, and sends the invalidations; each
sharer acknowledges to the cache.  Acknowledgements may overtake the data, and then `pendingAcks`
goes below zero.  This module relates the counter to the messages in flight: the invalidations that
name the cache as their requestor and the acknowledgements on their way to it.

The abstract protocol knows the set of caches that a cache waits for, and that its counter is right
for it (`Msi.Abs.Inv`).  What is left is to count: the messages in flight are those that the phases
imply, so there is one for each member of the set.

Main definitions:

* `Msi.System.outstanding` — the invalidations and acknowledgements in flight for a cache;
* `Msi.System.Incoming` — a response on its way to a cache.

Main results:

* `Msi.System.outstanding_eq` — there are as many as the cache waits for;
* `Msi.ack_accounting` — **the counter is right**, and the events that end a store come with the
  last acknowledgement, or with the data after it.
-/

import ArchLab.MsiSafety
import Mathlib.Algebra.BigOperators.Group.Finset.Piecewise
import Mathlib.Algebra.Order.BigOperators.Group.Finset
import Mathlib.Data.Fintype.Sum

set_option relaxedAutoImplicit false
set_option autoImplicit false

namespace Msi

/-! ### Counting in lists -/

section Counting

variable {α β γ : Type}

/-- Related lists have the same counts of related properties. -/
theorem countP_of_forall₂ {R : α → β → Prop} {p : α → Bool} {q : β → Bool} {l : List α}
    {l' : List β} (h : List.Forall₂ R l l') (hpq : ∀ x y, R x y → p x = q y) :
    l.countP p = l'.countP q := by
  induction h with
  | nil => rfl
  | cons hxy _ ih => rw [List.countP_cons, List.countP_cons, ih, hpq _ _ hxy]

/-- The counts for all values of a function make up the count. -/
theorem sum_countP_fiber [Fintype γ] [DecidableEq γ] (f : α → γ) (p : α → Bool) (l : List α) :
    ∑ z, l.countP (fun x => p x && decide (f x = z)) = l.countP p := by
  induction l with
  | nil => simp
  | cons x l ih =>
      simp only [List.countP_cons, Finset.sum_add_distrib, ih]
      cases hp : p x <;> simp

end Counting

/-! ### Messages in flight -/

section InFlight

variable {C D A : Type} [DecidableEq C] [DecidableEq D] [DecidableEq A] {n : ℕ} {cfg : Config D A}

/-- The machines are the caches and the directories. -/
instance [Fintype C] [Fintype D] : Fintype (MachineID C D) :=
  .ofEquiv (C ⊕ D)
    { toFun := Sum.elim .L1Cache .Directory
      invFun
        | .L1Cache c => .inl c
        | .Directory d => .inr d
      left_inv := fun x => by cases x <;> rfl
      right_inv := fun x => by cases x <;> rfl }

/-- An invalidation about a block that is to be acknowledged to a cache. -/
def RequestMsg.isInvFor (a : A) (c : C) (m : RequestMsg C D A n) : Bool :=
  decide (m.address = a ∧ m.type = .INV ∧ m.requestor = .L1Cache c)

/-- An acknowledgement about a block. -/
def ResponseMsg.isAck (a : A) (m : ResponseMsg C D A n) : Bool :=
  decide (m.address = a ∧ m.type = .ACK)

namespace System

/-- The invalidations in flight that are to be acknowledged to a cache, in the networks and in the
queues. -/
def invsFor [Fintype C] [Fintype D] (s : System C D A n cfg) (a : A) (c : C) : ℕ :=
  ∑ b, ((s.l1 b).forwardToCache.countP (·.isInvFor a c) +
    ∑ d, (s.forwardNet d b).countP (·.isInvFor a c))

/-- The acknowledgements in flight to a cache, in the networks and in its queue. -/
def acksTo [Fintype C] [Fintype D] (s : System C D A n cfg) (a : A) (c : C) : ℕ :=
  (s.l1 c).responseToCache.countP (·.isAck a) +
    ∑ src, (s.responseNet src (.L1Cache c)).countP (·.isAck a)

/-- **The acknowledgements that are still to come**: those in flight and those whose invalidation
is. -/
def outstanding [Fintype C] [Fintype D] (s : System C D A n cfg) (a : A) (c : C) : ℕ :=
  s.invsFor a c + s.acksTo a c

/-- A response on its way to a cache. -/
def Incoming (s : System C D A n cfg) (c : C) (m : ResponseMsg C D A n) : Prop :=
  m ∈ (s.l1 c).responseToCache ∨ ∃ src, m ∈ s.responseNet src (.L1Cache c)

end System

end InFlight

/-! ### What the phases imply -/

section Phases

variable {C D A V : Type} [DecidableEq C] [DecidableEq D] {n : ℕ}

/-- The message is an invalidation that is to be acknowledged to a cache. -/
def Fwd.isInvFor (c : C) : Fwd C → Bool
  | .inv r _ => decide (r = c)
  | .own _ _ _ | .wbAck => false

/-- The message is an acknowledgement. -/
def Resp.isAck : Resp V → Bool
  | .ack => true
  | .dir _ _ | .owner _ | .toDir _ => false

/-- A phase implies at most one invalidation. -/
theorem Phase.countP_fwds (p : Phase C V) (c : C) :
    p.fwds.countP (·.isInvFor c) = if p.inv.map Prod.fst = some c then 1 else 0 := by
  have hown : (p.own.toList.map fun o => Fwd.own o.1 o.2.1 o.2.2).countP (·.isInvFor c) = 0 := by
    cases p.own <;> rfl
  have hack : (if p.acked then [Fwd.wbAck] else []).countP (·.isInvFor c) = 0 := by
    cases p.acked <;> rfl
  rw [Phase.fwds, List.countP_append, List.countP_append, hown, hack]
  cases hi : p.inv with
  | none => rfl
  | some i => simp [Fwd.isInvFor, List.countP_cons]

/-- From each machine there is at most one acknowledgement. -/
theorem Abs.countP_resps {home : D} (t : Abs C V) (src : MachineID C D) (c : C) :
    (t.resps home src (.L1Cache c)).countP Resp.isAck =
      if src ∈ caches D (t.ackIn c) then 1 else 0 := by
  cases src with
  | Directory d =>
      have hdir : ((t.ph c).fromDir).countP Resp.isAck = 0 := by
        unfold Phase.fromDir
        split <;> rfl
      have hnot : MachineID.Directory d ∉ caches D (t.ackIn c) := by simp [caches]
      rw [if_neg hnot]
      simp only [Abs.resps]
      split
      · exact hdir
      · rfl
  | L1Cache b =>
      have howner : ((t.ph c).fromOwner b).countP Resp.isAck = 0 := by
        unfold Phase.fromOwner
        split
        · split <;> rfl
        · rfl
      simp only [Abs.resps, List.countP_append, howner, mem_caches, Nat.zero_add]
      split <;> rfl

/-- The messages that are counted are those of the phases. -/
theorem Fwd.Matches.isInvFor_eq {f : Fwd C} {m : RequestMsg C D A n}
    (h : f.Matches m) (c : C) :
    f.isInvFor c = decide (m.type = .INV ∧ m.requestor = .L1Cache c) := by
  cases f with
  | inv r time =>
      obtain ⟨ht, hr, -⟩ := h
      simp [Fwd.isInvFor, ht, hr]
  | own k r time =>
      obtain ⟨ht, -, -⟩ := h
      cases k <;> simp [Fwd.isInvFor, ht, Kind.type]
  | wbAck =>
      have ht : m.type = .WB_ACK := h
      simp [Fwd.isInvFor, ht]

omit [DecidableEq C] [DecidableEq D] in
theorem Resp.Matches.isAck_eq {f : Resp (DataBlock n)} {m : ResponseMsg C D A n} (h : f.Matches m) :
    f.isAck = decide (m.type = .ACK) := by
  cases f with
  | dir | owner | ack | toDir => simp [Resp.isAck, h.1]

end Phases

/-! ### The count -/

section Count

variable {C D A : Type} [DecidableEq C] [DecidableEq D] [DecidableEq A] {n : ℕ} {cfg : Config D A}
  {s : System C D A n cfg} {a : A} {t : Abs C (DataBlock n)}

/-- Counting messages about a block. -/
theorem countP_isInvFor (q : List (RequestMsg C D A n)) (a : A) (c : C) :
    q.countP (·.isInvFor a c) = (q.filter fun m => m.address = a).countP fun m =>
      decide (m.type = .INV ∧ m.requestor = .L1Cache c) := by
  rw [List.countP_filter]
  congr 1
  funext m
  unfold RequestMsg.isInvFor
  rw [Bool.decide_and, Bool.and_comm]

omit [DecidableEq C] [DecidableEq D] in
theorem countP_isAck (q : List (ResponseMsg C D A n)) (a : A) :
    q.countP (·.isAck a) = (q.filter fun m => m.address = a).countP fun m =>
      decide (m.type = .ACK) := by
  rw [List.countP_filter]
  congr 1
  funext m
  unfold ResponseMsg.isAck
  rw [Bool.decide_and, Bool.and_comm]

/-- A cache has at most one invalidation that is to be acknowledged to another one. -/
theorem Rel.countP_forward [Fintype D] (h : Rel (cfg.mapAddressToDirectory a) (s.block a) t)
    (b c : C) : (s.l1 b).forwardToCache.countP (·.isInvFor a c) +
      ∑ d, (s.forwardNet d b).countP (·.isInvFor a c) =
        if (t.ph b).inv.map Prod.fst = some c then 1 else 0 := by
  have hnet : ∑ d, (s.forwardNet d b).countP (·.isInvFor a c) =
      (s.forwardNet (cfg.mapAddressToDirectory a) b).countP (·.isInvFor a c) := by
    refine Finset.sum_eq_single _ ?_ fun hd => absurd (Finset.mem_univ _) hd
    intro d _ hd
    have hstray : (s.block a).stray d b = [] := h.stray d b
    simp only [System.block, if_neg hd] at hstray
    rw [countP_isInvFor, hstray]
    rfl
  rw [hnet, countP_isInvFor, countP_isInvFor, ← List.countP_append, ← Phase.countP_fwds]
  exact (countP_of_forall₂ (h.fwd b) fun f m hf => hf.isInvFor_eq c).symm

/-- A cache has sent at most one acknowledgement to another one. -/
theorem Rel.countP_response (h : Rel (cfg.mapAddressToDirectory a) (s.block a) t)
    (src : MachineID C D) (c : C) :
    ((s.l1 c).responseToCache.countP fun m => m.isAck a && decide (m.sender = src)) +
      (s.responseNet src (.L1Cache c)).countP (·.isAck a) =
        if src ∈ caches D (t.ackIn c) then 1 else 0 := by
  have hqueue : ((s.l1 c).responseToCache.countP fun m => m.isAck a && decide (m.sender = src)) =
      ((s.l1 c).responseToCache.filter fun m => m.address = a ∧ m.sender = src).countP fun m =>
        decide (m.type = .ACK) := by
    rw [List.countP_filter]
    congr 1
    funext m
    unfold ResponseMsg.isAck
    rw [Bool.decide_and, Bool.decide_and, Bool.and_assoc, Bool.and_left_comm]
  rw [hqueue, countP_isAck, ← List.countP_append, ← t.countP_resps src c]
  exact (countP_of_forall₂ (h.resp src (.L1Cache c)) fun f m hf => hf.isAck_eq).symm

/-- **There are as many messages in flight as a cache waits for.** -/
theorem System.outstanding_eq [Fintype C] [Fintype D]
    (h : Rel (cfg.mapAddressToDirectory a) (s.block a) t) {g : DataBlock n} (hinv : t.Inv g)
    (c : C) : s.outstanding a c = (t.wait c).card := by
  have hinvs : s.invsFor a c = (Finset.univ.filter fun b =>
      (t.ph b).inv.map Prod.fst = some c).card := by
    rw [Finset.card_filter]
    exact Finset.sum_congr rfl fun b _ => h.countP_forward b c
  have hacks : s.acksTo a c = (t.ackIn c).card := by
    unfold acksTo
    rw [← sum_countP_fiber ResponseMsg.sender, ← Finset.sum_add_distrib,
      Finset.sum_congr rfl fun src _ => h.countP_response src c, ← Finset.card_filter,
      Finset.filter_univ_mem, card_caches]
  have hdisj : Disjoint (Finset.univ.filter fun b => (t.ph b).inv.map Prod.fst = some c)
      (t.ackIn c) := by
    rw [Finset.disjoint_left]
    intro b hb
    obtain ⟨i, hi, rfl⟩ := Option.map_eq_some_iff.1 (Finset.mem_filter.1 hb).2
    exact hinv.waits.once b i.1 i.2 hi
  have hwait : t.wait c = (Finset.univ.filter fun b =>
      (t.ph b).inv.map Prod.fst = some c) ∪ t.ackIn c := by
    ext b
    rw [hinv.waits.mem b c, Finset.mem_union, Finset.mem_filter]
    refine or_congr ?_ Iff.rfl
    constructor
    · rintro ⟨time, hi⟩
      exact ⟨Finset.mem_univ b, by rw [hi]; rfl⟩
    · rintro ⟨-, hb⟩
      obtain ⟨i, hi, rfl⟩ := Option.map_eq_some_iff.1 hb
      exact ⟨i.2, hi⟩
  unfold outstanding
  rw [hinvs, hacks, hwait, Finset.card_union_of_disjoint hdisj]

end Count

/-! ### The counter -/

namespace Phase

variable {C V : Type} {p : Phase C V} {k : ℤ} {w : Finset C}

/-- The counter once the data has come. -/
theorem ackOk_after (h : p.ackOk k w) (hst : p.st = .IM_A ∨ p.st = .SM_A) :
    0 < k ∧ k = w.card := by
  cases p with
  | storeAcks | upgradeAcks => exact h
  | _ => simp at hst

/-- The counter while the data is on its way from the directory. -/
theorem ackOk_before {d : V} {j : ℕ} (h : p.ackOk k w) (hst : p.st = .IM_AD ∨ p.st = .SM_AD)
    (hsrc : p.src = some (.dir d j)) : k ≤ 0 ∧ k + j = w.card := by
  cases p with
  | storeWait x o =>
      cases hsrc
      exact h
  | upgradeData d' j' o =>
      cases hsrc
      exact h
  | loadWait x i => simp at hst
  | _ => cases hsrc

/-- Otherwise there is nothing to wait for. -/
theorem wait_eq_empty (h : p.ackOk k w) (ha : ¬ (p.st = .IM_A ∨ p.st = .SM_A))
    (hb : p.st = .IM_AD ∨ p.st = .SM_AD → ∀ d j, p.src ≠ some (.dir d j)) : w = ∅ := by
  cases p with
  | storeAcks | upgradeAcks => simp at ha
  | storeWait x o =>
      cases x with
      | dir d j => exact absurd rfl (hb (.inl rfl) d j)
      | mem | owner | fwd => exact h.2
  | upgradeData d j o => exact absurd rfl (hb (.inr rfl) d j)
  | storeSent | upgradeSent | upgradeFwd => exact h.2
  | _ => exact h

/-- The data of a load comes without acknowledgements. -/
theorem ackCount_of_load {d : V} {j : ℕ} (h : p.invOk) (hst : ¬ (p.st = .IM_AD ∨ p.st = .SM_AD))
    (hsrc : p.src = some (.dir d j)) : j = 0 := by
  cases p with
  | loadWait x i =>
      cases hsrc
      exact h
  | storeWait | upgradeData => simp at hst
  | _ => cases hsrc

end Phase

namespace L1Cache

variable {C D A : Type} {n : ℕ} {tbe : Option (TBE n)} {m : ResponseMsg C D A n}

/-- Which responses end a store. -/
theorem type_of_responseEvent {ev : Event} (h : responseEvent tbe m = .ok ev) :
    (ev = .Inv_Ack_all → m.type = .ACK) ∧
      (ev = .Data_from_Dir_Ack_Cnt_Last → m.type = .DATA_FROM_DIR) := by
  unfold responseEvent at h
  split at h
  · next ht =>
      refine ⟨?_, fun _ => ht⟩
      rintro rfl
      split at h
      · cases h
      · obtain ⟨_, -, h⟩ := need_bind_eq_ok.1 h
        split at h <;> cases h
  · cases h
    constructor <;> rintro ⟨⟩
  · next ht =>
      refine ⟨fun _ => ht, ?_⟩
      rintro rfl
      obtain ⟨_, -, h⟩ := need_bind_eq_ok.1 h
      split at h <;> cases h
  · cases h

end L1Cache

section Responses

variable {C D A : Type} [DecidableEq C] [DecidableEq D] [DecidableEq A] {n : ℕ} {cfg : Config D A}
  {s : System C D A n cfg} {a : A} {t : Abs C (DataBlock n)} {c : C} {m : ResponseMsg C D A n}

/-- A response on its way to a cache is one that the phases imply. -/
theorem Rel.exists_resp (h : Rel (cfg.mapAddressToDirectory a) (s.block a) t)
    (hm : s.Incoming c m) (ha : m.address = a) :
    ∃ src, ∃ r ∈ t.resps (cfg.mapAddressToDirectory a) src (.L1Cache c), r.Matches m := by
  rcases hm with hm | ⟨src, hm⟩
  · refine ⟨m.sender, exists_left_of_mem (h.resp m.sender (.L1Cache c)) ?_⟩
    exact List.mem_append_left _ (List.mem_filter.2 ⟨hm, by simp [ha]⟩)
  · refine ⟨src, exists_left_of_mem (h.resp src (.L1Cache c)) ?_⟩
    exact List.mem_append_right _ (List.mem_filter.2 ⟨hm, by simp [ha]⟩)

/-- The data of the directory is on its way exactly if the phase says so. -/
theorem Rel.incoming_data_iff (h : Rel (cfg.mapAddressToDirectory a) (s.block a) t) (k : ℤ) :
    (∃ m, s.Incoming c m ∧ m.address = a ∧ m.type = .DATA_FROM_DIR ∧ m.ackCount = k) ↔
      ∃ d j, (t.ph c).src = some (.dir d j) ∧ k = -(j : ℤ) := by
  constructor
  · rintro ⟨m, hm, ha, ht, rfl⟩
    obtain ⟨src, r, hr, hmatch⟩ := h.exists_resp hm ha
    cases r with
    | owner | ack | toDir => cases ht.symm.trans hmatch.1
    | dir d j =>
        refine ⟨d, j, ?_, hmatch.2.2⟩
        cases src with
        | Directory e =>
            simp only [Abs.resps, Phase.fromDir] at hr
            split at hr
            · split at hr
              · next hsrc =>
                  rw [hsrc]
                  cases List.mem_singleton.1 hr
                  rfl
              · cases hr
            · cases hr
        | L1Cache b =>
            exfalso
            rcases List.mem_append.1 hr with hr | hr
            · unfold Phase.fromOwner at hr
              split at hr
              · split at hr
                · cases List.mem_singleton.1 hr
                · cases hr
              · cases hr
            · split at hr
              · cases List.mem_singleton.1 hr
              · cases hr
  · rintro ⟨d, j, hsrc, rfl⟩
    have hr : Resp.dir d j ∈ t.resps (cfg.mapAddressToDirectory a)
        (.Directory (cfg.mapAddressToDirectory a)) (.L1Cache c) := by
      simp only [Abs.resps, Phase.fromDir, hsrc]
      simp
    obtain ⟨m, hm, hmatch⟩ := exists_right_of_mem (h.resp _ _) hr
    rcases List.mem_append.1 hm with hm | hm
    · obtain ⟨hm, ha⟩ := List.mem_filter.1 hm
      exact ⟨m, .inl hm, (of_decide_eq_true ha).1, hmatch.1, hmatch.2.2⟩
    · obtain ⟨hm, ha⟩ := List.mem_filter.1 hm
      exact ⟨m, .inr ⟨_, hm⟩, of_decide_eq_true ha, hmatch.1, hmatch.2.2⟩

/-- An acknowledgement on its way is one that the cache waits for. -/
theorem Rel.incoming_ack (h : Rel (cfg.mapAddressToDirectory a) (s.block a) t) {g : DataBlock n}
    (hinv : t.Inv g) (hm : s.Incoming c m) (ha : m.address = a) (ht : m.type = .ACK) :
    m.ackCount = 1 ∧ t.wait c ≠ ∅ := by
  obtain ⟨src, r, hr, hmatch⟩ := h.exists_resp hm ha
  cases r with
  | dir | owner | toDir => cases ht.symm.trans hmatch.1
  | ack =>
      refine ⟨hmatch.2, ?_⟩
      have hpos : 0 < (t.resps (cfg.mapAddressToDirectory a) src (.L1Cache c)).countP Resp.isAck :=
        List.countP_pos_iff.2 ⟨.ack, hr, rfl⟩
      rw [t.countP_resps src c] at hpos
      split at hpos
      · next hsrc =>
          obtain ⟨b, hb, -⟩ := Finset.mem_map.1 hsrc
          exact Finset.ne_empty_of_mem (hinv.waits.mem_of_ack hb)
      · cases hpos

/-- The transient entry of a cache that waits holds its counter. -/
theorem Rel.tbe_of_waiting (h : Rel (cfg.mapAddressToDirectory a) (s.block a) t)
    (hst : s.state c a ∉ [.I, .S, .M]) :
    (s.l1 c).tbes a = some ⟨s.state c a, (t.cell c).tdata, (t.cell c).acks⟩ := by
  have hstate : s.state c a = (t.cell c).ph.st := h.state c
  have htbe : (s.l1 c).tbes a = (t.cell c).tbe := h.tbe c
  rw [htbe, hstate]
  rw [hstate] at hst
  unfold Cell.tbe
  generalize (t.cell c).ph.st = st at hst
  cases st with
  | I | S | M => simp at hst
  | _ => rfl

variable [Fintype C] [Fintype D] {g : DataBlock n}

/-- The counter once the data has come. -/
theorem Rel.pendingAcks_after (h : Rel (cfg.mapAddressToDirectory a) (s.block a) t)
    (hinv : t.Inv g) (hst : s.state c a = .IM_A ∨ s.state c a = .SM_A) :
    ∃ tbe, (s.l1 c).tbes a = some tbe ∧ tbe.pendingAcks = s.outstanding a c ∧
      0 < s.outstanding a c := by
  have hstate : s.state c a = (t.ph c).st := h.state c
  have hbusy : s.state c a ∉ [.I, .S, .M] := by
    rcases hst with hst | hst <;> rw [hst] <;> decide
  obtain ⟨hpos, hcard⟩ := Phase.ackOk_after (hinv.cells c).acks (hstate ▸ hst)
  refine ⟨_, h.tbe_of_waiting hbusy, ?_, ?_⟩
  · rw [System.outstanding_eq h hinv c]
    exact hcard
  · rw [System.outstanding_eq h hinv c]
    omega

/-- The counter while the data is on its way from the directory. -/
theorem Rel.pendingAcks_before (h : Rel (cfg.mapAddressToDirectory a) (s.block a) t)
    (hinv : t.Inv g) (hst : s.state c a = .IM_AD ∨ s.state c a = .SM_AD)
    (hm : s.Incoming c m) (ha : m.address = a) (ht : m.type = .DATA_FROM_DIR) :
    ∃ tbe, (s.l1 c).tbes a = some tbe ∧ tbe.pendingAcks ≤ 0 ∧
      tbe.pendingAcks - m.ackCount = s.outstanding a c := by
  have hstate : s.state c a = (t.ph c).st := h.state c
  have hbusy : s.state c a ∉ [.I, .S, .M] := by
    rcases hst with hst | hst <;> rw [hst] <;> decide
  obtain ⟨d, j, hsrc, hj⟩ := (h.incoming_data_iff m.ackCount).1 ⟨m, hm, ha, ht, rfl⟩
  obtain ⟨hle, hcard⟩ := Phase.ackOk_before (hinv.cells c).acks (hstate ▸ hst) hsrc
  refine ⟨_, h.tbe_of_waiting hbusy, hle, ?_⟩
  rw [System.outstanding_eq h hinv c, hj, ← hcard]
  change (t.cell c).acks - -(j : ℤ) = _
  omega

/-- Otherwise nothing is in flight. -/
theorem Rel.outstanding_eq_zero (h : Rel (cfg.mapAddressToDirectory a) (s.block a) t)
    (hinv : t.Inv g) (hafter : ¬ (s.state c a = .IM_A ∨ s.state c a = .SM_A))
    (hbefore : ¬ ((s.state c a = .IM_AD ∨ s.state c a = .SM_AD) ∧
      ∃ m, s.Incoming c m ∧ m.address = a ∧ m.type = .DATA_FROM_DIR)) :
    s.outstanding a c = 0 := by
  have hstate : s.state c a = (t.ph c).st := h.state c
  rw [hstate] at hafter hbefore
  rw [System.outstanding_eq h hinv c, Finset.card_eq_zero]
  refine Phase.wait_eq_empty (hinv.cells c).acks hafter ?_
  intro hst d j hsrc
  obtain ⟨m, hm, ha, ht, -⟩ := (h.incoming_data_iff (-(j : ℤ))).2 ⟨d, j, hsrc, rfl⟩
  exact hbefore ⟨hst, m, hm, ha, ht⟩

/-- The event of an acknowledgement. -/
theorem Rel.responseEvent_all_iff (h : Rel (cfg.mapAddressToDirectory a) (s.block a) t)
    (hinv : t.Inv g) (hm : s.Incoming c m) (ha : m.address = a) (ht : m.type = .ACK) :
    L1Cache.responseEvent ((s.l1 c).tbes a) m = .ok .Inv_Ack_all ↔
      (s.state c a = .IM_A ∨ s.state c a = .SM_A) ∧ s.outstanding a c = 1 := by
  obtain ⟨hone, hne⟩ := h.incoming_ack hinv hm ha ht
  have hpos : s.outstanding a c ≠ 0 := by
    rw [System.outstanding_eq h hinv c]
    exact Finset.card_ne_zero.2 (Finset.nonempty_iff_ne_empty.2 hne)
  by_cases hafter : s.state c a = .IM_A ∨ s.state c a = .SM_A
  · obtain ⟨tbe, htbe, hacks, -⟩ := h.pendingAcks_after hinv hafter
    rw [htbe, L1Cache.responseEvent_ack ht hone, hacks, and_iff_right hafter]
    split <;> simp <;> omega
  · -- the data has not come yet, and the counter is not positive
    refine iff_of_false ?_ fun hc => hafter hc.1
    by_cases hbefore : (s.state c a = .IM_AD ∨ s.state c a = .SM_AD) ∧
        ∃ m, s.Incoming c m ∧ m.address = a ∧ m.type = .DATA_FROM_DIR
    · obtain ⟨hst, m', hm', ha', ht'⟩ := hbefore
      obtain ⟨tbe, htbe, hle, -⟩ := h.pendingAcks_before hinv hst hm' ha' ht'
      rw [htbe, L1Cache.responseEvent_ack ht hone, if_neg (by omega)]
      rintro ⟨⟩
    · exact absurd (h.outstanding_eq_zero hinv hafter hbefore) hpos

/-- The event of the data of the directory. -/
theorem Rel.responseEvent_last_iff (h : Rel (cfg.mapAddressToDirectory a) (s.block a) t)
    (hinv : t.Inv g) (hm : s.Incoming c m) (ha : m.address = a) (ht : m.type = .DATA_FROM_DIR) :
    L1Cache.responseEvent ((s.l1 c).tbes a) m = .ok .Data_from_Dir_Ack_Cnt_Last ↔
      m.ackCount ≠ 0 ∧ s.outstanding a c = 0 := by
  have hstate : s.state c a = (t.ph c).st := h.state c
  obtain ⟨d, j, hsrc, hj⟩ := (h.incoming_data_iff m.ackCount).1 ⟨m, hm, ha, ht, rfl⟩
  by_cases hzero : m.ackCount = 0
  · refine iff_of_false ?_ fun hc => hc.1 hzero
    unfold L1Cache.responseEvent
    rw [ht]
    simp only [if_pos hzero]
    rintro ⟨⟩
  · have hst : s.state c a = .IM_AD ∨ s.state c a = .SM_AD := by
      by_contra hst
      have hj₀ := Phase.ackCount_of_load (hinv.cells c).inv (hstate ▸ hst) hsrc
      omega
    obtain ⟨tbe, htbe, -, hacks⟩ := h.pendingAcks_before hinv hst hm ha ht
    rw [htbe, L1Cache.responseEvent_dir ht hj (by omega), and_iff_right hzero]
    split <;> simp <;> omega

end Responses

/-! ### Reachable states -/

section Reachable

variable {C D A : Type} [DecidableEq C] [DecidableEq D] [DecidableEq A] [Fintype C] [Fintype D]
  {n : ℕ} {cfg : Config D A} {s : System C D A n cfg}

/-- **The counter of acknowledgements is right.** In `IM_A` and `SM_A` it is the number of those
that are still to come, and there are some; while the data is on its way from the directory, it is
that number less those the data announces; otherwise none is to come.  The event `Inv_Ack_all` comes
with the last one after the data, and `Data_from_Dir_Ack_Cnt_Last` with the data after the last
one. -/
theorem ack_accounting {mem : A → DataBlock n} (h : Reachable mem s) (c : C) (a : A) :
    (s.state c a = .IM_A ∨ s.state c a = .SM_A → ∃ tbe, (s.l1 c).tbes a = some tbe ∧
      tbe.pendingAcks = s.outstanding a c ∧ 0 < s.outstanding a c) ∧
    (∀ m, s.state c a = .IM_AD ∨ s.state c a = .SM_AD → s.Incoming c m → m.address = a →
      m.type = .DATA_FROM_DIR → ∃ tbe, (s.l1 c).tbes a = some tbe ∧ tbe.pendingAcks ≤ 0 ∧
        tbe.pendingAcks - m.ackCount = s.outstanding a c) ∧
    (¬ (s.state c a = .IM_A ∨ s.state c a = .SM_A) →
      ¬ ((s.state c a = .IM_AD ∨ s.state c a = .SM_AD) ∧
        ∃ m, s.Incoming c m ∧ m.address = a ∧ m.type = .DATA_FROM_DIR) →
      s.outstanding a c = 0) ∧
    ∀ m q, (s.l1 c).responseToCache = m :: q → m.address = a →
      (L1Cache.responseEvent ((s.l1 c).tbes a) m = .ok .Inv_Ack_all ↔
        m.type = .ACK ∧ (s.state c a = .IM_A ∨ s.state c a = .SM_A) ∧ s.outstanding a c = 1) ∧
      (L1Cache.responseEvent ((s.l1 c).tbes a) m = .ok .Data_from_Dir_Ack_Cnt_Last ↔
        m.type = .DATA_FROM_DIR ∧ m.ackCount ≠ 0 ∧ s.outstanding a c = 0) := by
  obtain ⟨value, hcoh⟩ := Reachable.coherent h
  obtain ⟨t, hrel, hinv⟩ := hcoh.block a
  refine ⟨hrel.pendingAcks_after hinv, ?_, hrel.outstanding_eq_zero hinv, ?_⟩
  · intro m hst hm ha ht
    exact hrel.pendingAcks_before hinv hst hm ha ht
  · intro m q hq ha
    have hm : s.Incoming c m := .inl (hq ▸ List.mem_cons_self)
    constructor
    · constructor
      · intro hev
        have ht := (L1Cache.type_of_responseEvent hev).1 rfl
        exact ⟨ht, (hrel.responseEvent_all_iff hinv hm ha ht).1 hev⟩
      · rintro ⟨ht, hlast⟩
        exact (hrel.responseEvent_all_iff hinv hm ha ht).2 hlast
    · constructor
      · intro hev
        have ht := (L1Cache.type_of_responseEvent hev).2 rfl
        exact ⟨ht, (hrel.responseEvent_last_iff hinv hm ha ht).1 hev⟩
      · rintro ⟨ht, hlast⟩
        exact (hrel.responseEvent_last_iff hinv hm ha ht).2 hlast

end Reachable

/-- Two caches load a block, and a third one stores to it: its data has come, the acknowledgements
have not. -/
def storeToShared : List DemoMove :=
  ask 0 0 .LD ++ fetch 0 0 ++ ask 1 0 .LD ++
    [.deliverResponse (.Directory 0) (.L1Cache 1), .response 1 default] ++ ask 2 0 .ST ++
    [.deliverResponse (.Directory 0) (.L1Cache 2), .response 2 default]

theorem ack_accounting_demo : (after storeToShared).2.state 2 0 = .IM_A ∧
    ∃ tbe, ((after storeToShared).2.l1 2).tbes 0 = some tbe ∧
      tbe.pendingAcks = (after storeToShared).2.outstanding 0 2 ∧
      0 < (after storeToShared).2.outstanding 0 2 := by
  have hst : (after storeToShared).2.state 2 0 = .IM_A := by decide +kernel
  exact ⟨hst, (ack_accounting ⟨_, run_after (by decide +kernel)⟩ 2 0).1 (.inl hst)⟩

end Msi
