/-
**Blocks with few messages in flight.**

What the phases of a block can be while no response and no memory request about it is in flight, and
while nothing at all is.  The first is what is left when all controllers have processed what never
waits: then a forwarded request or an invalidation waits only for one that was sent earlier
(`Msi.Abs.Inv.waits_for_earlier`), which is the heart of deadlock freedom.  The second is the
situation in which the directory's view of the block is exact.

Main definitions:

* `Msi.Abs.Settled` — no response and no memory request is in flight;
* `Msi.Abs.Quiet` — nothing is in flight;
* `Msi.Fwd.time?` — when the directory sent a forwarded request or an invalidation.

Main results:

* `Msi.Abs.Inv.waits_for_earlier` — in a settled block, a stalled message waits for an earlier one;
* `Msi.Abs.Inv.fwds_of_busy`, `Msi.Abs.Inv.fwds_of_transient` — in a settled block, a transient
  state of the directory or of a cache comes with a message on the forward or the request network;
* `Msi.Abs.Inv.quiet_phase`, `Msi.Abs.Inv.quiet_dir` — the phases and the directory of a quiet
  block.
-/

import ArchLab.MsiSimForward
import ArchLab.MsiSimDir

set_option relaxedAutoImplicit false
set_option autoImplicit false

namespace Msi

/-- When the directory sent a forwarded request or an invalidation. -/
def Fwd.time? {C : Type} : Fwd C → Option ℕ
  | .inv _ t | .own _ _ t => some t
  | .wbAck => none

/-- The time is that of the message. -/
theorem Fwd.Matches.time {C D A : Type} {n : ℕ} {f : Fwd C} {m : RequestMsg C D A n}
    (h : f.Matches m) {t : ℕ} (ht : f.time? = some t) : m.time = t := by
  cases f with
  | inv | own =>
      cases ht
      exact h.2.2
  | wbAck => cases ht

/-- An invalidation in a queue, as a message. -/
theorem Phase.mem_fwds_inv {C V : Type} {p : Phase C V} {c : C} {t : ℕ}
    (hp : p.inv = some (c, t)) : .inv c t ∈ p.fwds := by
  unfold fwds
  rw [hp]
  simp

/-- A forwarded request in a queue, as a message. -/
theorem Phase.mem_fwds_own {C V : Type} {p : Phase C V} {k : Kind} {c : C} {t : ℕ}
    (hp : p.own = some (k, c, t)) : .own k c t ∈ p.fwds := by
  unfold fwds
  rw [hp]
  simp

namespace Abs

variable {C D V : Type} [DecidableEq C] [DecidableEq D] {g : V} {s : Abs C V} {home : D}

/-- No response and no memory request about the block is in flight. -/
structure Settled (home : D) (s : Abs C V) : Prop where
  resp : ∀ src dst, s.resps home src dst = []
  mem : s.mem = none

/-- Nothing about the block is in flight. -/
structure Quiet (home : D) (s : Abs C V) : Prop extends Settled home s where
  req : ∀ c, (s.ph c).req = none
  fwds : ∀ c, (s.ph c).fwds = []

namespace Settled

variable (h : Settled home s)
include h

theorem ackIn (c : C) : s.ackIn c = ∅ := by
  refine Finset.eq_empty_of_forall_notMem fun b hb => ?_
  have := h.resp (.L1Cache b) (.L1Cache c)
  simp [resps, hb] at this

theorem toDir : s.toDir = none := by
  cases ht : s.toDir with
  | none => rfl
  | some p =>
      obtain ⟨o, v⟩ := p
      have := h.resp (.L1Cache o) (.Directory home)
      simp [resps, ht] at this

/-- A cache waits for the memory controller or for an owner, if it waits at all. -/
theorem src (c : C) :
    (s.ph c).src = none ∨ (s.ph c).src = some .mem ∨ ∃ f, (s.ph c).src = some (.fwd f) := by
  have hd := h.resp (.Directory home) (.L1Cache c)
  simp only [resps, if_true] at hd
  cases hs : (s.ph c).src with
  | none => exact .inl rfl
  | some w =>
      cases w with
      | mem => exact .inr (.inl rfl)
      | fwd f => exact .inr (.inr ⟨f, rfl⟩)
      | dir d k =>
          simp only [Phase.fromDir, hs] at hd
          cases hd
      | owner o d =>
          have ho := h.resp (.L1Cache o) (.L1Cache c)
          simp only [resps, Phase.fromOwner, hs, if_true] at ho
          cases ho

end Settled

namespace Inv

variable (h : s.Inv g) (hs : Settled home s)
include h hs

/-- A cache waits for an owner, if it waits at all. -/
theorem src_settled (c : C) : (s.ph c).src = none ∨ ∃ f, (s.ph c).src = some (.fwd f) := by
  rcases hs.src c with hc | hc | hc
  · exact .inl hc
  · have hf : (s.ph c).fetching = true := by
      generalize s.ph c = p at hc
      cases p with
      | loadWait w | storeWait w =>
          cases hc
          rfl
      | _ => cases hc
    obtain ⟨-, d, hd⟩ := h.fetching c hf
    exact absurd (hs.mem.symm.trans hd) (by simp)
  · exact .inr hc

/-- A cache whose acknowledgements are missing waits for an invalidation in another queue. -/
theorem inv_of_wait {b c : C} (hb : b ∈ s.wait c) : ∃ t, (s.ph b).inv = some (c, t) := by
  rcases (h.waits.mem b c).1 hb with hi | ha
  · exact hi
  · rw [hs.ackIn c] at ha
    exact absurd ha (Finset.notMem_empty b)

/-- **A stalled message waits for an earlier one.** In a settled block, if the head of a cache's
forward queue has to wait, the directory sent a message that is still in flight before it. -/
theorem waits_for_earlier {c : C} (hc : (s.ph c).fwdStalls = true) :
    ∃ f t fs, (s.ph c).fwds = f :: fs ∧ f.time? = some t ∧
      ∃ c' f' t', f' ∈ (s.ph c').fwds ∧ f'.time? = some t' ∧ t' < t := by
  have hsrc := h.src_settled hs c
  -- the owner of the data, and the caches that are still to acknowledge, were written to earlier
  have hown : ∀ {k : Kind} {r : C} {t : ℕ}, (s.ph c).own = some (k, r, t) →
      (∃ f, (s.ph c).fwd = some f) ∨ (s.wait c).Nonempty →
      ∃ c' f' t', f' ∈ (s.ph c').fwds ∧ Fwd.time? f' = some t' ∧ t' < t := by
    rintro k r t ho (⟨f, hf⟩ | ⟨b, hb⟩)
    · obtain ⟨k', t', hf'⟩ := (h.links.link f c).1 hf
      exact ⟨f, _, t', Phase.mem_fwds_own hf', rfl, h.links.order f k' c t' hf' k r t ho⟩
    · obtain ⟨t', hb'⟩ := h.inv_of_wait hs hb
      exact ⟨b, _, t', Phase.mem_fwds_inv hb', rfl, h.waits.order b c t' hb' k r t ho⟩
  have hok := h.ackOk (c := c) rfl
  have hinvok : (s.ph c).invOk := (h.cells c).inv
  generalize s.ph c = p at hc hsrc hown hok hinvok ⊢
  cases p with
  | loadWait w i =>
      -- an invalidation behind the data of a load: the data is in flight
      cases i with
      | none => cases hc
      | some i =>
          rcases hsrc with e | ⟨f, e⟩
          · cases e
          · cases e
            exact hinvok.elim
  | storeWait w o =>
      cases o with
      | none => cases hc
      | some o =>
          obtain ⟨k, r, t⟩ := o
          rcases hsrc with e | ⟨f, e⟩
          · cases e
          · cases e
            exact ⟨_, t, _, rfl, rfl, hown rfl (.inl ⟨f, rfl⟩)⟩
  | upgradeData d m o =>
      rcases hsrc with e | ⟨f, e⟩
      · cases e
      · cases e
  | storeAcks o | upgradeAcks o =>
      cases o with
      | none => cases hc
      | some o =>
          obtain ⟨k, r, t⟩ := o
          refine ⟨_, t, _, rfl, rfl, hown rfl (.inr ?_)⟩
          have hk : 0 < (s.wait c).card := by
            have h₁ := hok.1
            have h₂ := hok.2
            omega
          exact Finset.card_pos.1 hk
  | _ => cases hc

/-- A directory that is busy with a settled block has forwarded a request. -/
theorem fwds_of_busy (hd : s.dst.stable = false) :
    ∃ c f t, f ∈ (s.ph c).fwds ∧ f.time? = some t := by
  have hdir := h.dir
  generalize s.dst = d at hd hdir
  cases d with
  | I | S | M => cases hd
  | IS_MD =>
      obtain ⟨-, -, c, v, -, hm, -⟩ := hdir
      exact absurd (hs.mem.symm.trans hm) (by simp)
  | IM_MD =>
      obtain ⟨-, -, c, v, -, hm, -⟩ := hdir
      exact absurd (hs.mem.symm.trans hm) (by simp)
  | MS_MA =>
      obtain ⟨-, -, c, v, hm⟩ := hdir
      exact absurd (hs.mem.symm.trans hm) (by simp)
  | MI_MA =>
      obtain ⟨-, -, c, v, -, hm, -⟩ := hdir
      exact absurd (hs.mem.symm.trans hm) (by simp)
  | MS_OD =>
      obtain ⟨-, -, htd | ⟨o, r, t, ho⟩⟩ := hdir
      · exact absurd hs.toDir htd
      · exact ⟨o, _, t, Phase.mem_fwds_own ho, rfl⟩

/-- A cache in a transient state has a request in flight, a message in its forward queue, or waits
for one in another. -/
theorem fwds_of_transient {c : C} (hc : (s.ph c).st ∉ [.I, .S, .M]) :
    (s.ph c).req ≠ none ∨ ∃ c', (s.ph c').fwds ≠ [] := by
  have hsrc := h.src_settled hs c
  have hok := h.ackOk (c := c) rfl
  have hwr := h.writing c
  have hlink := fun f => (h.links.link f c).1
  have hfwds : ∀ {p : Phase C V}, s.ph c = p → p.fwds ≠ [] → ∃ c', (s.ph c').fwds ≠ [] :=
    fun e hp => ⟨c, by rwa [e]⟩
  have hfwd : (∃ f, (s.ph c).fwd = some f) → ∃ c', (s.ph c').fwds ≠ [] := by
    rintro ⟨f, hf⟩
    obtain ⟨k, t, ho⟩ := hlink f hf
    exact ⟨f, List.ne_nil_of_mem (Phase.mem_fwds_own ho)⟩
  have hwait : 0 < (s.cell c).acks ∧ (s.cell c).acks = (s.wait c).card →
      ∃ c', (s.ph c').fwds ≠ [] := by
    rintro ⟨h₁, h₂⟩
    obtain ⟨b, hb⟩ : (s.wait c).Nonempty := Finset.card_pos.1 (by omega)
    obtain ⟨t, hb'⟩ := h.inv_of_wait hs hb
    exact ⟨b, List.ne_nil_of_mem (Phase.mem_fwds_inv hb')⟩
  cases hp : s.ph c with
  | idle | shared | modified =>
      rw [hp] at hc
      simp at hc
  | loadSent | storeSent | upgradeSent | evictM | evictS | evictI => exact .inl nofun
  | loadWait w i | storeWait w i =>
      rw [hp] at hsrc hfwd
      rcases hsrc with e | ⟨f, e⟩
      · cases e
      · cases e
        exact .inr (hfwd ⟨f, rfl⟩)
  | upgradeData d k o =>
      rw [hp] at hsrc
      rcases hsrc with e | ⟨f, e⟩
      · cases e
      · cases e
  | upgradeFwd f i o => exact .inr (hfwd ⟨f, by rw [hp]; rfl⟩)
  | storeAcks o | upgradeAcks o =>
      rw [hp] at hok
      exact .inr (hwait hok)
  | evictMem =>
      obtain ⟨-, d, hd⟩ := hwr (by rw [hp]; rfl)
      exact absurd (hs.mem.symm.trans hd) (by simp)
  | evictAcked o | evictSAcked o | evictIAcked =>
      refine .inr (hfwds hp ?_)
      unfold Phase.fwds
      simp [Phase.acked]

end Inv

namespace Inv

variable (h : s.Inv g) (hq : Quiet home s)
include h hq

/-- Every cache is in a stable state while the block is quiet, and its queue is empty. -/
theorem quiet_phase (c : C) :
    s.ph c = .idle ∨ s.ph c = .shared none ∨ s.ph c = .modified none := by
  have hst : (s.ph c).st ∈ [.I, .S, .M] := by
    by_contra hc
    rcases h.fwds_of_transient hq.toSettled hc with hr | ⟨c', hf⟩
    · exact hr (hq.req c)
    · exact hf (hq.fwds c')
  have hfwds := hq.fwds c
  generalize s.ph c = p at hst hfwds
  cases p with
  | idle => exact .inl rfl
  | shared i =>
      cases i with
      | none => exact .inr (.inl rfl)
      | some i => cases hfwds
  | modified o =>
      cases o with
      | none => exact .inr (.inr rfl)
      | some o => cases hfwds
  | _ => simp at hst

/-- The directory is in a stable state while the block is quiet. -/
theorem quiet_dir : s.dst.stable = true := by
  cases hd : s.dst.stable with
  | true => rfl
  | false =>
      obtain ⟨c, f, t, hf, -⟩ := h.fwds_of_busy hq.toSettled hd
      rw [hq.fwds c] at hf
      cases hf

end Inv

end Abs

/-! ### Views without messages -/

namespace Rel

variable {C D A : Type} [DecidableEq C] [DecidableEq D] {n : ℕ} {home : D} {b : Block C D A n}
  {t : Abs C (DataBlock n)} (h : Rel home b t)
include h

/-- A view without responses and memory requests is that of a settled block. -/
theorem settled (hresp : ∀ src dst, b.resp src dst = []) (hmem : b.mem home = 0) :
    t.Settled home where
  resp src dst := by
    have hr := h.resp src dst
    rw [hresp] at hr
    exact List.forall₂_nil_right_iff.1 hr
  mem := by
    have hm := h.mem
    rw [hmem] at hm
    cases ht : t.mem with
    | none => rfl
    | some p =>
        rw [ht] at hm
        obtain ⟨m, e, -⟩ := hm
        exact absurd e.symm (Multiset.singleton_ne_zero m)

/-- A view without any message is that of a quiet block. -/
theorem quiet (hset : t.Settled home) (hreq : ∀ c, b.req c home = []) (hfwd : ∀ c, b.fwd c = []) :
    t.Quiet home where
  toSettled := hset
  req c := by
    have hr := h.req c
    unfold Cell.ReqOk at hr
    split at hr
    · assumption
    · obtain ⟨m, e, -⟩ := hr
      rw [hreq] at e
      cases e
  fwds c := by
    have hf := h.fwd c
    rw [hfwd] at hf
    exact List.forall₂_nil_right_iff.1 hf

end Rel

end Msi
