/-
**The response network and the mandatory queue follow the abstract protocol.**

The counterpart of `ArchLab/MsiSimForward.lean` for the other two queues of a cache.  A response
never waits: the data of a load or a store is taken, an acknowledgement is counted, and the one that
completes the transaction changes the value of the block.  A request of the processor hits, misses,
or waits for the transaction that is under way, and a line that makes room is written back.

Main definitions:

* `Msi.Phase.Onward` — a cache moves on, and only the source of its data changes;
* `Msi.Abs.collected` — an acknowledgement is counted;
* `Msi.Reads` — every load among some callbacks returns the value at its time.

Main results:

* `Msi.Rel.response_sim` — the response network;
* `Msi.Rel.mandatory_sim`, `Msi.Rel.replacement_sim` — the mandatory queue.
-/

import ArchLab.MsiSimForward

set_option relaxedAutoImplicit false
set_option autoImplicit false

namespace Msi

open L1Cache (Env Ctx Callback)

/-! ### What the sequencer observes -/

/-- Every load among the callbacks returns the value of the block at its time, if the value before
them is `g`. -/
def Reads {n : ℕ} (g : DataBlock n) (ks : List (Callback n)) : Prop :=
  ∀ before d after, ks = before ++ .read d :: after → d = before.foldl Callback.overwrite g

theorem Reads.nil {n : ℕ} (g : DataBlock n) : Reads g [] := by
  intro before d after h
  simp at h

/-- A single load. -/
theorem Reads.read {n : ℕ} (g : DataBlock n) : Reads g [.read g] := by
  intro before d after h
  obtain ⟨rfl, h⟩ | ⟨_, -, h⟩ := List.cons_eq_append_iff.1 h
  · obtain ⟨h, -⟩ := List.cons.inj h
    exact (Callback.read.inj h).symm
  · simp at h

/-- Without a load there is nothing to check. -/
theorem Reads.of_notMem {n : ℕ} {g : DataBlock n} {ks : List (Callback n)}
    (h : ∀ d, .read d ∉ ks) : Reads g ks := by
  rintro before d after rfl
  exact absurd (by simp) (h d)

/-- First one list of callbacks, then another. -/
theorem Reads.append {n : ℕ} {g : DataBlock n} {ks ks' : List (Callback n)} (h : Reads g ks)
    (h' : Reads (ks.foldl Callback.overwrite g) ks') : Reads g (ks ++ ks') := by
  intro before d after e
  rcases List.append_eq_append_iff.1 e with ⟨l, rfl, hl⟩ | ⟨l, rfl, hl⟩
  · rw [List.foldl_append]
    exact h' l d after hl
  · rcases List.cons_eq_append_iff.1 hl with ⟨rfl, hl⟩ | ⟨l', rfl, -⟩
    · rw [List.append_nil] at h'
      exact h' [] d after hl.symm
    · exact h before d l' rfl

/-! ### Phases and abstract moves -/

/-- A cache moves on from `q` to `p`: only the source of its data changes. -/
structure Phase.Onward {C V : Type} (p q : Phase C V) : Prop where
  alike : p.Alike q
  inv : p.inv = q.inv
  fwds : p.fwds = q.fwds
  req : p.req = q.req
  put : p.put = q.put

namespace Phase.Onward

variable {C V : Type} {v : V} {k : ℕ} {f : C} {i : PendingInv C} {o : PendingFwd C}

theorem refl (p : Phase C V) : p.Onward p :=
  ⟨⟨rfl, rfl, rfl, rfl, rfl, rfl, fun _ => rfl⟩, rfl, rfl, rfl, rfl⟩

theorem shared {w : Src C V} (hw : w.data? ≠ none) :
    (Phase.shared i : Phase C V).Onward (.loadWait w i) := by
  cases w with
  | dir | owner =>
      exact ⟨⟨rfl, rfl, rfl, rfl, rfl, rfl, fun h => absurd rfl h⟩, rfl, rfl, rfl, rfl⟩
  | mem | fwd => exact absurd rfl hw

theorem modified {p : Phase C V} (hp : p = .storeWait (.owner f v) o ∨ p = .storeWait (.dir v k) o ∨
    p = .upgradeData v k o ∨ p = .storeAcks o ∨ p = .upgradeAcks o) :
    (Phase.modified o : Phase C V).Onward p := by
  rcases hp with rfl | rfl | rfl | rfl | rfl <;>
    exact ⟨⟨rfl, rfl, rfl, rfl, rfl, rfl, fun h => absurd rfl h⟩, rfl, rfl, rfl, rfl⟩

theorem collecting {p : Phase C V} (hp : p = .storeWait (.dir v k) o ∨ p = .upgradeData v k o) :
    p.collecting.Onward p := by
  rcases hp with rfl | rfl <;>
    exact ⟨⟨rfl, rfl, rfl, rfl, rfl, rfl, fun h => absurd rfl h⟩, rfl, rfl, rfl, rfl⟩

end Phase.Onward

namespace Abs

variable {C V : Type} [DecidableEq C] {s : Abs C V} {g : V} {c o : C} {x y : Cell C V}

/-- Cache `c` has counted the acknowledgement of `o`. -/
def collected (s : Abs C V) (c : C) (y : Cell C V) (o : C) : Abs C V :=
  { s.set c y with
    ackIn := Function.update s.ackIn c ((s.ackIn c).erase o)
    wait := Function.update s.wait c ((s.wait c).erase o) }

theorem set_set : (s.set c x).set c y = s.set c y := by
  simp [set]

theorem set_self : s.set c (s.cell c) = s := by
  simp [set]

theorem collected_set : (s.collected c x o).set c y = s.collected c y o := by
  simp [set, collected]

/-- A store that becomes possible because the data has come is performed. -/
theorem Inv.receiveStore (h : s.Inv g) {p : PendingFwd C}
    (ha : (Phase.modified p).Onward (s.ph c)) (hw : s.wait c = ∅) (v td : V) (k : ℤ) :
    Inv v (s.set c ⟨.modified p, v, td, k⟩) := by
  have h₁ : Inv g (s.set c ⟨.modified p, g, td, k⟩) :=
    h.relabel ha.alike ha.inv ⟨fun _ => rfl, by simp, by simp, hw, trivial⟩
  have h₂ := h₁.store (c := c) (o := p) (ph_set_self _ _ _) v
  rwa [cell_set_self, set_set] at h₂

/-- A store that becomes possible because the last acknowledgement has come is performed. -/
theorem Inv.collectStore (h : s.Inv g) {p : PendingFwd C} (ho : o ∈ s.ackIn c)
    (ha : (Phase.modified p).Onward (s.ph c)) (hw : (s.wait c).erase o = ∅) (v td : V) (k : ℤ) :
    Inv v (s.collected c ⟨.modified p, v, td, k⟩ o) := by
  have h₁ : Inv g (s.collected c ⟨.modified p, g, td, k⟩ o) :=
    h.collect ho ha.alike ha.inv ⟨fun _ => rfl, by simp, by simp, hw, trivial⟩
  have h₂ := h₁.store (c := c) (o := p) (ph_set_self _ _ _) v
  have hc : (s.collected c ⟨.modified p, g, td, k⟩ o).cell c = ⟨.modified p, g, td, k⟩ :=
    cell_set_self s c _
  rwa [hc, collected_set] at h₂

end Abs

/-! ### The response network -/

namespace Rel

variable {C D A : Type} [DecidableEq C] [DecidableEq D] {n : ℕ} {home : D} {b : Block C D A n}
  {s s' : Abs C (DataBlock n)} {g : DataBlock n} {c : C} {src : MachineID C D}
  {m : ResponseMsg C D A n} {q : List (ResponseMsg C D A n)}

/-- The channel of a response after its only message has been taken. -/
theorem resp_pop (h : Rel home b s) (hq : b.resp src (.L1Cache c) = m :: q) {r : Resp (DataBlock n)}
    (hr : s.resps home src (.L1Cache c) = [r]) : r.Matches m ∧ q = [] := by
  have := h.resp src (.L1Cache c)
  rw [hq, hr] at this
  obtain ⟨h₁, h₂⟩ := List.forall₂_cons.1 this
  exact ⟨h₁, List.forall₂_nil_left_iff.1 h₂⟩

/-- A cache takes a response: what has to be checked. -/
theorem l1Receive (h : Rel home b s) (hq : b.resp src (.L1Cache c) = m :: q)
    {y : Cell C (DataBlock n)} {r : Resp (DataBlock n)}
    (hr : s.resps home src (.L1Cache c) = [r])
    (hpop : ∀ src' dst', s'.resps home src' dst' =
      if src' = src ∧ dst' = .L1Cache c then [] else s.resps home src' dst')
    (hs : s'.cell = Function.update s.cell c y) (hd : SameDir s' s) {x : Ctx C D A n}
    (hx : x.requestNetworkOut = [] ∧ x.responseNetworkOut = []) (hentry : x.cacheEntry = y.entry)
    (htbe : x.tbe = y.tbe) (ha : y.ph.Onward (s.ph c)) (ht : y.tdata = (s.cell c).tdata) :
    Rel home ((b.setResp src (.L1Cache c) q).l1Finish c x) s' := by
  obtain ⟨-, rfl⟩ := h.resp_pop hq hr
  refine h.l1Set (Aside.setResp b src (.L1Cache c) []) hs hd hentry htbe ?_ ?_ ?_
    (fun _ _ => rfl) ?_
  · rw [hx.1, List.filter_nil, List.append_nil]
    exact (h.req c).congr ha.req ha.put ht
  · intro d _
    rw [hx.1, List.filter_nil]
  · rw [ha.fwds]
    exact h.fwd c
  · intro src' dst'
    rw [hpop, hx.2, Block.resp_setResp, List.filter_nil, ite_self, List.append_nil]
    split
    · exact List.Forall₂.nil
    · exact h.resp src' dst'

/-- What a response in flight to a cache can be. -/
theorem resp_cases (h : Rel home b s) (hinv : s.Inv g) (hq : b.resp src (.L1Cache c) = m :: q) :
    (∃ v k, src = .Directory home ∧ (s.ph c).src = some (.dir v k) ∧
      s.resps home src (.L1Cache c) = [.dir v k]) ∨
    (∃ o v, src = .L1Cache o ∧ (s.ph c).src = some (.owner o v) ∧ o ∉ s.ackIn c ∧
      s.resps home src (.L1Cache c) = [.owner v]) ∨
    (∃ o, src = .L1Cache o ∧ o ∈ s.ackIn c ∧ (s.ph c).fromOwner o = [] ∧
      s.resps home src (.L1Cache c) = [.ack]) := by
  have hne : s.resps home src (.L1Cache c) ≠ [] := by
    intro e
    have := h.resp src (.L1Cache c)
    rw [hq, e] at this
    cases this
  cases src with
  | Directory d =>
      left
      by_cases hd : d = home
      · subst hd
        have hsrc : ∃ v k, (s.ph c).src = some (.dir v k) := by
          simp only [Abs.resps, if_true, Phase.fromDir] at hne
          split at hne
          · exact ⟨_, _, ‹_›⟩
          · exact absurd rfl hne
        obtain ⟨v, k, hv⟩ := hsrc
        exact ⟨v, k, rfl, hv, by simp [Abs.resps, Phase.fromDir, hv, -Phase.src]⟩
      · simp [Abs.resps, hd] at hne
  | L1Cache o =>
      right
      by_cases hf : (s.ph c).fromOwner o = []
      · right
        by_cases ho : o ∈ s.ackIn c
        · exact ⟨o, rfl, ho, hf, by simp [Abs.resps, hf, ho]⟩
        · simp [Abs.resps, hf, ho] at hne
      · left
        -- the former owner has nothing to acknowledge: a cache that waits for one waits for nobody
        have hsrc : ∃ v, (s.ph c).src = some (.owner o v) := by
          unfold Phase.fromOwner at hf
          split at hf
          · rename_i y v hv
            by_cases hy : y = o
            · subst hy
              exact ⟨v, hv⟩
            · exact absurd (if_neg hy) hf
          · exact absurd rfl hf
        obtain ⟨v, hv⟩ := hsrc
        have hno : o ∉ s.ackIn c := by
          intro ho
          have hw := hinv.waits.mem_of_ack ho
          have hok := hinv.ackOk (c := c) rfl
          generalize s.ph c = p at hv hok
          cases p with
          | loadWait w i =>
              rw [show s.wait c = ∅ from hok] at hw
              exact absurd hw (Finset.notMem_empty o)
          | storeWait w i =>
              cases hv
              rw [hok.2] at hw
              exact absurd hw (Finset.notMem_empty o)
          | _ => cases hv
        refine ⟨o, v, rfl, hv, hno, ?_⟩
        simp [Abs.resps, Phase.fromOwner, hv, hno, -Phase.src]

/-- A response is taken as the abstract protocol says. -/
def Receives (home : D) (b : Block C D A n) (g : DataBlock n) (env : Env C D A n)
    (src : MachineID C D) (c : C) (m : ResponseMsg C D A n) (q : List (ResponseMsg C D A n)) :
    Prop :=
  ∃ x s', L1Cache.responseNetworkIn env (b.entry c) (b.tbe c) m = .valid x ∧
    x.responseNetworkIn = none ∧ Reads g x.callbacks ∧
    Rel home ((b.setResp src (.L1Cache c) q).l1Finish c x) s' ∧
    s'.Inv (x.callbacks.foldl Callback.overwrite g)

/-- A response is taken by a transition with a given outcome. -/
theorem l1Received (h : Rel home b s) (env : Env C D A n) (hq : b.resp src (.L1Cache c) = m :: q)
    {y : Cell C (DataBlock n)} {r : Resp (DataBlock n)}
    (hr : s.resps home src (.L1Cache c) = [r])
    (hpop : ∀ src' dst', s'.resps home src' dst' =
      if src' = src ∧ dst' = .L1Cache c then [] else s.resps home src' dst')
    (hs : s'.cell = Function.update s.cell c y) (hd : SameDir s' s) (ha : y.ph.Onward (s.ph c))
    (ht : y.tdata = (s.cell c).tdata) {ks : List (Callback n)}
    (hx : L1Cache.responseNetworkIn env (s.cell c).entry (s.cell c).tbe m =
      .valid { cacheEntry := y.entry, tbe := y.tbe, callbacks := ks })
    (hreads : Reads g ks) (hinv : s'.Inv (ks.foldl Callback.overwrite g)) :
    Receives home b g env src c m q := by
  unfold Receives
  rw [h.entry, h.tbe]
  exact ⟨_, s', hx, rfl, hreads, h.l1Receive hq hr hpop hs hd ⟨rfl, rfl⟩ rfl rfl ha ht, hinv⟩

/-- The data of a load is taken. -/
theorem load_sim (h : Rel home b s) (env : Env C D A n) (hinv : s.Inv g)
    (hq : b.resp src (.L1Cache c) = m :: q) {r : Resp (DataBlock n)} {w : Src C (DataBlock n)}
    {i : PendingInv C} (hr : s.resps home src (.L1Cache c) = [r]) (hp : s.ph c = .loadWait w i)
    (hw : w.data? = some m.dataBlk)
    (hpop : ∀ y : Cell C (DataBlock n), y.ph.src = none → ∀ src' dst',
      (s.set c y).tick.resps home src' dst' =
        if src' = src ∧ dst' = .L1Cache c then [] else s.resps home src' dst')
    (hx : L1Cache.responseNetworkIn env (s.cell c).entry (s.cell c).tbe m = .valid
      { cacheEntry := { s.cell c with ph := .shared i, data := m.dataBlk }.entry
        tbe := { s.cell c with ph := .shared i, data := m.dataBlk }.tbe
        callbacks := [.read m.dataBlk] }) :
    Receives home b g env src c m q := by
  have hg : m.dataBlk = g :=
    (hinv.cells c).incoming _ (by rw [show (s.cell c).ph = _ from hp]; exact hw)
  have hwait : s.wait c = ∅ := hinv.ackOk hp
  have ha : (Phase.shared i).Onward (s.ph c) := by
    rw [hp]
    exact Phase.Onward.shared (by rw [hw]; exact Option.some_ne_none _)
  refine h.l1Received env hq hr (hpop _ rfl) (by rfl) (by constructor <;> rfl) ha (by rfl) hx
    (by rw [hg]; exact Reads.read g) ((hinv.relabel ha.alike ha.inv ?_).tick (Nat.le_succ _))
  exact ⟨fun _ => hg, by simp, by simp, hwait, trivial⟩

/-- The data of the directory is taken. -/
theorem fromDir_sim (h : Rel home b s) (env : Env C D A n) (hinv : s.Inv g)
    (hq : b.resp (.Directory home) (.L1Cache c) = m :: q) {v : DataBlock n} {k : ℕ}
    (hsrc : (s.ph c).src = some (.dir v k))
    (hr : s.resps home (.Directory home) (.L1Cache c) = [.dir v k]) :
    Receives home b g env (.Directory home) c m q := by
  obtain ⟨⟨hm, hv, hk⟩, -⟩ := h.resp_pop hq hr
  have hpop : ∀ y : Cell C (DataBlock n), y.ph.src = none → ∀ src' dst',
      (s.set c y).tick.resps home src' dst' =
        if src' = .Directory home ∧ dst' = .L1Cache c then [] else s.resps home src' dst' :=
    fun y hy => Abs.resps_fromDir (fun z hz => congrArg Phase.src (Abs.ph_set_of_ne s y hz)) hsrc
      ((congrArg Phase.src (Abs.ph_set_self s c y)).trans hy) rfl rfl
  -- a store: the counter decides whether it completes
  have hstore : ∀ o, s.ph c = .storeWait (.dir v k) o ∨ s.ph c = .upgradeData v k o →
      (s.cell c).acks ≤ 0 ∧ (s.cell c).acks + k = (s.wait c).card → v = g →
      Receives home b g env (.Directory home) c m q := by
    intro o hp hok hg
    by_cases h₀ : (s.cell c).acks + k = 0
    · have hw : s.wait c = ∅ := Finset.card_eq_zero.1 (by omega)
      have ha : (Phase.modified o).Onward (s.ph c) :=
        Phase.Onward.modified (f := c) (hp.elim (fun e => .inr (.inl e)) fun e =>
          .inr (.inr (.inl e)))
      exact h.l1Received env hq hr (hpop _ rfl) (by rfl) (by constructor <;> rfl) ha (by rfl)
        (L1Cache.response_store_dir_last hm hk hp h₀) (Reads.of_notMem (by simp))
        ((hinv.receiveStore ha hw _ _ _).tick (Nat.le_succ _))
    · have hk₀ : k ≠ 0 := by
        rintro rfl
        omega
      have ha := Phase.Onward.collecting hp
      refine h.l1Received env hq hr (hpop _ ?_) (by rfl) (by constructor <;> rfl) ha (by rfl)
        (L1Cache.response_store_dir hm hk hp h₀ hk₀) (Reads.nil g)
        ((hinv.relabel ha.alike ha.inv ?_).tick (Nat.le_succ _))
      · change (s.ph c).collecting.src = none
        rcases hp with e | e <;> rw [e] <;> rfl
      · have hack : 0 < (s.cell c).acks - m.ackCount ∧
            (s.cell c).acks - m.ackCount = (s.wait c).card := by omega
        change Cell.Ok g (s.wait c) ⟨(s.ph c).collecting, _, _, _⟩
        rcases hp with e | e <;> rw [e] <;>
          exact ⟨fun _ => hv.trans hg, by simp [Phase.collecting], by simp [Phase.collecting], hack,
            trivial⟩
  have hcell := hinv.cells c
  cases hp : s.ph c with
  | loadWait w i =>
      rw [hp] at hsrc
      cases hsrc
      have hk₀ : k = 0 := by
        have := hcell.inv
        rw [show (s.cell c).ph = _ from hp] at this
        exact this
      exact h.load_sim env hinv hq hr hp (congrArg some hv.symm) hpop
        (L1Cache.response_load_dir hm (by rw [hk, hk₀]; rfl) hp)
  | storeWait w o =>
      rw [hp] at hsrc
      cases hsrc
      exact hstore o (.inl hp) (hinv.ackOk hp)
        (hcell.incoming v (by rw [show (s.cell c).ph = _ from hp]; rfl))
  | upgradeData v' k' o =>
      rw [hp] at hsrc
      cases hsrc
      exact hstore o (.inr hp) (hinv.ackOk hp)
        (hcell.incoming v (by rw [show (s.cell c).ph = _ from hp]; rfl))
  | _ =>
      rw [hp] at hsrc
      cases hsrc

/-- The data of the former owner is taken. -/
theorem fromOwner_sim (h : Rel home b s) (env : Env C D A n) (hinv : s.Inv g) {o : C}
    (hq : b.resp (.L1Cache o) (.L1Cache c) = m :: q) {v : DataBlock n}
    (hsrc : (s.ph c).src = some (.owner o v)) (hno : o ∉ s.ackIn c)
    (hr : s.resps home (.L1Cache o) (.L1Cache c) = [.owner v]) :
    Receives home b g env (.L1Cache o) c m q := by
  obtain ⟨⟨hm, hv⟩, -⟩ := h.resp_pop hq hr
  have hpop : ∀ y : Cell C (DataBlock n), y.ph.src = none → ∀ src' dst',
      (s.set c y).tick.resps home src' dst' =
        if src' = .L1Cache o ∧ dst' = .L1Cache c then [] else s.resps home src' dst' :=
    fun y hy => Abs.resps_fromOwner (fun z hz => congrArg Phase.src (Abs.ph_set_of_ne s y hz)) hsrc
      ((congrArg Phase.src (Abs.ph_set_self s c y)).trans hy) hno rfl rfl
  cases hp : s.ph c with
  | loadWait w i =>
      rw [hp] at hsrc
      cases hsrc
      exact h.load_sim env hinv hq hr hp (congrArg some hv.symm) hpop
        (L1Cache.response_load_owner hm hp)
  | storeWait w p =>
      rw [hp] at hsrc
      cases hsrc
      have ha : (Phase.modified p).Onward (s.ph c) := Phase.Onward.modified (k := 0) (.inl hp)
      exact h.l1Received env hq hr (hpop _ rfl) (by rfl) (by constructor <;> rfl) ha (by rfl)
        (L1Cache.response_store_owner hm hp) (Reads.of_notMem (by simp))
        ((hinv.receiveStore ha (hinv.ackOk hp).2 _ _ _).tick (Nat.le_succ _))
  | _ =>
      rw [hp] at hsrc
      cases hsrc

omit [DecidableEq C] in
/-- A cache that has acknowledgements to count, by its phase. -/
theorem collecting_cases (hinv : s.Inv g) {o : C} (ho : o ∈ s.wait c) :
    (∃ v k p, (s.ph c = .storeWait (.dir v k) p ∨ s.ph c = .upgradeData v k p) ∧
      (s.cell c).acks ≤ 0 ∧ (s.cell c).acks + k = (s.wait c).card) ∨
    (∃ p, (s.ph c = .storeAcks p ∨ s.ph c = .upgradeAcks p) ∧
      0 < (s.cell c).acks ∧ (s.cell c).acks = (s.wait c).card) := by
  have hok := hinv.ackOk (c := c) rfl
  have hne : s.wait c ≠ ∅ := Finset.ne_empty_of_mem ho
  generalize s.ph c = p at hok ⊢
  cases p with
  | storeWait w p =>
      cases w with
      | dir v k => exact .inl ⟨v, k, p, .inl rfl, hok⟩
      | mem | owner | fwd => exact absurd hok.2 hne
  | upgradeData v k p => exact .inl ⟨v, k, p, .inr rfl, hok⟩
  | storeAcks p => exact .inr ⟨p, .inl rfl, hok⟩
  | upgradeAcks p => exact .inr ⟨p, .inr rfl, hok⟩
  | storeSent | upgradeSent | upgradeFwd => exact absurd hok.2 hne
  | _ => exact absurd hok hne

/-- An acknowledgement is counted. -/
theorem ack_sim (h : Rel home b s) (env : Env C D A n) (hinv : s.Inv g) {o : C}
    (hq : b.resp (.L1Cache o) (.L1Cache c) = m :: q) (ho : o ∈ s.ackIn c)
    (hno : (s.ph c).fromOwner o = []) (hr : s.resps home (.L1Cache o) (.L1Cache c) = [.ack]) :
    Receives home b g env (.L1Cache o) c m q := by
  obtain ⟨⟨hm, hk⟩, -⟩ := h.resp_pop hq hr
  have hmem := hinv.waits.mem_of_ack ho
  have hcard : ((s.wait c).erase o).card = (s.wait c).card - 1 := Finset.card_erase_of_mem hmem
  have hpos : 0 < (s.wait c).card := Finset.card_pos.2 ⟨o, hmem⟩
  have hpop : ∀ y : Cell C (DataBlock n), y.ph.src = (s.ph c).src → ∀ src' dst',
      (s.collected c y o).tick.resps home src' dst' =
        if src' = .L1Cache o ∧ dst' = .L1Cache c then [] else s.resps home src' dst' :=
    fun y hy => Abs.resps_unack (congrFun (Abs.proj_set_self (f := Phase.src) hy)) rfl rfl hno
  -- as long as others are missing, only the counter changes
  have hcount : (s.ph c).ackOk ((s.cell c).acks - m.ackCount) ((s.wait c).erase o) →
      L1Cache.responseNetworkIn env (s.cell c).entry (s.cell c).tbe m = .valid
        { cacheEntry := { s.cell c with acks := (s.cell c).acks - m.ackCount }.entry
          tbe := { s.cell c with acks := (s.cell c).acks - m.ackCount }.tbe } →
      Receives home b g env (.L1Cache o) c m q := by
    intro hack hx
    have hcell := hinv.cells c
    have ha : { s.cell c with acks := (s.cell c).acks - m.ackCount }.ph.Onward (s.ph c) :=
      Phase.Onward.refl _
    have hok : Cell.Ok g ((s.wait c).erase o)
        { s.cell c with acks := (s.cell c).acks - m.ackCount } :=
      ⟨hcell.copy, hcell.incoming, hcell.tbeCopy, hack, hcell.inv⟩
    exact h.l1Received env hq hr (hpop _ (by rfl)) (by rfl) (by constructor <;> rfl) ha (by rfl) hx
      (Reads.nil g) ((hinv.collect ho ha.alike ha.inv hok).tick (Nat.le_succ _))
  rcases collecting_cases hinv hmem with ⟨v, k, p, hp, h₁, h₂⟩ | ⟨p, hp, h₁, h₂⟩
  · refine hcount ?_ (L1Cache.response_ack hm hk (hp.elim .inl fun e => .inr (.inl e)) (by omega))
    have hack : (s.cell c).acks - m.ackCount ≤ 0 ∧
        (s.cell c).acks - m.ackCount + k = ((s.wait c).erase o).card := by omega
    rcases hp with e | e <;> rw [e] <;> exact hack
  · by_cases hlast : (s.cell c).acks - 1 = 0
    · have hw : (s.wait c).erase o = ∅ := Finset.card_eq_zero.1 (by omega)
      have ha : (Phase.modified p).Onward (s.ph c) :=
        Phase.Onward.modified (f := c) (v := g) (k := 0)
        (hp.elim (fun e => .inr (.inr (.inr (.inl e)))) fun e => .inr (.inr (.inr (.inr e))))
      have hsrc : (Phase.modified p : Phase C (DataBlock n)).src = (s.ph c).src := by
        rcases hp with e | e <;> rw [e] <;> rfl
      exact h.l1Received env hq hr (hpop _ hsrc) (by rfl) (by constructor <;> rfl) ha (by rfl)
        (L1Cache.response_ack_last hm hk hp hlast) (Reads.of_notMem (by simp))
        ((hinv.collectStore ho ha hw _ _ _).tick (Nat.le_succ _))
    · refine hcount ?_ (L1Cache.response_ack (d := g) (k := 0) hm hk
        (hp.elim (fun e => .inr (.inr (.inl e))) fun e => .inr (.inr (.inr e))) hlast)
      have hack : 0 < (s.cell c).acks - m.ackCount ∧
          (s.cell c).acks - m.ackCount = ((s.wait c).erase o).card := by omega
      rcases hp with e | e <;> rw [e] <;> exact hack

/-- **The response network.** A response is always processed, as the abstract protocol says, and a
load that it completes returns the value of the block. -/
theorem response_sim (h : Rel home b s) (env : Env C D A n) (hinv : s.Inv g)
    (hq : b.resp src (.L1Cache c) = m :: q) :
    Receives home b g env src c m q := by
  rcases h.resp_cases hinv hq with ⟨v, k, rfl, hsrc, hr⟩ | ⟨o, v, rfl, hsrc, hno, hr⟩ |
    ⟨o, rfl, ho, hno, hr⟩
  · exact h.fromDir_sim env hinv hq hsrc hr
  · exact h.fromOwner_sim env hinv hq hsrc hno hr
  · exact h.ack_sim env hinv hq ho hno hr

/-! ### The mandatory queue -/

variable {env : Env C D A n} {r : RubyRequest A} {y : Cell C (DataBlock n)} {x : Ctx C D A n}

/-- A hit: the cache sends nothing, and its phase stays. -/
theorem l1Hit (h : Rel home b s) (hentry : x.cacheEntry = y.entry) (htbe : x.tbe = y.tbe)
    (hreq : x.requestNetworkOut = []) (hresp : x.responseNetworkOut = []) (hp : y.ph = s.ph c)
    (ht : y.tdata = (s.cell c).tdata) : Rel home (b.l1Finish c x) (s.set c y).tick := by
  refine h.l1Set (Aside.refl b) (by rfl) (by constructor <;> rfl) hentry htbe ?_ ?_ ?_
    (fun _ _ => rfl) ?_
  · rw [hreq, List.filter_nil, List.append_nil]
    exact (h.req c).congr (congrArg Phase.req hp) (congrArg Phase.put hp) ht
  · intro d _
    rw [hreq, List.filter_nil]
  · rw [hp]
    exact h.fwd c
  · intro src dst
    rw [Abs.resps_set (congrArg Phase.src hp), hresp, List.filter_nil, ite_self, List.append_nil]
    exact h.resp src dst

/-- A cache that has no request on its way sends one. -/
theorem l1Send (h : Rel home b s) (hid : env.machineID = c) (hhome : env.home = home)
    {t : CoherenceRequestType} {d : DataBlock n} (hentry : x.cacheEntry = y.entry)
    (htbe : x.tbe = y.tbe) (hreq : x.requestNetworkOut = [env.request t d])
    (hresp : x.responseNetworkOut = []) (hp : (s.ph c).req = none) (hy : y.ph.req = some t)
    (hd : y.ph.put ≠ none → d = y.tdata) (hsrc : y.ph.src = (s.ph c).src)
    (hfwds : y.ph.fwds = (s.ph c).fwds) : Rel home (b.l1Finish c x) (s.set c y).tick := by
  have hnone : b.req c home = [] := by
    have := h.req c
    unfold Cell.ReqOk at this
    rwa [show (s.cell c).ph.req = none from hp] at this
  refine h.l1Set (Aside.refl b) (by rfl) (by constructor <;> rfl) hentry htbe ?_ ?_ ?_
    (fun _ _ => rfl) ?_
  · rw [hnone, hreq]
    unfold Cell.ReqOk
    rw [hy]
    exact ⟨env.request t d, by simp [L1Cache.Env.request, hhome], rfl,
      congrArg MachineID.L1Cache hid, hd⟩
  · intro e he
    rw [hreq]
    simp [L1Cache.Env.request, hhome, he]
  · rw [hfwds]
    exact h.fwd c
  · intro src dst
    rw [Abs.resps_set hsrc, hresp, List.filter_nil, ite_self, List.append_nil]
    exact h.resp src dst

/-- A request of the processor waits for the transaction that is under way, or it is processed as
the abstract protocol says. -/
def Performs (home : D) (b : Block C D A n) (g : DataBlock n) (env : Env C D A n) (c : C)
    (r : RubyRequest A) : Prop :=
  L1Cache.mandatoryQueueIn env (b.entry c) (b.tbe c) r = .stall ∨
  ∃ x s', L1Cache.mandatoryQueueIn env (b.entry c) (b.tbe c) r = .valid x ∧
    Reads g x.callbacks ∧ Rel home (b.l1Finish c x) s' ∧
    s'.Inv (x.callbacks.foldl Callback.overwrite g)

/-- A load or an instruction fetch. -/
theorem mandatoryLoad_sim (h : Rel home b s) (hinv : s.Inv g) (hid : env.machineID = c)
    (hhome : env.home = home) (hav : b.entry c = none → env.cacheAvail = true)
    (hr : r.type = .LD ∨ r.type = .IFETCH) : Performs home b g env c r := by
  unfold Performs
  rw [h.entry] at hav
  rw [h.entry, h.tbe]
  cases hh : (s.ph c).hits with
  | true =>
      right
      have hg : (s.cell c).data = g := by
        refine (hinv.cells c).copy ?_
        change (s.ph c).copy = true
        generalize s.ph c = p at hh
        cases p with
        | shared | modified | upgradeSent | upgradeData | upgradeFwd | upgradeAcks => rfl
        | _ => cases hh
      refine ⟨_, (s.set c (s.cell c)).tick, L1Cache.mandatory_load_hit hr hh,
        by rw [hg]; exact Reads.read g,
        h.l1Hit (by rfl) (by rfl) (by rfl) (by rfl) (by rfl) (by rfl), ?_⟩
      rw [Abs.set_self]
      exact hinv.tick (Nat.le_succ _)
  | false =>
      by_cases hp : s.ph c = .idle
      · right
        have hw : s.wait c = ∅ := hinv.ackOk hp
        have he : (s.cell c).entry = none := by
          unfold Cell.entry
          rw [show (s.cell c).ph = .idle from hp]
          rfl
        refine ⟨_, (s.set c ⟨.loadSent, default, default, 0⟩).tick,
          L1Cache.mandatory_load_miss hr hp (hav he), Reads.nil g,
          h.l1Send hid hhome (by rfl) (by rfl) (by rfl) (by rfl) (by rw [hp]; rfl)
            (by rfl) (by simp)
            (by rw [hp]; rfl) (by rw [hp]; rfl),
          (hinv.relabel ?_ (by rw [hp]; rfl) ?_).tick (Nat.le_succ _)⟩
        · rw [hp]
          exact ⟨rfl, rfl, rfl, rfl, rfl, rfl, fun _ => rfl⟩
        · exact ⟨by simp, by simp, by simp, hw, trivial⟩
      · exact .inl (L1Cache.mandatory_load_stall hr hh hp)

/-- A store or an atomic access. -/
theorem mandatoryStore_sim (h : Rel home b s) (hinv : s.Inv g) (hid : env.machineID = c)
    (hhome : env.home = home) (hav : b.entry c = none → env.cacheAvail = true)
    (hr : r.type = .ST ∨ r.type = .ATOMIC) : Performs home b g env c r := by
  unfold Performs
  rw [h.entry] at hav
  rw [h.entry, h.tbe]
  have hcell := hinv.cells c
  cases hp : s.ph c with
  | modified o =>
      right
      exact ⟨_, (s.set c { s.cell c with data := env.storeData }).tick,
        L1Cache.mandatory_store_hit hr hp, Reads.of_notMem (by simp),
        h.l1Hit (by rfl) (by rfl) (by rfl) (by rfl) (by rfl) (by rfl),
        (hinv.store hp env.storeData).tick (Nat.le_succ _)⟩
  | idle =>
      right
      have hw : s.wait c = ∅ := hinv.ackOk hp
      have he : (s.cell c).entry = none := by
        unfold Cell.entry
        rw [show (s.cell c).ph = .idle from hp]
        rfl
      refine ⟨_, (s.set c ⟨.storeSent, default, default, 0⟩).tick,
        L1Cache.mandatory_store_miss hr hp (hav he), Reads.nil g,
        h.l1Send hid hhome (by rfl) (by rfl) (by rfl) (by rfl) (by rw [hp]; rfl) (by rfl) (by simp)
          (by rw [hp]; rfl) (by rw [hp]; rfl),
        (hinv.relabel ?_ (by rw [hp]; rfl) ?_).tick (Nat.le_succ _)⟩
      · rw [hp]
        exact ⟨rfl, rfl, rfl, rfl, rfl, rfl, fun _ => rfl⟩
      · exact ⟨by simp, by simp, by simp, ⟨rfl, hw⟩, trivial⟩
  | shared i =>
      right
      have hw : s.wait c = ∅ := hinv.ackOk hp
      have hg : (s.cell c).data = g := hcell.copy (by rw [show (s.cell c).ph = _ from hp]; rfl)
      refine ⟨_, (s.set c ⟨.upgradeSent i, (s.cell c).data, (s.cell c).data, 0⟩).tick,
        L1Cache.mandatory_store_upgrade hr hp, Reads.nil g,
        h.l1Send hid hhome (by rfl) (by rfl) (by rfl) (by rfl) (by rw [hp]; rfl) (by rfl) (by simp)
          (by rw [hp]; rfl) (by rw [hp]; rfl),
        (hinv.relabel ?_ (by rw [hp]; rfl) ?_).tick (Nat.le_succ _)⟩
      · rw [hp]
        exact ⟨rfl, rfl, rfl, rfl, rfl, rfl, fun _ => rfl⟩
      · exact ⟨fun _ => hg, by simp, by simp, ⟨rfl, hw⟩, trivial⟩
  | _ =>
      left
      refine L1Cache.mandatory_store_stall hr ?_ ?_ ?_ <;>
        · change (s.ph c).st ≠ _
          rw [hp]
          exact nofun

/-- **The mandatory queue.** -/
theorem mandatory_sim (h : Rel home b s) (env : Env C D A n) (hinv : s.Inv g)
    (hid : env.machineID = c) (hhome : env.home = home)
    (hav : b.entry c = none → env.cacheAvail = true)
    (hr : (r.type = .LD ∨ r.type = .IFETCH) ∨ r.type = .ST ∨ r.type = .ATOMIC) :
    Performs home b g env c r := by
  rcases hr with hr | hr
  · exact h.mandatoryLoad_sim hinv hid hhome hav hr
  · exact h.mandatoryStore_sim hinv hid hhome hav hr

/-- **Replacement.** A line that the cache holds waits for the transaction that is under way, or it
is written back as the abstract protocol says. -/
theorem replacement_sim (h : Rel home b s) (env : Env C D A n) (hinv : s.Inv g)
    (hid : env.machineID = c) (hhome : env.home = home) (he : b.entry c ≠ none) :
    L1Cache.mandatoryQueueInReplacement env (b.entry c) (b.tbe c) r = .stall ∨
    ∃ x s', L1Cache.mandatoryQueueInReplacement env (b.entry c) (b.tbe c) r = .valid x ∧
      x.callbacks = [] ∧ Rel home (b.l1Finish c x) s' ∧ s'.Inv g := by
  rw [h.entry] at he
  rw [h.entry, h.tbe]
  have hcell := hinv.cells c
  cases hp : s.ph c with
  | idle =>
      refine absurd ?_ he
      unfold Cell.entry
      rw [show (s.cell c).ph = .idle from hp]
      rfl
  | shared i =>
      right
      have hw : s.wait c = ∅ := hinv.ackOk hp
      refine ⟨_, (s.set c ⟨.evictS .PUTS i, (s.cell c).data, (s.cell c).data, 0⟩).tick,
        L1Cache.replacement_shared hp, rfl,
        h.l1Send hid hhome (by rfl) (by rfl) (by rfl) (by rfl) (by rw [hp]; rfl) (by rfl)
          (fun _ => rfl) (by rw [hp]; rfl) (by rw [hp]; rfl),
        (hinv.relabel ?_ (by rw [hp]; rfl) ?_).tick (Nat.le_succ _)⟩
      · rw [hp]
        exact ⟨rfl, rfl, rfl, rfl, rfl, rfl, fun _ => rfl⟩
      · exact ⟨by simp, by simp, by simp, hw, trivial⟩
  | modified o =>
      right
      have hw : s.wait c = ∅ := hinv.ackOk hp
      have hg : (s.cell c).data = g := hcell.copy (by rw [show (s.cell c).ph = _ from hp]; rfl)
      refine ⟨_, (s.set c ⟨.evictM o, (s.cell c).data, (s.cell c).data, 0⟩).tick,
        L1Cache.replacement_modified hp, rfl,
        h.l1Send hid hhome (by rfl) (by rfl) (by rfl) (by rfl) (by rw [hp]; rfl) (by rfl)
          (fun _ => rfl) (by rw [hp]; rfl) (by rw [hp]; rfl),
        (hinv.relabel ?_ (by rw [hp]; rfl) ?_).tick (Nat.le_succ _)⟩
      · rw [hp]
        exact ⟨rfl, rfl, rfl, rfl, rfl, rfl, fun _ => rfl⟩
      · exact ⟨by simp, by simp, fun _ => hg, hw, trivial⟩
  | _ =>
      left
      refine L1Cache.replacement_stall ?_ ?_ ?_ <;>
        · change (s.ph c).st ≠ _
          rw [hp]
          exact nofun

end Rel

end Msi
