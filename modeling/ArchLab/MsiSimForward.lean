/-
**The forward network follows the abstract protocol.**

A cache that processes a message of the directory on a block whose view is described by an abstract
state (`Msi.Rel`), and that state satisfies the coherence invariant, leaves a view that is again
described by such a state.  The in port does not fault: its outcome is a stall, exactly when the
phase says that the head of the queue has to wait (`Msi.Phase.fwdStalls`), or a transition.

Main definitions:

* `Msi.Phase.fwdStalls` — whether the head of the forward queue has to wait;
* `Msi.Abs.answered`, `Msi.Abs.handedOver`, `Msi.Abs.downgraded` — the abstract moves.

Main results:

* `Msi.Rel.l1Set` — what has to be checked after a transition that changes one cell;
* `Msi.Rel.inv_sim`, `Msi.Rel.getM_sim`, `Msi.Rel.getS_sim`, `Msi.Rel.wbAck_sim` — the four
  messages;
* `Msi.Rel.forward_sim` — the forward network.
-/

import ArchLab.MsiPorts

set_option relaxedAutoImplicit false
set_option autoImplicit false

namespace Msi

open L1Cache (Env Ctx Callback)

/-! ### Phases -/

namespace Phase

variable {C V : Type}

theorem invalidated_alike {p : Phase C V} {i : C × ℕ} (hi : p.inv = some i)
    (hl : p.loading = false) : p.invalidated.Alike p ∧ p.invalidated.inv = none := by
  cases p with
  | shared j | upgradeSent j | evictS k j | evictSAcked j =>
      cases hi
      exact ⟨⟨rfl, rfl, rfl, rfl, rfl, rfl, fun _ => rfl⟩, rfl⟩
  | upgradeFwd f j o => exact ⟨⟨rfl, rfl, rfl, rfl, rfl, rfl, fun _ => rfl⟩, rfl⟩
  | loadWait w j => cases hl
  | _ => cases hi

/-- What the queue of a cache and its requests look like after an invalidation has been answered. -/
theorem invalidated_rest {p : Phase C V} {i : C × ℕ} (hi : p.inv = some i)
    (hl : p.loading = false) :
    p.invalidated.src = p.src ∧ p.invalidated.req = p.req ∧ p.invalidated.put = p.put ∧
      p.fwds = .inv i.1 i.2 :: p.invalidated.fwds := by
  cases p with
  | shared j | upgradeSent j | evictS k j | evictSAcked j =>
      cases hi
      exact ⟨rfl, rfl, rfl, rfl⟩
  | upgradeFwd f j o =>
      cases hi
      exact ⟨rfl, rfl, rfl, rfl⟩
  | loadWait w j => cases hl
  | _ => cases hi

theorem invalidated_ok {V : Type} {g : V} {w : Finset C} {x : Cell C V} {i : C × ℕ}
    (hi : x.ph.inv = some i) (h : x.Ok g w) :
    Cell.Ok g w { x with ph := x.ph.invalidated } := by
  obtain ⟨p, d, td, k⟩ := x
  obtain ⟨h₁, h₂, h₃, h₄, h₅⟩ := h
  cases p with
  | shared | evictS | evictSAcked =>
      exact ⟨by simp [invalidated], by simp [invalidated], by simp [invalidated], h₄, trivial⟩
  | upgradeSent | upgradeFwd =>
      exact ⟨by simp [invalidated], by simp [invalidated], by simp [invalidated], h₄, trivial⟩
  | _ => exact ⟨h₁, h₂, h₃, h₄, h₅⟩

/-- A cache that can serve a request holds the token, and waits for nothing. -/
theorem serving_tok {p : Phase C V} {o : Kind × C × ℕ} (hs : p.serving = true)
    (ho : p.own = some o) : p.tok = true ∧ p.inv = none ∧ p.src = none := by
  cases p with
  | modified | evictM => exact ⟨rfl, rfl, rfl⟩
  | evictAcked =>
      cases ho
      exact ⟨rfl, rfl, rfl⟩
  | _ => cases hs

theorem serving_wait {p : Phase C V} (hs : p.serving = true) {k : ℤ} {w : Finset C}
    (h : p.ackOk k w) : w = ∅ := by
  cases p with
  | modified | evictM | evictAcked => exact h
  | _ => cases hs

theorem serving_served {g : V} {w : Finset C} {x : Cell C V} {o : Kind × C × ℕ}
    (hs : x.ph.serving = true) (ho : x.ph.own = some o) (h : x.Ok g w) : x.served = g := by
  obtain ⟨p, d, td, k⟩ := x
  cases p with
  | modified => exact h.copy rfl
  | evictM => exact h.tbeCopy rfl
  | evictAcked =>
      cases ho
      exact h.tbeCopy rfl
  | _ => cases hs

theorem handedOver_served {p : Phase C V} {r : C} {t : ℕ} (hs : p.serving = true)
    (ho : p.own = some (.GETM, r, t)) : p.handedOver.Served ∧ p.handedOver.role = p.role := by
  cases p with
  | modified | evictM | evictAcked =>
      cases ho
      exact ⟨⟨rfl, rfl, rfl, rfl, rfl, rfl⟩, rfl⟩
  | _ => cases hs

/-- What the queue of a cache and its requests look like after a `GETM` has been served. -/
theorem handedOver_rest {p : Phase C V} {o : Kind × C × ℕ} (hs : p.serving = true)
    (ho : p.own = some o) :
    p.handedOver.src = p.src ∧ p.handedOver.req = p.req ∧ p.handedOver.put = p.put ∧
      p.fwds = .own o.1 o.2.1 o.2.2 :: p.handedOver.fwds := by
  cases p with
  | modified | evictM | evictAcked =>
      cases ho
      exact ⟨rfl, rfl, rfl, rfl⟩
  | _ => cases hs

theorem handedOver_ok {g : V} {w : Finset C} {x : Cell C V} (hs : x.ph.serving = true)
    (h : x.Ok g w) : Cell.Ok g w { x with ph := x.ph.handedOver } := by
  obtain ⟨p, d, td, k⟩ := x
  obtain ⟨-, -, -, h₄, -⟩ := h
  cases p with
  | modified | evictM | evictAcked =>
      exact ⟨by simp [handedOver], by simp [handedOver], by simp [handedOver], h₄, trivial⟩
  | _ => cases hs

theorem downgraded_served {p : Phase C V} {r : C} {t : ℕ} (hs : p.serving = true)
    (ho : p.own = some (.GETS, r, t)) : p.downgraded.Served ∧ p.downgraded.role = p.role := by
  cases p with
  | modified | evictM | evictAcked =>
      cases ho
      exact ⟨⟨rfl, rfl, rfl, rfl, rfl, rfl⟩, rfl⟩
  | _ => cases hs

/-- What the queue of a cache and its requests look like after a `GETS` has been served. -/
theorem downgraded_rest {p : Phase C V} {o : Kind × C × ℕ} (hs : p.serving = true)
    (ho : p.own = some o) :
    p.downgraded.src = p.src ∧ p.downgraded.req = p.req ∧ p.downgraded.put = p.put ∧
      p.fwds = .own o.1 o.2.1 o.2.2 :: p.downgraded.fwds := by
  cases p with
  | modified | evictM | evictAcked =>
      cases ho
      exact ⟨rfl, rfl, rfl, rfl⟩
  | _ => cases hs

theorem downgraded_ok {g : V} {w : Finset C} {x : Cell C V} (hs : x.ph.serving = true)
    (h : x.Ok g w) : Cell.Ok g w { x with ph := x.ph.downgraded } := by
  obtain ⟨p, d, td, k⟩ := x
  obtain ⟨h₁, -, -, h₄, -⟩ := h
  cases p with
  | modified => exact ⟨h₁, by simp [downgraded], by simp [downgraded], h₄, trivial⟩
  | evictM | evictAcked =>
      exact ⟨by simp [downgraded], by simp [downgraded], by simp [downgraded], h₄, trivial⟩
  | _ => cases hs

/-- Whether the head of the forward queue has to wait for data that is on its way to the cache. -/
def fwdStalls : Phase C V → Bool
  | loadWait _ i => i.isSome
  | storeWait _ o | upgradeData _ _ o | storeAcks o | upgradeAcks o => o.isSome
  | _ => false

theorem fwdStalls_of_inv {p : Phase C V} {i : C × ℕ} (hi : p.inv = some i) :
    p.fwdStalls = p.loading := by
  cases p with
  | loadWait w j =>
      cases hi
      rfl
  | shared | upgradeSent | upgradeFwd | evictS | evictSAcked => rfl
  | _ => cases hi

theorem fwdStalls_of_own {p : Phase C V} {o : Kind × C × ℕ} (hi : p.inv = none)
    (ho : p.own = some o) : p.fwdStalls = !p.serving := by
  cases p with
  | upgradeFwd => cases hi
  | modified | storeWait | upgradeData | storeAcks | upgradeAcks | evictM | evictAcked =>
      cases ho
      rfl
  | _ => cases ho

theorem fwdStalls_of_acked {p : Phase C V} (ha : p.acked = true) : p.fwdStalls = false := by
  cases p with
  | evictAcked | evictSAcked | evictIAcked => rfl
  | _ => cases ha

theorem fwds_of_inv {p : Phase C V} {i : C × ℕ} (hi : p.inv = some i) :
    ∃ fs, p.fwds = .inv i.1 i.2 :: fs := by
  unfold fwds
  rw [hi]
  exact ⟨_, rfl⟩

theorem fwds_of_own {p : Phase C V} {o : Kind × C × ℕ} (hi : p.inv = none) (ho : p.own = some o) :
    ∃ fs, p.fwds = .own o.1 o.2.1 o.2.2 :: fs := by
  unfold fwds
  rw [hi, ho]
  exact ⟨_, rfl⟩

theorem acked_of_fwds {p : Phase C V} (hi : p.inv = none) (ho : p.own = none) (hf : p.fwds ≠ []) :
    p.acked = true := by
  unfold fwds at hf
  rw [hi, ho] at hf
  cases ha : p.acked with
  | true => rfl
  | false =>
      rw [ha] at hf
      exact absurd rfl hf

/-- A cache whose writeback is over. -/
theorem acked_idle {p : Phase C V} (hi : p.inv = none) (ho : p.own = none) (ha : p.acked = true) :
    (idle : Phase C V).Alike p ∧
      (∀ {k : ℤ} {w : Finset C}, p.ackOk k w → (idle : Phase C V).ackOk k w) ∧
      (idle : Phase C V).src = p.src ∧ (idle : Phase C V).req = p.req ∧
      (idle : Phase C V).put = p.put ∧ p.fwds = .wbAck :: (idle : Phase C V).fwds := by
  cases p with
  | evictAcked o =>
      cases ho
      exact ⟨⟨rfl, rfl, rfl, rfl, rfl, rfl, fun _ => rfl⟩, fun h => h, rfl, rfl, rfl, rfl⟩
  | evictSAcked i =>
      cases hi
      exact ⟨⟨rfl, rfl, rfl, rfl, rfl, rfl, fun _ => rfl⟩, fun h => h, rfl, rfl, rfl, rfl⟩
  | evictIAcked =>
      exact ⟨⟨rfl, rfl, rfl, rfl, rfl, rfl, fun _ => rfl⟩, fun h => h, rfl, rfl, rfl, rfl⟩
  | _ => cases ha

end Phase

/-! ### The abstract moves of a cache -/

namespace Abs

variable {C V : Type} [DecidableEq C]

/-- One move later. -/
def tick (s : Abs C V) : Abs C V := { s with time := s.time + 1 }

/-- Cache `c` has acknowledged an invalidation on behalf of `r`. -/
def answered (s : Abs C V) (c : C) (y : Cell C V) (r : C) : Abs C V :=
  { s.set c y with ackIn := Function.update s.ackIn r (insert c (s.ackIn r)) }

/-- Cache `c` has passed exclusive data on to `r`. -/
def handedOver (s : Abs C V) (c : C) (y : Cell C V) (r : C) (v : V) (o : PendingFwd C) : Abs C V :=
  (s.set c y).set r { s.cell r with ph := .storeWait (.owner c v) o }

/-- Cache `c` has shared its data with `r` and the directory. -/
def downgraded (s : Abs C V) (c : C) (y : Cell C V) (r : C) (v : V) : Abs C V :=
  { (s.set c y).set r { s.cell r with ph := .loadWait (.owner c v) none } with
    toDir := some (c, v) }

variable {D : Type} [DecidableEq D] {home : D} {s : Abs C V} {c r f : C} {y : Cell C V} {v : V}

/-- The responses on their way when a cache moves on without receiving data. -/
theorem resps_set (hy : y.ph.src = (s.ph c).src) (src dst : MachineID C D) :
    (s.set c y).tick.resps home src dst = s.resps home src dst := by
  have hsrc : ∀ z, ((s.set c y).tick.ph z).src = (s.ph z).src :=
    congrFun (proj_set_self (f := Phase.src) hy)
  refine resps_congr (fun z => ?_) (fun z o => ?_) (by rfl) (by rfl) src dst
  · simp only [Phase.fromDir, hsrc z]
  · simp only [Phase.fromOwner, hsrc z]

/-- The responses on their way when exclusive data is passed on. -/
theorem resps_handedOver {o : PendingFwd C} (hy : y.ph.src = (s.ph c).src)
    (hr : (s.ph r).src = some (.fwd f)) (hno : c ∉ s.ackIn r) (src dst : MachineID C D) :
    (s.handedOver c y r v o).tick.resps home src dst = s.resps home src dst ++
      if src = .L1Cache c ∧ dst = .L1Cache r then [.owner v] else [] := by
  cases dst with
  | L1Cache z =>
      have hsrc : ∀ z, z ≠ r → ((s.handedOver c y r v o).tick.ph z).src = (s.ph z).src := by
        intro z hz
        change (((s.set c y).set r _).ph z).src = _
        rw [ph_set_of_ne _ _ hz]
        exact congrFun (proj_set_self (f := Phase.src) hy) z
      have hr' : ((s.handedOver c y r v o).tick.ph r).src = some (.owner c v) :=
        congrArg Phase.src (ph_set_self (s.set c y) r _)
      rw [resps_serve hsrc hr hr' rfl hno z src]
      simp
  | Directory d => cases src <;> simp [resps, handedOver, tick]

/-- The responses on their way when data is shared. -/
theorem resps_downgraded (hy : y.ph.src = (s.ph c).src)
    (hr : (s.ph r).src = some (.fwd f)) (hno : c ∉ s.ackIn r) (htd : s.toDir = none)
    (src dst : MachineID C D) :
    (s.downgraded c y r v).tick.resps home src dst = s.resps home src dst ++
      ((if src = .L1Cache c ∧ dst = .L1Cache r then [.owner v] else []) ++
        if src = .L1Cache c ∧ dst = .Directory home then [.toDir v] else []) := by
  cases dst with
  | L1Cache z =>
      have hsrc : ∀ z, z ≠ r → ((s.downgraded c y r v).tick.ph z).src = (s.ph z).src := by
        intro z hz
        change (((s.set c y).set r _).ph z).src = _
        rw [ph_set_of_ne _ _ hz]
        exact congrFun (proj_set_self (f := Phase.src) hy) z
      have hr' : ((s.downgraded c y r v).tick.ph r).src = some (.owner c v) :=
        congrArg Phase.src (ph_set_self (s.set c y) r _)
      rw [resps_serve hsrc hr hr' rfl hno z src]
      simp
  | Directory d =>
      cases src with
      | Directory e => simp [resps]
      | L1Cache o =>
          simp only [resps, htd]
          change (if c = o ∧ d = home then [Resp.toDir v] else []) = _
          by_cases ho : o = c
          · subst ho
            simp
          · simp [ho, Ne.symm ho]

end Abs

/-! ### The forward network -/

namespace Rel

variable {C D A : Type} [DecidableEq C] [DecidableEq D] {n : ℕ} {home : D} {b b₁ : Block C D A n}
  {s s' : Abs C (DataBlock n)} {g : DataBlock n} {c : C} {env : Env C D A n}
  {m : RequestMsg C D A n} {q : List (RequestMsg C D A n)}

/-- The queue of a cache after its head has been taken. -/
theorem fwd_pop (h : Rel home b s) (hq : b.fwd c = m :: q) {f : Fwd C} {fs : List (Fwd C)}
    (hf : (s.ph c).fwds = f :: fs) : f.Matches m ∧ List.Forall₂ Fwd.Matches fs q := by
  have := h.fwd c
  rw [hq, hf] at this
  exact List.forall₂_cons.1 this

/-- What a transition that sends one response adds to a channel. -/
theorem sent_one {c : C} {m : ResponseMsg C D A n} {src dst : MachineID C D} :
    (if src = .L1Cache c then [m].filter fun m => dst ∈ m.destination else []) =
      if src = .L1Cache c ∧ dst ∈ m.destination then [m] else [] := by
  by_cases hs : src = .L1Cache c
  · by_cases hd : dst ∈ m.destination <;> simp [hs, hd]
  · simp [hs]

theorem sent_two {c : C} {m m' : ResponseMsg C D A n} {src dst : MachineID C D} :
    (if src = .L1Cache c then [m, m'].filter fun m => dst ∈ m.destination else []) =
      (if src = .L1Cache c ∧ dst ∈ m.destination then [m] else []) ++
        if src = .L1Cache c ∧ dst ∈ m'.destination then [m'] else [] := by
  by_cases hs : src = .L1Cache c
  · by_cases hd : dst ∈ m.destination <;> by_cases hd' : dst ∈ m'.destination <;>
      simp [hs, hd, hd']
  · simp [hs]

/-- A cache transition that changes one cell: what has to be checked. -/
theorem l1Set (h : Rel home b s) (hb : Aside b₁ b) {y : Cell C (DataBlock n)}
    (hs : s'.cell = Function.update s.cell c y) (hd : SameDir s' s) {x : Ctx C D A n}
    (hentry : x.cacheEntry = y.entry) (htbe : x.tbe = y.tbe)
    (hreq : y.ReqOk c
      (b.req c home ++ x.requestNetworkOut.filter fun m => .Directory home ∈ m.destination))
    (haway : ∀ d, d ≠ home →
      (x.requestNetworkOut.filter fun m => .Directory d ∈ m.destination) = [])
    (hfwdc : List.Forall₂ Fwd.Matches y.ph.fwds (b₁.fwd c)) (hfwd : ∀ z, z ≠ c → b₁.fwd z = b.fwd z)
    (hresp : ∀ src dst, List.Forall₂ Resp.Matches (s'.resps home src dst)
      (b₁.resp src dst ++
        if src = .L1Cache c then x.responseNetworkOut.filter fun m => dst ∈ m.destination
        else [])) :
    Rel home (b₁.l1Finish c x) s' := by
  refine h.l1Finish hb ?_ ?_ ?_ ?_ haway ?_ ?_ hd
  · rw [hentry, hs, Function.update_self]
  · rw [htbe, hs, Function.update_self]
  · intro z hz
    rw [hs, Function.update_of_ne hz]
    exact Cell.Same.refl _
  · rwa [hs, Function.update_self]
  · intro z
    by_cases hz : z = c
    · subst hz
      rwa [Abs.ph, hs, Function.update_self]
    · rw [Abs.ph, hs, Function.update_of_ne hz, hfwd z hz]
      exact h.fwd z
  · intro src dst
    rw [resp_l1Finish]
    exact hresp src dst

/-- A forward is processed as the abstract protocol says, with some callbacks. -/
def Serves (home : D) (b : Block C D A n) (g : DataBlock n) (env : Env C D A n) (c : C)
    (m : RequestMsg C D A n) (q : List (RequestMsg C D A n)) (callbacks : List (Callback n)) :
    Prop :=
  ∃ x s', L1Cache.forwardRequestNetworkIn env (b.entry c) (b.tbe c) m = .valid x ∧
    x.forwardRequestNetworkIn = none ∧ x.callbacks = callbacks ∧
    Rel home ((b.setFwd c q).l1Finish c x) s' ∧ s'.Inv g

/-- An invalidation is answered. -/
theorem inv_sim (h : Rel home b s) (env : Env C D A n) (hinv : s.Inv g)
    (hq : b.fwd c = m :: q) {r : C} {t : ℕ} (hi : (s.ph c).inv = some (r, t))
    (hl : (s.ph c).loading = false) :
    Serves home b g env c m q (if (s.ph c).st = .S then env.evictions else []) := by
  obtain ⟨halike, hnone⟩ := Phase.invalidated_alike hi hl
  obtain ⟨hsrc, hreq, hput, hfwds⟩ := Phase.invalidated_rest hi hl
  obtain ⟨⟨hm, hr, -⟩, hrest⟩ := h.fwd_pop hq hfwds
  have hc : c ∉ s.ackIn r := hinv.waits.once c r t hi
  have hok := Phase.invalidated_ok hi (hinv.cells c)
  unfold Serves
  rw [h.entry, h.tbe]
  refine ⟨_, (s.answered c { s.cell c with ph := (s.ph c).invalidated } r).tick,
    L1Cache.forward_inv (i := (r, t)) hm hi hl, rfl, rfl, ?_,
    (hinv.invalidate hi halike hnone hok).tick (Nat.le_succ _)⟩
  refine h.l1Set (Aside.setFwd b c q) (by rfl) (by constructor <;> rfl) (by rfl) (by rfl) ?_
    (by intros; rfl) ?_ ?_ ?_
  · rw [List.filter_nil, List.append_nil]
    exact (h.req c).congr hreq hput rfl
  · rw [Block.fwd_setFwd_self]
    exact hrest
  · exact fun z hz => Block.fwd_setFwd_of_ne b q hz
  · intro src dst
    have hsrc' : ∀ z,
        ((s.answered c { s.cell c with ph := (s.ph c).invalidated } r).tick.ph z).src =
          (s.ph z).src := congrFun (Abs.proj_set_self (f := Phase.src) hsrc)
    rw [Abs.resps_ack hsrc' rfl hc rfl]
    refine List.rel_append (h.resp src dst) ?_
    rw [sent_one]
    exact forall₂_ite (by simp [L1Cache.Env.response, hr]) ⟨rfl, rfl⟩

/-- A cache transition that serves a request of `r`: what has to be checked. -/
theorem l1Serve (h : Rel home b s) {y w : Cell C (DataBlock n)} {r : C} (hrc : r ≠ c)
    (hs : s'.cell = Function.update (Function.update s.cell c y) r w) (hd : SameDir s' s)
    {x : Ctx C D A n} (hx : x.requestNetworkOut = []) (hentry : x.cacheEntry = y.entry)
    (htbe : x.tbe = y.tbe) (hreq : y.ReqOk c (b.req c home))
    (hfwdc : List.Forall₂ Fwd.Matches y.ph.fwds q) (hsame : w.Same (s.cell r))
    (hfwdr : w.ph.fwds = (s.ph r).fwds)
    (hresp : ∀ src dst, List.Forall₂ Resp.Matches (s'.resps home src dst)
      (b.resp src dst ++
        if src = .L1Cache c then x.responseNetworkOut.filter fun m => dst ∈ m.destination
        else [])) :
    Rel home ((b.setFwd c q).l1Finish c x) s' := by
  have hcell : s'.cell c = y := by
    rw [hs, Function.update_of_ne hrc.symm, Function.update_self]
  refine h.l1Finish (Aside.setFwd b c q) ?_ ?_ ?_ ?_ (by simp [hx]) ?_ ?_ hd
  · rw [hentry, hcell]
  · rw [htbe, hcell]
  · intro z hz
    by_cases hzr : z = r
    · subst hzr
      rw [hs, Function.update_self]
      exact hsame
    · rw [hs, Function.update_of_ne hzr, Function.update_of_ne hz]
      exact Cell.Same.refl _
  · rw [hcell, hx]
    simpa using hreq
  · intro z
    by_cases hz : z = c
    · subst hz
      rw [Abs.ph, hcell, Block.fwd_setFwd_self]
      exact hfwdc
    · rw [Block.fwd_setFwd_of_ne b q hz]
      by_cases hzr : z = r
      · subst hzr
        rw [Abs.ph, hs, Function.update_self, hfwdr]
        exact h.fwd z
      · rw [Abs.ph, hs, Function.update_of_ne hzr, Function.update_of_ne hz]
        exact h.fwd z
  · intro src dst
    rw [resp_l1Finish]
    exact hresp src dst

/-- A forwarded `GETM` is answered. -/
theorem getM_sim (h : Rel home b s) (env : Env C D A n) (hinv : s.Inv g)
    (hq : b.fwd c = m :: q) {r : C} {t : ℕ} (ho : (s.ph c).own = some (.GETM, r, t))
    (hs : (s.ph c).serving = true) :
    Serves home b g env c m q (if (s.ph c).st = .M then env.evictions else []) := by
  obtain ⟨htok, hnone, hsrcn⟩ := Phase.serving_tok hs ho
  obtain ⟨hserved, hrole⟩ := Phase.handedOver_served hs ho
  obtain ⟨hsrc, hreq, hput, hfwds⟩ := Phase.handedOver_rest hs ho
  obtain ⟨⟨hm, hr, -⟩, hrest⟩ := h.fwd_pop hq hfwds
  have hw : s.wait c = ∅ := Phase.serving_wait hs (hinv.ackOk rfl)
  obtain ⟨o, hro⟩ := hinv.requestor_getM ho htok hw
  have hrc : r ≠ c := by
    rintro rfl
    rw [hro] at htok
    cases htok
  have hg : (s.cell c).served = g := Phase.serving_served hs ho (hinv.cells c)
  have hwr : s.ackIn r = ∅ := by
    have ha := (hinv.ackOk hro).2
    refine Finset.eq_empty_of_forall_notMem fun z hz => ?_
    have := hinv.waits.mem_of_ack hz
    simp [ha] at this
  unfold Serves
  rw [h.entry, h.tbe]
  refine ⟨_, (s.handedOver c { s.cell c with ph := (s.ph c).handedOver } r g o).tick,
    L1Cache.forward_getM hm hs, rfl, rfl, ?_,
    (hinv.handOver ho hro htok hnone hserved hrole (Phase.handedOver_ok hs (hinv.cells c))).tick
      (Nat.le_succ _)⟩
  refine h.l1Serve hrc (by rfl) (by constructor <;> rfl) (by rfl) (by rfl) (by rfl) ?_ ?_ ?_ ?_ ?_
  · exact (h.req c).congr hreq hput rfl
  · exact hrest
  · have hst : (s.cell r).ph = .storeWait (.fwd c) o := hro
    exact ⟨by rw [hst]; rfl, rfl, rfl, rfl, by rw [hst]; rfl, by rw [hst]; rfl⟩
  · rw [hro]
    rfl
  · intro src dst
    rw [Abs.resps_handedOver hsrc (by rw [hro]; rfl) (by simp [hwr]), sent_one]
    exact List.rel_append (h.resp src dst)
      (forall₂_ite (by simp [L1Cache.Env.response, hr]) ⟨rfl, hg⟩)

/-- A forwarded `GETS` is answered. -/
theorem getS_sim (h : Rel home b s) (hinv : s.Inv g) (hhome : env.home = home)
    (hq : b.fwd c = m :: q) {r : C} {t : ℕ} (ho : (s.ph c).own = some (.GETS, r, t))
    (hs : (s.ph c).serving = true) : Serves home b g env c m q [] := by
  obtain ⟨htok, hnone, hsrcn⟩ := Phase.serving_tok hs ho
  obtain ⟨hserved, hrole⟩ := Phase.downgraded_served hs ho
  obtain ⟨hsrc, hreq, hput, hfwds⟩ := Phase.downgraded_rest hs ho
  obtain ⟨⟨hm, hr, -⟩, hrest⟩ := h.fwd_pop hq hfwds
  obtain ⟨hro, -⟩ := hinv.sharer_of_getS ho
  have hrc : r ≠ c := by
    rintro rfl
    rw [hro] at htok
    cases htok
  have hg : (s.cell c).served = g := Phase.serving_served hs ho (hinv.cells c)
  have hwr : s.ackIn r = ∅ := by
    have ha : s.wait r = ∅ := hinv.ackOk hro
    refine Finset.eq_empty_of_forall_notMem fun z hz => ?_
    have := hinv.waits.mem_of_ack hz
    simp [ha] at this
  have htd : s.toDir = none := (hinv.getS c r t ho).2.1
  unfold Serves
  rw [h.entry, h.tbe]
  refine ⟨_, (s.downgraded c { s.cell c with ph := (s.ph c).downgraded } r g).tick,
    L1Cache.forward_getS hm hs, rfl, rfl, ?_,
    (hinv.downgrade ho htok hnone hserved hrole (Phase.downgraded_ok hs (hinv.cells c))).tick
      (Nat.le_succ _)⟩
  refine h.l1Serve hrc (by rfl) (by constructor <;> rfl) (by rfl) (by rfl) (by rfl) ?_ ?_ ?_ ?_ ?_
  · exact (h.req c).congr hreq hput rfl
  · exact hrest
  · have hst : (s.cell r).ph = .loadWait (.fwd c) none := hro
    exact ⟨by rw [hst]; rfl, rfl, rfl, rfl, by rw [hst]; rfl, by rw [hst]; rfl⟩
  · rw [hro]
    rfl
  · intro src dst
    rw [Abs.resps_downgraded hsrc (by rw [hro]; rfl) (by simp [hwr]) htd, sent_two]
    exact List.rel_append (h.resp src dst) (List.rel_append
      (forall₂_ite (by simp [L1Cache.Env.response, hr]) ⟨rfl, hg⟩)
      (forall₂_ite (by simp [L1Cache.Env.response, hhome]) ⟨rfl, hg⟩))

/-- A writeback is over. -/
theorem wbAck_sim (h : Rel home b s) (env : Env C D A n) (hinv : s.Inv g)
    (hq : b.fwd c = m :: q)
    (hi : (s.ph c).inv = none) (ho : (s.ph c).own = none) (ha : (s.ph c).acked = true) :
    Serves home b g env c m q env.evictions := by
  obtain ⟨halike, hok, hsrc, hreq, hput, hfwds⟩ := Phase.acked_idle hi ho ha
  obtain ⟨hm, hrest⟩ := h.fwd_pop hq hfwds
  unfold Serves
  rw [h.entry, h.tbe]
  refine ⟨_, (s.set c { s.cell c with ph := .idle }).tick, L1Cache.forward_wbAck hm ha, rfl, rfl,
    ?_, (hinv.relabel halike (by rw [hi]; rfl) ?_).tick (Nat.le_succ _)⟩
  · refine h.l1Set (Aside.setFwd b c q) (by rfl) (by constructor <;> rfl) (by rfl) (by rfl) ?_
      (by intros; rfl) ?_ ?_ ?_
    · rw [List.filter_nil, List.append_nil]
      exact (h.req c).congr hreq hput rfl
    · rw [Block.fwd_setFwd_self]
      exact hrest
    · exact fun z hz => Block.fwd_setFwd_of_ne b q hz
    · intro src dst
      rw [Abs.resps_set hsrc, List.filter_nil, ite_self, List.append_nil]
      exact h.resp src dst
  · exact ⟨by simp, by simp, by simp, hok (hinv.ackOk rfl), trivial⟩

/-- **The forward network.** The head of a forward queue waits for data that is on its way to the
cache, or it is processed as the abstract protocol says. -/
theorem forward_sim (h : Rel home b s) (env : Env C D A n) (hinv : s.Inv g)
    (hhome : env.home = home) (hq : b.fwd c = m :: q) :
    (L1Cache.forwardRequestNetworkIn env (b.entry c) (b.tbe c) m = .stall ∧
      (s.ph c).fwdStalls = true) ∨
    (s.ph c).fwdStalls = false ∧
    ∃ x s', L1Cache.forwardRequestNetworkIn env (b.entry c) (b.tbe c) m = .valid x ∧
      x.forwardRequestNetworkIn = none ∧ (x.callbacks = env.evictions ∨ x.callbacks = []) ∧
      Rel home ((b.setFwd c q).l1Finish c x) s' ∧ s'.Inv g := by
  cases hi : (s.ph c).inv with
  | some i =>
      rw [Phase.fwdStalls_of_inv hi]
      cases hl : (s.ph c).loading with
      | true =>
          refine Or.inl ⟨?_, rfl⟩
          obtain ⟨fs, hfs⟩ := Phase.fwds_of_inv hi
          obtain ⟨⟨hm, -⟩, -⟩ := h.fwd_pop hq hfs
          rw [h.entry, h.tbe]
          exact L1Cache.forward_inv_stall hm hl
      | false =>
          obtain ⟨x, s', h₁, h₂, h₃, h₄⟩ := h.inv_sim env hinv hq hi hl
          refine Or.inr ⟨rfl, x, s', h₁, h₂, ?_, h₄⟩
          rw [h₃]
          split
          · exact Or.inl rfl
          · exact Or.inr rfl
  | none =>
      cases ho : (s.ph c).own with
      | some o =>
          rw [Phase.fwdStalls_of_own hi ho]
          obtain ⟨k, r, t⟩ := o
          cases hs : (s.ph c).serving with
          | false =>
              refine Or.inl ⟨?_, rfl⟩
              obtain ⟨fs, hfs⟩ := Phase.fwds_of_own hi ho
              obtain ⟨⟨hm, -⟩, -⟩ := h.fwd_pop hq hfs
              rw [h.entry, h.tbe]
              exact L1Cache.forward_own_stall (o := (k, r, t)) hm ho hs
          | true =>
              refine Or.inr ⟨rfl, ?_⟩
              cases k with
              | GETM =>
                  obtain ⟨x, s', h₁, h₂, h₃, h₄⟩ := h.getM_sim env hinv hq ho hs
                  refine ⟨x, s', h₁, h₂, ?_, h₄⟩
                  rw [h₃]
                  split
                  · exact Or.inl rfl
                  · exact Or.inr rfl
              | GETS =>
                  obtain ⟨x, s', h₁, h₂, h₃, h₄⟩ := h.getS_sim hinv hhome hq ho hs
                  exact ⟨x, s', h₁, h₂, Or.inr h₃, h₄⟩
      | none =>
          have ha : (s.ph c).acked = true := by
            refine Phase.acked_of_fwds hi ho fun e => ?_
            have := h.fwd c
            rw [hq, e] at this
            cases this
          obtain ⟨x, s', h₁, h₂, h₃, h₄⟩ := h.wbAck_sim env hinv hq hi ho ha
          exact Or.inr ⟨Phase.fwdStalls_of_acked ha, x, s', h₁, h₂, Or.inl h₃, h₄⟩

end Rel

end Msi
