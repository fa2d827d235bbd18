/-
**The directory controller follows the abstract protocol.**

The counterpart of `ArchLab/MsiSimForward.lean` and `ArchLab/MsiSimCache.lean` for the three queues
of a directory.  A request is accepted, or it waits while the directory is in a transient state;
data of a former owner and answers of the memory controller never wait.

Main definitions:

* `Msi.Directory.State.stable` — the states in which no request waits.

Main results:

* `Msi.Rel.dirAccept` — what has to be checked after a request has been accepted;
* `Msi.Rel.request_sim` — the request network;
* `Msi.Rel.dirResponse_sim` — the response network;
* `Msi.Rel.memory_sim` — the memory controller.
-/

import ArchLab.MsiPorts

set_option relaxedAutoImplicit false
set_option autoImplicit false

namespace Msi

/-- The stable states of the directory. -/
def Directory.State.stable : Directory.State → Bool
  | .I | .S | .M => true
  | _ => false

/-! ### Messages that the directory adds -/

namespace Phase

variable {C V : Type}

/-- The queue of the owner of a modified block after a request has been forwarded to it. -/
theorem setOwn_rest {p : Phase C V} (hr : p.role.2 = true) (hw : p.writing = false)
    (k : Kind) (r : C) (t : ℕ) :
    (p.setOwn (some (k, r, t))).st = p.st ∧ (p.setOwn (some (k, r, t))).src = p.src ∧
      (p.setOwn (some (k, r, t))).req = p.req ∧ (p.setOwn (some (k, r, t))).put = p.put ∧
      (p.setOwn (some (k, r, t))).fwds = p.fwds ++ [.own k r t] := by
  cases p with
  | modified o | storeWait _ o | upgradeData _ _ o | upgradeFwd _ _ o | storeAcks o
  | upgradeAcks o | evictM o =>
      rcases o with - | ⟨_ | _, r, t⟩
      · exact ⟨rfl, rfl, rfl, rfl, rfl⟩
      · exact absurd hr Bool.false_ne_true
      · exact absurd hr Bool.false_ne_true
  | evictMem => exact absurd hw.symm Bool.false_ne_true
  | _ => exact absurd hr Bool.false_ne_true

/-- The queue of a sharer after it has been sent an invalidation. -/
theorem setInv_rest {p : Phase C V} (hr : p.role.1 = true)
    (ho : ∀ r t, p.own ≠ some (.GETS, r, t)) (r : C) (t : ℕ) :
    (p.setInv (some (r, t))).st = p.st ∧ (p.setInv (some (r, t))).src = p.src ∧
      (p.setInv (some (r, t))).req = p.req ∧ (p.setInv (some (r, t))).put = p.put ∧
      (p.setInv (some (r, t))).fwds = p.fwds ++ [.inv r t] := by
  cases p with
  | shared i | loadWait _ i | upgradeSent i | evictS _ i =>
      cases i with
      | none => exact ⟨rfl, rfl, rfl, rfl, rfl⟩
      | some i => exact absurd hr Bool.false_ne_true
  | modified o | storeWait _ o | upgradeData _ _ o | upgradeFwd _ _ o | storeAcks o
  | upgradeAcks o | evictM o =>
      rcases o with - | ⟨_ | _, r, t⟩
      · exact absurd hr Bool.false_ne_true
      · exact absurd rfl (ho r t)
      · exact absurd hr Bool.false_ne_true
  | _ => exact absurd hr Bool.false_ne_true

/-- The queue of a cache after its writeback has been acknowledged. -/
theorem putAcked_rest {p : Phase C V} {k : Put} (hp : p.put = some k) :
    p.putAcked.st = p.st ∧ p.putAcked.src = p.src ∧ p.putAcked.req = none ∧
      p.putAcked.fwds = p.fwds ++ [.wbAck] := by
  cases p with
  | evictM o => rcases o with - | ⟨_ | _, r, t⟩ <;> exact ⟨rfl, rfl, rfl, rfl⟩
  | evictS k i => cases i <;> exact ⟨rfl, rfl, rfl, rfl⟩
  | evictI k => exact ⟨rfl, rfl, rfl, rfl⟩
  | _ => cases hp

/-- The data in flight depends on the source only. -/
theorem fromDir_congr {p q : Phase C V} (h : p.src = q.src) : p.fromDir = q.fromDir := by
  simp only [fromDir, h]

theorem fromOwner_congr [DecidableEq C] {p q : Phase C V} (h : p.src = q.src) (o : C) :
    p.fromOwner o = q.fromOwner o := by
  simp only [fromOwner, h]

/-- No data is in flight to a cache whose request waits for memory or for an owner, or is still on
its way. -/
theorem fromDir_eq_nil {p : Phase C V} (h : p.src = none ∨ p.src = some .mem ∨
    ∃ f, p.src = some (.fwd f)) : p.fromDir = [] := by
  rcases h with h | h | ⟨f, h⟩ <;> simp only [fromDir, h]

theorem fromOwner_eq_nil [DecidableEq C] {p : Phase C V} (h : p.src = none ∨ p.src = some .mem ∨
    ∃ f, p.src = some (.fwd f)) (o : C) : p.fromOwner o = [] := by
  rcases h with h | h | ⟨f, h⟩ <;> simp only [fromOwner, h]

end Phase

namespace Abs

variable {C D V : Type} [DecidableEq C] [DecidableEq D] {home : D} {s s' : Abs C V} {c : C}

/-- The responses on their way when no data is sent: the source of the data of `c` may change, but
none is in flight to it. -/
theorem resps_quiet (hz : ∀ z, z ≠ c → (s'.ph z).src = (s.ph z).src)
    (hc : (s.ph c).src = none ∨ (s.ph c).src = some .mem ∨ ∃ f, (s.ph c).src = some (.fwd f))
    (hc' : (s'.ph c).src = none ∨ (s'.ph c).src = some .mem ∨ ∃ f, (s'.ph c).src = some (.fwd f))
    (hack : s'.ackIn = s.ackIn) (htd : s'.toDir = s.toDir) (src dst : MachineID C D) :
    s'.resps home src dst = s.resps home src dst := by
  refine resps_congr (fun z => ?_) (fun z o => ?_) hack htd src dst
  · by_cases hzc : z = c
    · subst hzc
      rw [Phase.fromDir_eq_nil hc, Phase.fromDir_eq_nil hc']
    · exact Phase.fromDir_congr (hz z hzc)
  · by_cases hzc : z = c
    · subst hzc
      rw [Phase.fromOwner_eq_nil hc, Phase.fromOwner_eq_nil hc']
    · exact Phase.fromOwner_congr (hz z hzc) o

/-- The responses on their way when the directory sends data to `c`. -/
theorem resps_send {v : V} {k : ℕ} (hz : ∀ z, z ≠ c → (s'.ph z).src = (s.ph z).src)
    (hc : (s.ph c).src = none ∨ (s.ph c).src = some .mem ∨ ∃ f, (s.ph c).src = some (.fwd f))
    (hc' : (s'.ph c).src = some (.dir v k)) (hack : s'.ackIn = s.ackIn)
    (htd : s'.toDir = s.toDir) (src dst : MachineID C D) :
    s'.resps home src dst = s.resps home src dst ++
      if src = .Directory home ∧ dst = .L1Cache c then [.dir v k] else [] := by
  cases dst with
  | Directory d => cases src <;> simp [resps, htd]
  | L1Cache z =>
      by_cases hzc : z = c
      · subst hzc
        have h₁ := Phase.fromDir_eq_nil hc
        have h₂ := Phase.fromOwner_eq_nil hc
        have h₃ : ∀ o, (s'.ph z).fromOwner o = [] := fun o => by simp only [Phase.fromOwner, hc']
        have h₄ : (s'.ph z).fromDir = [.dir v k] := by simp only [Phase.fromDir, hc']
        cases src with
        | Directory d => by_cases hd : d = home <;> simp [resps, h₁, h₄, hd]
        | L1Cache o => simp [resps, h₂, h₃, hack]
      · cases src with
        | Directory d => simp [resps, Phase.fromDir_congr (hz z hzc), hzc]
        | L1Cache o => simp [resps, Phase.fromOwner_congr (hz z hzc), hzc, hack]

/-- The responses on their way when the directory receives the data of a former owner. -/
theorem resps_toDir {o : C} {v : V} (hsrc : ∀ z, (s'.ph z).src = (s.ph z).src)
    (hack : s'.ackIn = s.ackIn) (htd : s.toDir = some (o, v)) (htd' : s'.toDir = none)
    (src dst : MachineID C D) :
    s'.resps home src dst =
      if src = .L1Cache o ∧ dst = .Directory home then [] else s.resps home src dst := by
  cases dst with
  | L1Cache z =>
      cases src <;>
        simp [resps, Phase.fromDir_congr (hsrc z), Phase.fromOwner_congr (hsrc z), hack]
  | Directory d =>
      cases src with
      | Directory e => simp [resps]
      | L1Cache y =>
          simp only [resps, htd, htd']
          by_cases hy : o = y
          · subst hy
            simp
          · simp [hy, Ne.symm hy]

end Abs

/-! ### The request network -/

namespace Rel

open Directory (Env Ctx)

variable {C D A : Type} [DecidableEq C] [DecidableEq D] {n : ℕ} {home : D} {b : Block C D A n}
  {s s' : Abs C (DataBlock n)} {g : DataBlock n} {c : C} {env : Env D A}

section Request

variable {m : RequestMsg C D A n} {q : List (RequestMsg C D A n)} {x : Ctx C D A n}

/-- The only request of a cache. -/
theorem req_pop (h : Rel home b s) (hq : b.req c home = m :: q) :
    (s.ph c).req = some m.type ∧ q = [] ∧ m.requestor = .L1Cache c ∧
      ((s.ph c).put ≠ none → m.dataBlk = (s.cell c).tdata) := by
  have hr := h.req c
  unfold Cell.ReqOk at hr
  split at hr
  · rw [hq] at hr
    cases hr
  · next t ht =>
      obtain ⟨m', hm, rfl, h₁, h₂⟩ := hr
      rw [hq] at hm
      cases hm
      exact ⟨ht, rfl, h₁, h₂⟩

/-- A request has been accepted: what has to be checked. -/
theorem dirAccept (h : Rel home b s) (hq : b.req c home = m :: q) {p : Phase C (DataBlock n)}
    (hc : s'.cell c = { s.cell c with ph := p }) (hst : p.st = (s.ph c).st) (hreq : p.req = none)
    (hz : ∀ z, z ≠ c → (s'.cell z).Same (s.cell z))
    (hentry : x.entry = s'.dirEntry) (htbe : DtbeOk x.tbe s'.dst)
    (hfwd : ∀ z, List.Forall₂ Fwd.Matches (s'.ph z).fwds
      (b.fwd z ++ x.forwardNetworkOut.filter fun m => .L1Cache z ∈ m.destination))
    (hresp : ∀ src dst, List.Forall₂ Resp.Matches (s'.resps home src dst) (b.resp src dst ++
      if src = .Directory home then x.responseNetworkOut.filter fun m => dst ∈ m.destination
      else []))
    (hmem : MemOk (b.mem home + (x.memQueueOut : Multiset _)) s'.mem)
    (htime : s'.time = s.time + 1) :
    Rel home ((b.setReq c home q).dirFinish home x) s' := by
  obtain ⟨-, rfl, -⟩ := h.req_pop hq
  refine h.dirFinish (by rfl) (by rfl) (by rfl) (by rfl) ?_ (by intros; rfl) ?_ hentry htbe ?_ hfwd
    ?_ hmem htime
  · intro z d hd
    rw [Block.req_setReq, if_neg fun e => hd e.2]
  · intro z
    by_cases hzc : z = c
    · subst hzc
      rw [hc]
      unfold Cell.entry Cell.tbe
      rw [show p.st = (s.cell z).ph.st from hst]
      exact ⟨rfl, rfl⟩
    · exact ⟨(hz z hzc).entry, (hz z hzc).tbe⟩
  · intro z
    rw [Block.req_setReq]
    by_cases hzc : z = c
    · subst hzc
      rw [if_pos ⟨rfl, rfl⟩, hc]
      unfold Cell.ReqOk
      rw [hreq]
    · rw [if_neg fun e => hzc e.1]
      exact (hz z hzc).reqOk (h.req z)
  · intro src dst
    rw [resp_dirFinish]
    exact hresp src dst

/-- A request has been accepted and only the phase of the requestor has changed. -/
theorem dirAcceptOne (h : Rel home b s) (hq : b.req c home = m :: q) {p : Phase C (DataBlock n)}
    (hs : s'.cell = Function.update s.cell c { s.cell c with ph := p }) (hst : p.st = (s.ph c).st)
    (hc : p.req = none) (hentry : x.entry = s'.dirEntry) (htbe : DtbeOk x.tbe s'.dst)
    (hfwdc : List.Forall₂ Fwd.Matches p.fwds
      (b.fwd c ++ x.forwardNetworkOut.filter fun m => .L1Cache c ∈ m.destination))
    (hfwdz : ∀ z, z ≠ c →
      (x.forwardNetworkOut.filter fun m => .L1Cache z ∈ m.destination) = [])
    (hresp : ∀ src dst, List.Forall₂ Resp.Matches (s'.resps home src dst) (b.resp src dst ++
      if src = .Directory home then x.responseNetworkOut.filter fun m => dst ∈ m.destination
      else []))
    (hmem : MemOk (b.mem home + (x.memQueueOut : Multiset _)) s'.mem)
    (htime : s'.time = s.time + 1) :
    Rel home ((b.setReq c home q).dirFinish home x) s' := by
  have hcell : s'.cell c = { s.cell c with ph := p } := by rw [hs, Function.update_self]
  have hcells : ∀ z, z ≠ c → s'.cell z = s.cell z := fun z hz => by
    rw [hs, Function.update_of_ne hz]
  refine h.dirAccept hq hcell hst hc ?_ hentry htbe ?_ hresp hmem htime
  · intro z hz
    rw [hcells z hz]
    exact Cell.Same.refl _
  · intro z
    by_cases hz : z = c
    · subst hz
      rw [Abs.ph, hcell]
      exact hfwdc
    · rw [Abs.ph, hcells z hz, hfwdz z hz, List.append_nil]
      exact h.fwd z

/-- The forwards to a cache when the directory sends it nothing. -/
theorem fwd_none (h : Rel home b s) {p : Phase C (DataBlock n)} (hp : p.fwds = (s.ph c).fwds)
    {f : RequestMsg C D A n → Bool} :
    List.Forall₂ Fwd.Matches p.fwds (b.fwd c ++ [].filter f) := by
  rw [List.filter_nil, List.append_nil, hp]
  exact h.fwd c

/-- The response channels when the directory sends nothing on them. -/
theorem resp_none (h : Rel home b s) (hx : x.responseNetworkOut = [])
    (hs : ∀ src dst, s'.resps home src dst = s.resps home src dst) (src dst : MachineID C D) :
    List.Forall₂ Resp.Matches (s'.resps home src dst) (b.resp src dst ++
      if src = .Directory home then x.responseNetworkOut.filter fun m => dst ∈ m.destination
      else []) := by
  rw [hs, hx, List.filter_nil, ite_self, List.append_nil]
  exact h.resp src dst

/-- The response channels when the directory sends data to `c`. -/
theorem resp_data (h : Rel home b s) {v : DataBlock n} {k : ℕ} {j : ℤ}
    (hx : x.responseNetworkOut = [env.data (.L1Cache c) v j]) (hj : j = -k)
    (hs : ∀ src dst, s'.resps home src dst = s.resps home src dst ++
      if src = .Directory home ∧ dst = .L1Cache c then [.dir v k] else [])
    (src dst : MachineID C D) :
    List.Forall₂ Resp.Matches (s'.resps home src dst) (b.resp src dst ++
      if src = .Directory home then x.responseNetworkOut.filter fun m => dst ∈ m.destination
      else []) := by
  rw [hs, hx]
  refine List.rel_append (h.resp src dst) ?_
  by_cases hsrc : src = .Directory home
  · by_cases hd : dst = .L1Cache c
    · simp [hsrc, hd, Directory.Env.data, Resp.Matches, hj]
    · simp [hsrc, hd, Directory.Env.data]
  · simp [hsrc]

/-- The memory controller is asked for something. -/
theorem mem_send (h : Rel home b s) (hm : s.mem = none) {t : MemoryRequestType} {v : DataBlock n} :
    MemOk (b.mem home + (([env.memory t (.L1Cache c) v] : List (MemoryMsg C D A n)) : Multiset _))
      (some (t, c, v)) := by
  have h₀ := h.mem
  rw [hm] at h₀
  rw [show b.mem home = 0 from h₀, zero_add]
  exact ⟨env.memory t (.L1Cache c) v, rfl, rfl, rfl, rfl⟩

/-- The transient entry of the directory in a stable state. -/
theorem dtbe_stable (h : Rel home b s) (hd : s.dst.stable = true) : b.dtbe = none := by
  have := h.dtbe
  generalize s.dst = d at this hd
  cases d with
  | I | S | M => exact this
  | _ => cases hd

/-- The transient entry of the directory in a transient state. -/
theorem dtbe_busy (h : Rel home b s) (hd : s.dst.stable = false) :
    ∃ off blk, b.dtbe = some ⟨off, s.dst, blk, 0⟩ := by
  have := h.dtbe
  generalize s.dst = d at this hd ⊢
  cases d with
  | I | S | M => cases hd
  | _ => exact this

/-- A request is accepted as the abstract protocol says. -/
def Accepts (home : D) (b : Block C D A n) (g : DataBlock n) (env : Env D A) (c : C)
    (m : RequestMsg C D A n) (q : List (RequestMsg C D A n)) : Prop :=
  ∃ x s', Directory.requestQueueIn env b.dentry b.dtbe m = .valid x ∧ x.requestQueueIn = none ∧
    Rel home ((b.setReq c home q).dirFinish home x) s' ∧ s'.Inv g

/-- A `GETS` to an idle block. -/
theorem getS_I_sim (h : Rel home b s) (hinv : s.Inv g) (hq : b.req c home = m :: q)
    (hd : s.dst = .I) (hp : s.ph c = .loadSent) : Accepts home b g env c m q := by
  obtain ⟨hm, -, hr, -⟩ := h.req_pop hq
  rw [hp] at hm
  have hmem : s.mem = none := (hinv.dir_at hd).2.2.1
  unfold Accepts
  rw [h.dentry, h.dtbe_stable (by rw [hd]; rfl), Abs.dirEntry, hd]
  refine ⟨_, _, Directory.request_getS_I (Option.some.inj hm).symm, rfl, ?_,
    (hinv.fetchS hd hp).tick (Nat.le_succ _)⟩
  refine h.dirAcceptOne hq (by rfl) (by rw [hp]; rfl) (by rfl) ?_ ⟨_, _, rfl⟩ ?_ (fun _ _ => rfl)
    (h.resp_none (by rfl) ?_) ?_ (by rfl)
  · simp [Abs.dirEntry, hr, caches_insert]
  · exact h.fwd_none (by rw [hp]; rfl)
  · exact Abs.resps_quiet (c := c) (fun z hz => congrArg Phase.src (Abs.ph_set_of_ne s _ hz))
      (by rw [hp]; exact .inl rfl) (.inr (.inl (congrArg Phase.src (Abs.ph_set_self s c _)))) rfl
        rfl
  · rw [hr]
    exact h.mem_send hmem

/-- A `GETM` to an idle block. -/
theorem getM_I_sim (h : Rel home b s) (hinv : s.Inv g) (hq : b.req c home = m :: q)
    (hd : s.dst = .I) (hp : s.ph c = .storeSent) : Accepts home b g env c m q := by
  obtain ⟨hm, -, hr, -⟩ := h.req_pop hq
  rw [hp] at hm
  have hmem : s.mem = none := (hinv.dir_at hd).2.2.1
  unfold Accepts
  rw [h.dentry, h.dtbe_stable (by rw [hd]; rfl), Abs.dirEntry, hd]
  refine ⟨_, _, Directory.request_getM_I (Option.some.inj hm).symm, rfl, ?_,
    (hinv.fetchM hd hp).tick (Nat.le_succ _)⟩
  refine h.dirAcceptOne hq (by rfl) (by rw [hp]; rfl) (by rfl) ?_ ⟨_, _, rfl⟩ ?_ (fun _ _ => rfl)
    (h.resp_none (by rfl) ?_) ?_ (by rfl)
  · simp [Abs.dirEntry, hr]
  · exact h.fwd_none (by rw [hp]; rfl)
  · exact Abs.resps_quiet (c := c) (fun z hz => congrArg Phase.src (Abs.ph_set_of_ne s _ hz))
      (by rw [hp]; exact .inl rfl) (.inr (.inl (congrArg Phase.src (Abs.ph_set_self s c _)))) rfl
        rfl
  · rw [hr]
    exact h.mem_send hmem

/-- A `GETS` to a shared block. -/
theorem getS_S_sim (h : Rel home b s) (hinv : s.Inv g) (hq : b.req c home = m :: q)
    (hd : s.dst = .S) (hp : s.ph c = .loadSent) : Accepts home b g env c m q := by
  obtain ⟨hm, -, hr, -⟩ := h.req_pop hq
  rw [hp] at hm
  unfold Accepts
  rw [h.dentry, h.dtbe_stable (by rw [hd]; rfl), Abs.dirEntry, hd]
  refine ⟨_, _, Directory.request_getS_S (Option.some.inj hm).symm, rfl, ?_,
    (hinv.share hd hp).tick (Nat.le_succ _)⟩
  refine h.dirAcceptOne hq (by rfl) (by rw [hp]; rfl) (by rfl) ?_ ?_ ?_ (fun _ _ => rfl)
    (h.resp_data (v := s.ddata) (k := 0) (by rw [hr]) (by rfl) ?_) ?_ (by rfl)
  · simp [Abs.dirEntry, hr, hd, caches_insert]
  · change DtbeOk none s.dst
    rw [hd]
    rfl
  · exact h.fwd_none (by rw [hp]; rfl)
  · exact Abs.resps_send (fun z hz => congrArg Phase.src (Abs.ph_set_of_ne s _ hz))
      (by rw [hp]; exact .inl rfl) (congrArg Phase.src (Abs.ph_set_self s c _)) rfl rfl
  · rw [Multiset.coe_nil, add_zero]
    exact h.mem

/-- A `GETM` to a shared block: the other sharers are invalidated. -/
theorem getM_S_sim (h : Rel home b s) (hinv : s.Inv g) (hq : b.req c home = m :: q)
    (htime : env.time = s.time) (hd : s.dst = .S) {p : Phase C (DataBlock n)}
    (hp : s.ph c = .storeSent ∧ p = .storeWait (.dir s.ddata (s.sharers.erase c).card) none ∨
      s.ph c = .upgradeSent none ∧ p = .upgradeData s.ddata (s.sharers.erase c).card none) :
    Accepts home b g env c m q := by
  obtain ⟨hm, -, hr, -⟩ := h.req_pop hq
  have hm' : m.type = .GETM := by
    rcases hp with ⟨e, -⟩ | ⟨e, -⟩ <;> rw [e] at hm <;> exact (Option.some.inj hm).symm
  have hpc : p.st = (s.ph c).st ∧ p.req = none ∧ (s.ph c).src = none ∧
      p.src = some (.dir s.ddata (s.sharers.erase c).card) ∧ p.fwds = (s.ph c).fwds := by
    rcases hp with ⟨e, rfl⟩ | ⟨e, rfl⟩ <;> rw [e] <;> exact ⟨rfl, rfl, rfl, rfl, rfl⟩
  obtain ⟨hst, hreq, hsrc, hsrc', hfwds⟩ := hpc
  -- a sharer that is sent an invalidation has nothing else in its queue
  have hshare : ∀ z, z ∈ s.sharers.erase c → (s.ph z).role.1 = true ∧
      ∀ r t, (s.ph z).own ≠ some (.GETS, r, t) := fun z hz =>
    ⟨(hinv.roles z).1.1 (Finset.mem_of_mem_erase hz),
      fun r t => hinv.own_ne_getS (by rw [hd]; exact nofun) z r t⟩
  have hsame : ∀ z, z ≠ c → (Abs.Inv.notified s c z).Same (s.cell z) ∧
      (Abs.Inv.notified s c z).ph.src = (s.ph z).src := by
    intro z hz
    unfold Abs.Inv.notified
    split
    · next hmem =>
        obtain ⟨h₁, h₂⟩ := hshare z hmem
        obtain ⟨e₁, e₂, e₃, e₄, -⟩ := Phase.setInv_rest h₁ h₂ c s.time
        exact ⟨⟨e₁, rfl, rfl, rfl, e₃, e₄⟩, e₂⟩
    · exact ⟨Cell.Same.refl _, rfl⟩
  have hdest : (if m.requestor ∈ caches D s.sharers then (caches D s.sharers).erase m.requestor
      else caches D s.sharers) = caches D (s.sharers.erase c) := by
    rw [hr, caches_erase]
    split
    · rfl
    · next hno => rw [Finset.erase_eq_of_notMem hno]
  have hcount : (if m.requestor ∈ caches D s.sharers then 1 - ((caches D s.sharers).card : ℤ)
      else 0 - ((caches D s.sharers).card : ℤ)) = -((s.sharers.erase c).card : ℤ) := by
    rw [hr, card_caches]
    split
    · next hmem =>
        have hc := mem_caches.1 hmem
        have := Finset.card_pos.2 ⟨c, hc⟩
        rw [Finset.card_erase_of_mem hc]
        omega
    · next hno =>
        rw [Finset.erase_eq_of_notMem fun hc => hno (mem_caches.2 hc)]
        omega
  unfold Accepts
  rw [h.dentry, h.dtbe_stable (by rw [hd]; rfl), Abs.dirEntry, hd]
  refine ⟨_, _, Directory.request_getM_S hm', rfl, ?_, hinv.grant hd hp⟩
  rw [hdest, hcount]
  refine h.dirAccept hq (Function.update_self c _ _) hst hreq ?_ ?_ (by rfl) ?_
    (h.resp_data (v := s.ddata) (k := (s.sharers.erase c).card) (by rw [hr]) (by rfl) ?_)
      ?_ (by rfl)
  · intro z hz
    change (Function.update (Abs.Inv.notified s c) c _ z).Same _
    rw [Function.update_of_ne hz]
    exact (hsame z hz).1
  · simp [Abs.dirEntry, hr]
  · intro z
    by_cases hz : z = c
    · subst hz
      change List.Forall₂ _ (Function.update (Abs.Inv.notified s z) z _ z).ph.fwds _
      rw [Function.update_self, hfwds]
      simpa [Directory.Env.forward] using h.fwd z
    · change List.Forall₂ _ (Function.update (Abs.Inv.notified s c) c _ z).ph.fwds _
      rw [Function.update_of_ne hz]
      unfold Abs.Inv.notified
      split
      · next hmem =>
          obtain ⟨h₁, h₂⟩ := hshare z hmem
          rw [(Phase.setInv_rest h₁ h₂ c s.time).2.2.2.2]
          refine List.rel_append (h.fwd z) ?_
          rw [List.filter_cons_of_pos (by simpa [Directory.Env.forward] using hmem),
            List.filter_nil]
          exact .cons ⟨rfl, hr, htime⟩ .nil
      · next hno =>
          rw [List.filter_cons_of_neg (by simpa [Directory.Env.forward] using hno), List.filter_nil,
            List.append_nil]
          exact h.fwd z
  · refine Abs.resps_send (fun z hz => ?_) (.inl hsrc) ?_ rfl rfl
    · change (Function.update (Abs.Inv.notified s c) c _ z).ph.src = _
      rw [Function.update_of_ne hz]
      exact (hsame z hz).2
    · exact (congrArg (fun y : Cell C (DataBlock n) => y.ph.src)
        (Function.update_self c _ _)).trans hsrc'
  · rw [Multiset.coe_nil, add_zero]
    exact h.mem

/-- A request has been forwarded to the owner `o`: what has to be checked. -/
theorem dirForward (h : Rel home b s) (hinv : s.Inv g) (hq : b.req c home = m :: q)
    (htime : env.time = s.time) (hd : s.dst = .M) {o : C} (ho : s.owner = {o}) (hoc : c ≠ o)
    {p : Phase C (DataBlock n)} {k : Kind}
    (hs : s'.cell = Function.update (Function.update s.cell c { s.cell c with ph := p }) o
      { s.cell o with ph := (s.ph o).setOwn (some (k, c, s.time)) })
    (hst : p.st = (s.ph c).st) (hreq : p.req = none) (hsrc : (s.ph c).src = none)
    (hsrc' : p.src = some (.fwd o)) (hfwds : p.fwds = (s.ph c).fwds) (hack : s'.ackIn = s.ackIn)
    (htd : s'.toDir = s.toDir) (hmem : s'.mem = s.mem) (htime' : s'.time = s.time + 1)
    (hentry : x.entry = s'.dirEntry) (htbe : DtbeOk x.tbe s'.dst)
    (hx : x.forwardNetworkOut = [env.forward k.type (.L1Cache c) (caches D s.owner)])
    (hx' : x.responseNetworkOut = []) (hx'' : x.memQueueOut = []) :
    Rel home ((b.setReq c home q).dirFinish home x) s' := by
  have hro : (s.ph o).role.2 = true := (hinv.roles o).2.1 (by simp [ho])
  have hwo : (s.ph o).writing = false := hinv.writing_false (by rw [hd]; exact nofun) o
  obtain ⟨e₁, e₂, e₃, e₄, e₅⟩ := Phase.setOwn_rest hro hwo k c s.time
  have hcellc : s'.cell c = { s.cell c with ph := p } := by
    rw [hs, Function.update_of_ne hoc, Function.update_self]
  have hcello : s'.cell o = { s.cell o with ph := (s.ph o).setOwn (some (k, c, s.time)) } := by
    rw [hs, Function.update_self]
  have hcellz : ∀ z, z ≠ c → z ≠ o → s'.cell z = s.cell z := fun z hz hzo => by
    rw [hs, Function.update_of_ne hzo, Function.update_of_ne hz]
  refine h.dirAccept hq hcellc hst hreq ?_ hentry htbe ?_ (h.resp_none hx' ?_) ?_ htime'
  · intro z hz
    by_cases hzo : z = o
    · subst hzo
      rw [hcello]
      exact ⟨e₁, rfl, rfl, rfl, e₃, e₄⟩
    · rw [hcellz z hz hzo]
      exact Cell.Same.refl _
  · intro z
    rw [hx]
    by_cases hzo : z = o
    · subst hzo
      rw [Abs.ph, hcello, e₅, List.filter_cons_of_pos (by simp [Directory.Env.forward, ho]),
        List.filter_nil]
      exact List.rel_append (h.fwd z) (.cons ⟨rfl, rfl, htime⟩ .nil)
    · rw [List.filter_cons_of_neg (by simp [Directory.Env.forward, ho, hzo]), List.filter_nil,
        List.append_nil]
      by_cases hz : z = c
      · subst hz
        rw [Abs.ph, hcellc, hfwds]
        exact h.fwd z
      · rw [Abs.ph, hcellz z hz hzo]
        exact h.fwd z
  · refine Abs.resps_quiet (c := c) (fun z hz => ?_) (.inl hsrc) (.inr (.inr ⟨o, ?_⟩)) hack htd
    · by_cases hzo : z = o
      · subst hzo
        rw [Abs.ph, hcello, e₂]
      · rw [Abs.ph, hcellz z hz hzo]
        rfl
    · rw [Abs.ph, hcellc, hsrc']
  · rw [hx'', Multiset.coe_nil, add_zero, hmem]
    exact h.mem

omit [DecidableEq C] in
/-- The owner of a modified block is not a cache whose request is on its way. -/
theorem ne_owner (hinv : s.Inv g) {o : C} (ho : s.owner = {o}) (hc : (s.ph c).role.2 = false) :
    c ≠ o := by
  rintro rfl
  have := (hinv.roles c).2.1 (by simp [ho])
  rw [hc] at this
  cases this

/-- A `GETS` to a modified block. -/
theorem getS_M_sim (h : Rel home b s) (hinv : s.Inv g) (hq : b.req c home = m :: q)
    (htime : env.time = s.time) (hd : s.dst = .M) {o : C} (ho : s.owner = {o})
    (hp : s.ph c = .loadSent) : Accepts home b g env c m q := by
  obtain ⟨hm, -, hr, -⟩ := h.req_pop hq
  rw [hp] at hm
  unfold Accepts
  rw [h.dentry, h.dtbe_stable (by rw [hd]; rfl), Abs.dirEntry, hd]
  refine ⟨_, _, Directory.request_getS_M (Option.some.inj hm).symm, rfl, ?_,
    hinv.forwardGets hd ho hp⟩
  refine h.dirForward hinv hq htime hd ho (ne_owner hinv ho (by rw [hp]; rfl)) (k := .GETS) (by rfl)
    (by rw [hp]; rfl) (by rfl) (by rw [hp]; rfl) (by rfl) (by rw [hp]; rfl) (by rfl) (by rfl)
    (by rfl) (by rfl) ?_ ⟨_, _, rfl⟩ ?_ (by rfl) (by rfl)
  · simp [Abs.dirEntry, hr, caches_insert, caches_union]
  · rw [hr]
    rfl

/-- A `GETM` to a modified block. -/
theorem getM_M_sim (h : Rel home b s) (hinv : s.Inv g) (hq : b.req c home = m :: q)
    (htime : env.time = s.time) (hd : s.dst = .M) {o : C} (ho : s.owner = {o})
    {p : Phase C (DataBlock n)}
    (hp : s.ph c = .storeSent ∧ p = .storeWait (.fwd o) none ∨
      ∃ i, s.ph c = .upgradeSent (some i) ∧ p = .upgradeFwd o i none) :
    Accepts home b g env c m q := by
  obtain ⟨hm, -, hr, -⟩ := h.req_pop hq
  have hm' : m.type = .GETM := by
    rcases hp with ⟨e, -⟩ | ⟨i, e, -⟩ <;> rw [e] at hm <;> exact (Option.some.inj hm).symm
  have hpc : p.st = (s.ph c).st ∧ p.req = none ∧ (s.ph c).src = none ∧ p.src = some (.fwd o) ∧
      p.fwds = (s.ph c).fwds ∧ (s.ph c).role.2 = false := by
    rcases hp with ⟨e, rfl⟩ | ⟨i, e, rfl⟩ <;> rw [e] <;> exact ⟨rfl, rfl, rfl, rfl, rfl, rfl⟩
  obtain ⟨hst, hreq, hsrc, hsrc', hfwds, hrole⟩ := hpc
  have hs : s.sharers = ∅ := (hinv.dir_at hd).1
  unfold Accepts
  rw [h.dentry, h.dtbe_stable (by rw [hd]; rfl), Abs.dirEntry, hd, hs, caches_empty]
  refine ⟨_, _, Directory.request_getM_M hm' rfl, rfl, ?_, hinv.forwardGetm hd ho hp⟩
  refine h.dirForward hinv hq htime hd ho (ne_owner hinv ho hrole) (k := .GETM) (by rfl)
    hst hreq hsrc
    hsrc' hfwds (by rfl) (by rfl) (by rfl) (by rfl) ?_ (by rfl) ?_ (by rfl) (by rfl)
  · simp [Abs.dirEntry, hr, hs]
  · rw [hr]
    rfl

/-- The owner writes its data back. -/
theorem putM_owner_sim (h : Rel home b s) (hinv : s.Inv g) (hq : b.req c home = m :: q)
    (hd : s.dst = .M) (ho : c ∈ s.owner) (hp : s.ph c = .evictM none) :
    Accepts home b g env c m q := by
  obtain ⟨hm, -, hr, hblk⟩ := h.req_pop hq
  rw [hp] at hm hblk
  have hmem : s.mem = none := (hinv.dir_at hd).2.2.1
  unfold Accepts
  rw [h.dentry, h.dtbe_stable (by rw [hd]; rfl), Abs.dirEntry, hd]
  refine ⟨_, _, Directory.request_putM_owner (Option.some.inj hm).symm (by simp [hr, ho]), rfl, ?_,
    (hinv.writeBack hd hp m.dataBlk).tick (Nat.le_succ _)⟩
  refine h.dirAcceptOne hq (by rfl) (by rw [hp]; rfl) (by rfl) ?_ ⟨_, _, rfl⟩ ?_ (fun _ _ => rfl)
    (h.resp_none (by rfl) ?_) ?_ (by rfl)
  · simpa [Abs.dirEntry] using hblk (by simp)
  · exact h.fwd_none (by rw [hp]; rfl)
  · exact Abs.resps_quiet (c := c) (fun z hz => congrArg Phase.src (Abs.ph_set_of_ne s _ hz))
      (by rw [hp]; exact .inl rfl) (.inl (congrArg Phase.src (Abs.ph_set_self s c _))) rfl rfl
  · rw [hr]
    exact h.mem_send hmem

/-- A writeback of a cache that is not the owner is acknowledged. -/
theorem putAck_sim (h : Rel home b s) (hinv : s.Inv g) (hq : b.req c home = m :: q) {k : Put}
    (hp : (s.ph c).put = some k) (ho : c ∉ s.owner) (h₁ : s.dst ≠ .IS_MD) (h₂ : s.dst ≠ .IM_MD)
    {dst : Directory.State} (hd : dst = s.dst ∨ s.dst = .S ∧ dst = .I ∧ s.sharers.erase c = ∅)
    {t : Option (Directory.TBE n)} (ht : DtbeOk t dst)
    (hx : Directory.requestQueueIn env b.dentry b.dtbe m = .valid
      { entry := ⟨dst, s.ddata, caches D (s.sharers.erase c), caches D s.owner⟩
        tbe := t
        forwardNetworkOut := [env.wbAck (.L1Cache c)] }) : Accepts home b g env c m q := by
  obtain ⟨hst, hsrc, hreq, hfwds⟩ := Phase.putAcked_rest hp
  have hsrcn : (s.ph c).src = none := by
    generalize s.ph c = p at hp
    cases p with
    | evictM | evictS | evictI => rfl
    | _ => cases hp
  refine ⟨_, _, hx, rfl, ?_, (hinv.putAck hp ho h₁ h₂ hd).tick (Nat.le_succ _)⟩
  refine h.dirAcceptOne hq (by rfl) hst hreq (by rfl) ht ?_ ?_ (h.resp_none (by rfl) ?_) ?_ (by rfl)
  · rw [hfwds]
    refine List.rel_append (h.fwd c) ?_
    rw [List.filter_cons_of_pos (by simp [Directory.Env.wbAck, Directory.Env.forward]),
      List.filter_nil]
    exact .cons rfl .nil
  · intro z hz
    rw [List.filter_cons_of_neg (by simp [Directory.Env.wbAck, Directory.Env.forward, hz]),
      List.filter_nil]
  · exact Abs.resps_quiet (c := c) (fun z hz => congrArg Phase.src (Abs.ph_set_of_ne s _ hz))
      (.inl hsrcn) (.inl ((congrArg Phase.src (Abs.ph_set_self s c _)).trans (hsrc.trans hsrcn)))
      rfl rfl
  · rw [Multiset.coe_nil, add_zero]
    exact h.mem

/-- While the directory is in a transient state, requests for data wait. -/
theorem get_stall (h : Rel home b s) (hm : m.type = .GETS ∨ m.type = .GETM)
    (hd : s.dst.stable = false) : Directory.requestQueueIn env b.dentry b.dtbe m = .stall := by
  obtain ⟨off, blk, ht⟩ := h.dtbe_busy hd
  rw [h.dentry, ht, Abs.dirEntry]
  refine Directory.request_get_stall rfl ?_ hm
  generalize s.dst = d at hd
  cases d with
  | I | S | M => cases hd
  | IS_MD => exact .inl rfl
  | IM_MD => exact .inr (.inl rfl)
  | MS_OD => exact .inr (.inr (.inl rfl))
  | MS_MA => exact .inr (.inr (.inr (.inl rfl)))
  | MI_MA => exact .inr (.inr (.inr (.inr rfl)))

/-- A `GETS`. -/
theorem getS_req_sim (h : Rel home b s) (hinv : s.Inv g) (htime : env.time = s.time)
    (hq : b.req c home = m :: q) (hp : s.ph c = .loadSent) :
    (Directory.requestQueueIn env b.dentry b.dtbe m = .stall ∧ s.dst.stable = false) ∨
      Accepts home b g env c m q := by
  have hm : m.type = .GETS := by
    have := (h.req_pop hq).1
    rw [hp] at this
    exact (Option.some.inj this).symm
  cases hd : s.dst with
  | I => exact .inr (h.getS_I_sim hinv hq hd hp)
  | S => exact .inr (h.getS_S_sim hinv hq hd hp)
  | M =>
      obtain ⟨o, ho⟩ : ∃ o, s.owner = {o} := (hinv.dir_at hd).2.1
      exact .inr (h.getS_M_sim hinv hq htime hd ho hp)
  | _ => exact .inl ⟨h.get_stall (.inl hm) (by rw [hd]; rfl), rfl⟩

/-- A `GETM`. -/
theorem getM_req_sim (h : Rel home b s) (hinv : s.Inv g) (htime : env.time = s.time)
    (hq : b.req c home = m :: q) (hp : s.ph c = .storeSent ∨ ∃ i, s.ph c = .upgradeSent i) :
    (Directory.requestQueueIn env b.dentry b.dtbe m = .stall ∧ s.dst.stable = false) ∨
      Accepts home b g env c m q := by
  have hm : m.type = .GETM := by
    have := (h.req_pop hq).1
    rcases hp with hp | ⟨i, hp⟩ <;> rw [hp] at this <;> exact (Option.some.inj this).symm
  -- an upgrade whose copy is still good is listed as a sharer, any other is about to lose it
  have hlisted : s.ph c = .upgradeSent none → c ∈ s.sharers := fun e =>
    (hinv.roles c).1.2 (by rw [e]; rfl)
  have hlost : ∀ i, ¬ s.given → s.ph c ≠ .upgradeSent (some i) := fun i hng e => by
    have := hinv.inv_none_of_not_given hng c
    rw [e] at this
    cases this
  have hdir := hinv.dir
  cases hd : s.dst with
  | I =>
      have hng : ¬ s.given := by simp [Abs.given, hd]
      rw [hd] at hdir
      rcases hp with hp | ⟨_ | i, hp⟩
      · exact .inr (h.getM_I_sim hinv hq hd hp)
      · have := hlisted hp
        rw [hdir.1] at this
        exact absurd this (Finset.notMem_empty c)
      · exact absurd hp (hlost i hng)
  | S =>
      have hng : ¬ s.given := by simp [Abs.given, hd]
      rcases hp with hp | ⟨_ | i, hp⟩
      · exact .inr (h.getM_S_sim hinv hq htime hd (.inl ⟨hp, rfl⟩))
      · exact .inr (h.getM_S_sim hinv hq htime hd (.inr ⟨hp, rfl⟩))
      · exact absurd hp (hlost i hng)
  | M =>
      rw [hd] at hdir
      obtain ⟨hs, ⟨o, ho⟩, -⟩ := hdir
      rcases hp with hp | ⟨_ | i, hp⟩
      · exact .inr (h.getM_M_sim hinv hq htime hd ho (.inl ⟨hp, rfl⟩))
      · have := hlisted hp
        rw [hs] at this
        exact absurd this (Finset.notMem_empty c)
      · exact .inr (h.getM_M_sim hinv hq htime hd ho (.inr ⟨i, hp, rfl⟩))
  | _ => exact .inl ⟨h.get_stall (.inr hm) (by rw [hd]; rfl), rfl⟩

/-- A writeback request. -/
theorem put_req_sim (h : Rel home b s) (hinv : s.Inv g) (hq : b.req c home = m :: q) {k : Put}
    (hp : (s.ph c).put = some k) :
    (Directory.requestQueueIn env b.dentry b.dtbe m = .stall ∧ s.dst.stable = false) ∨
      Accepts home b g env c m q := by
  obtain ⟨ht, -, hr, -⟩ := h.req_pop hq
  have hm : m.type = .PUTS ∨ m.type = .PUTM := by
    generalize s.ph c = p at hp ht
    cases p with
    | evictM o => exact .inr (Option.some.inj ht).symm
    | evictS k i | evictI k =>
        cases k with
        | PUTS => exact .inl (Option.some.inj ht).symm
        | PUTM => exact .inr (Option.some.inj ht).symm
    | _ => cases hp
  have hentry := h.dentry
  have hdir := hinv.dir
  -- a cache that has a writeback on its way waits neither for data nor for the memory controller
  have hout : (s.ph c).fetching = false ∧ (s.ph c).writing = false := by
    generalize s.ph c = p at hp
    cases p with
    | evictM | evictS | evictI => exact ⟨rfl, rfl⟩
    | _ => cases hp
  cases hd : s.dst with
  | I =>
      rw [hd] at hdir
      obtain ⟨hs, ho, -, -⟩ := hdir
      right
      refine h.putAck_sim hinv hq hp (by simp [ho]) (by simp [hd]) (by simp [hd]) (.inl hd.symm)
        (t := none) rfl ?_
      rw [hentry, h.dtbe_stable (by rw [hd]; rfl), Abs.dirEntry, hd, hs, ho, Finset.erase_empty,
        caches_empty, Directory.request_put_I hm, hr]
  | S =>
      rw [hd] at hdir
      obtain ⟨ho, -, -⟩ := hdir
      right
      by_cases hl : Directory.LastSharer (caches D s.sharers) m
      · have hcard : s.sharers.erase c = ∅ := by
          have h₂ := hl.2.1
          have h₃ := hl.2.2
          rw [card_caches] at h₂
          rw [hr, mem_caches] at h₃
          refine Finset.card_eq_zero.1 ?_
          rw [Finset.card_erase_of_mem h₃]
          omega
        refine h.putAck_sim hinv hq hp (by simp [ho]) (by simp [hd]) (by simp [hd])
          (.inr ⟨hd, rfl, hcard⟩) (t := none) rfl ?_
        rw [hentry, h.dtbe_stable (by rw [hd]; rfl), Abs.dirEntry, hd, ho, caches_empty,
          Directory.request_put_S_last hl, hr, caches_erase]
      · refine h.putAck_sim hinv hq hp (by simp [ho]) (by simp [hd]) (by simp [hd]) (.inl hd.symm)
          (t := none) rfl ?_
        rw [hentry, h.dtbe_stable (by rw [hd]; rfl), Abs.dirEntry, hd, ho, caches_empty,
          Directory.request_put_S hm hl, hr, caches_erase]
  | M =>
      rw [hd] at hdir
      obtain ⟨hs, ⟨o, ho⟩, -⟩ := hdir
      right
      by_cases hco : c = o
      · subst hco
        have hmem : c ∈ s.owner := by simp [ho]
        have hrole := (hinv.roles c).2.1 hmem
        refine h.putM_owner_sim hinv hq hd hmem ?_
        generalize s.ph c = p at hp hrole
        cases p with
        | evictM f =>
            rcases f with - | ⟨_ | _, r, t⟩
            · rfl
            · cases hrole
            · cases hrole
        | evictS | evictI => cases hrole
        | _ => cases hp
      · refine h.putAck_sim hinv hq hp (by simp [ho, hco]) (by simp [hd]) (by simp [hd])
          (.inl hd.symm) (t := none) rfl ?_
        rw [hentry, h.dtbe_stable (by rw [hd]; rfl), Abs.dirEntry, hd, hs, ho, caches_empty,
          Finset.erase_empty, caches_empty, caches_singleton,
          Directory.request_put_M hm (by rw [hr]; simpa using hco), hr]
  | IS_MD | IM_MD =>
      left
      refine ⟨?_, rfl⟩
      obtain ⟨off, blk, ht⟩ := h.dtbe_busy (by rw [hd]; rfl)
      rw [hentry, ht, Abs.dirEntry, hd]
      refine Directory.request_put_stall rfl (by simp) hm ?_
      rw [hr, mem_caches]
      intro hc
      have hrole := (hinv.roles c).2.1 hc
      rw [hd] at hdir
      first
        | rw [hdir.1] at hc
          exact absurd hc (Finset.notMem_empty c)
        | obtain ⟨-, -, c', d, ho, -, hf⟩ := hdir
          rw [ho, Finset.mem_singleton] at hc
          subst hc
          exact absurd (hout.1.symm.trans hf) Bool.false_ne_true
  | MS_OD | MS_MA | MI_MA =>
      have hno : c ∉ s.owner := by
        intro hc
        rw [hd] at hdir
        first
          | rw [hdir.1] at hc
            exact absurd hc (Finset.notMem_empty c)
          | obtain ⟨-, -, c', d, ho, -, hf⟩ := hdir
            rw [ho, Finset.mem_singleton] at hc
            subst hc
            exact absurd (hout.2.symm.trans hf) Bool.false_ne_true
      obtain ⟨off, blk, ht⟩ := h.dtbe_busy (by rw [hd]; rfl)
      by_cases hl : Directory.LastSharer (caches D s.sharers) m
      · left
        refine ⟨?_, rfl⟩
        rw [hentry, ht, Abs.dirEntry, hd]
        exact Directory.request_last_stall rfl (by simp) hl
      · right
        refine h.putAck_sim hinv hq hp hno (by simp [hd]) (by simp [hd]) (.inl rfl)
          (t := b.dtbe) h.dtbe ?_
        rw [hentry, ht, Abs.dirEntry, hd,
          Directory.request_put_busy (by simp) hm (by rwa [hr, mem_caches]) hl, hr, caches_erase]

/-- **The request network.** A request waits while the directory is in a transient state, or it is
accepted as the abstract protocol says. -/
theorem request_sim (h : Rel home b s) (env : Env D A) (hinv : s.Inv g) (htime : env.time = s.time)
    (hq : b.req c home = m :: q) :
    (Directory.requestQueueIn env b.dentry b.dtbe m = .stall ∧ s.dst.stable = false) ∨
      Accepts home b g env c m q := by
  have hreq := (h.req_pop hq).1
  cases hp : s.ph c with
  | loadSent => exact h.getS_req_sim hinv htime hq hp
  | storeSent => exact h.getM_req_sim hinv htime hq (.inl hp)
  | upgradeSent i => exact h.getM_req_sim hinv htime hq (.inr ⟨i, hp⟩)
  | evictM o => exact h.put_req_sim hinv hq (k := .PUTM) (by rw [hp]; rfl)
  | evictS k i => exact h.put_req_sim hinv hq (k := k) (by rw [hp]; rfl)
  | evictI k => exact h.put_req_sim hinv hq (k := k) (by rw [hp]; rfl)
  | _ =>
      rw [hp] at hreq
      cases hreq

end Request

/-! ### Responses and answers of the memory controller -/

/-- **The response network.** The data of a former owner is always processed, as the abstract
protocol says. -/
theorem dirResponse_sim (h : Rel home b s) (env : Env D A) (hinv : s.Inv g) {src : MachineID C D}
    {m : ResponseMsg C D A n} {q : List (ResponseMsg C D A n)} (hsrc : m.sender = src)
    (hq : b.resp src (.Directory home) = m :: q) :
    ∃ x s', Directory.responseQueueIn env b.dentry b.dtbe m = .valid x ∧
      x.responseQueueIn = none ∧
      Rel home ((b.setResp src (.Directory home) q).dirFinish home x) s' ∧ s'.Inv g := by
  have hr := h.resp src (.Directory home)
  rw [hq] at hr
  obtain ⟨o, v, rfl, htd⟩ : ∃ o v, src = .L1Cache o ∧ s.toDir = some (o, v) := by
    cases src with
    | Directory d => cases hr
    | L1Cache y =>
        simp only [Abs.resps] at hr
        split at hr
        · next o v htd =>
            by_cases hy : o = y
            · exact ⟨o, v, by rw [hy], htd⟩
            · rw [if_neg fun e => hy e.1] at hr
              cases hr
        · cases hr
  have hresps : s.resps home (.L1Cache o) (.Directory home) = [.toDir v] := by
    simp [Abs.resps, htd]
  rw [hresps] at hr
  obtain ⟨⟨hm, hv⟩, hnil⟩ := List.forall₂_cons.1 hr
  obtain rfl := List.forall₂_nil_left_iff.1 hnil
  have hdir := hinv.dir
  have hd : s.dst = .MS_OD ∧ s.mem = none := by
    generalize s.dst = d at hdir
    cases d with
    | MS_OD => exact ⟨rfl, hdir.2.1⟩
    | I => exact absurd (htd.symm.trans hdir.2.2.2) (by simp)
    | S => exact absurd (htd.symm.trans hdir.2.2) (by simp)
    | M => exact absurd (htd.symm.trans hdir.2.2.2) (by simp)
    | _ => exact absurd (htd.symm.trans hdir.2.1) (by simp)
  obtain ⟨hd, hmem⟩ := hd
  obtain ⟨off, blk, ht⟩ := h.dtbe_busy (by rw [hd]; rfl)
  rw [h.dentry, ht, Abs.dirEntry, hd]
  refine ⟨_, _, Directory.response_data hm, rfl, ?_,
    (hinv.ownerData hd htd m.dataBlk).tick (Nat.le_succ _)⟩
  refine h.dirFinish (by rfl) (by rfl) (by rfl) (by rfl) (by intros; rfl) (by intros; rfl)
    (fun z => ⟨rfl, rfl⟩) ?_ ⟨_, _, rfl⟩ h.req ?_ ?_ ?_ (by rfl)
  · simp [Abs.dirEntry, hv]
  · intro z
    rw [List.filter_nil, List.append_nil]
    exact h.fwd z
  · intro src dst
    rw [resp_dirFinish, List.filter_nil, ite_self, List.append_nil, Block.resp_setResp,
      Abs.resps_toDir (s := s) (by intros; rfl) (by rfl) htd (by rfl)]
    split
    · exact List.Forall₂.nil
    · exact h.resp src dst
  · rw [hsrc]
    exact h.mem_send hmem

/-- The request at the memory controller. -/
theorem mem_pop (h : Rel home b s) {m : MemoryMsg C D A n} {q : Multiset (MemoryMsg C D A n)}
    (hq : b.mem home = m ::ₘ q) :
    ∃ c, s.mem = some (m.type, c, m.dataBlk) ∧ m.originalRequestorMachId = .L1Cache c ∧ q = 0 := by
  have hm := h.mem
  rw [hq] at hm
  cases hs : s.mem with
  | none =>
      rw [hs] at hm
      exact absurd hm Multiset.cons_ne_zero
  | some t =>
      obtain ⟨t, c, d⟩ := t
      rw [hs] at hm
      obtain ⟨m', h₁, rfl, h₂, rfl⟩ := hm
      obtain ⟨rfl, rfl⟩ : m = m' ∧ q = 0 := by
        rw [← Multiset.cons_zero, Multiset.cons_eq_cons] at h₁
        rcases h₁ with h₁ | ⟨-, _, -, h₁⟩
        · exact h₁
        · exact absurd h₁.symm Multiset.cons_ne_zero
      exact ⟨c, rfl, h₂, rfl⟩

/-- An answer of the memory controller has been processed: what has to be checked. -/
theorem dirMemory (h : Rel home b s) {p : Phase C (DataBlock n)} {x : Ctx C D A n}
    (hs : s'.cell = Function.update s.cell c { s.cell c with ph := p }) (hst : p.st = (s.ph c).st)
    (hreq : p.req = (s.ph c).req) (hput : p.put = (s.ph c).put) (hentry : x.entry = s'.dirEntry)
    (htbe : DtbeOk x.tbe s'.dst)
    (hfwdc : List.Forall₂ Fwd.Matches p.fwds
      (b.fwd c ++ x.forwardNetworkOut.filter fun m => .L1Cache c ∈ m.destination))
    (hfwdz : ∀ z, z ≠ c →
      (x.forwardNetworkOut.filter fun m => .L1Cache z ∈ m.destination) = [])
    (hresp : ∀ src dst, List.Forall₂ Resp.Matches (s'.resps home src dst) (b.resp src dst ++
      if src = .Directory home then x.responseNetworkOut.filter fun m => dst ∈ m.destination
      else [])) (hx : x.memQueueOut = []) (hmem : s'.mem = none) (htime : s'.time = s.time + 1) :
    Rel home ((b.setMem home 0).dirFinish home x) s' := by
  have hcell : s'.cell c = { s.cell c with ph := p } := by rw [hs, Function.update_self]
  have hcells : ∀ z, z ≠ c → s'.cell z = s.cell z := fun z hz => by
    rw [hs, Function.update_of_ne hz]
  have hsame : ∀ z, (s'.cell z).Same (s.cell z) := by
    intro z
    by_cases hz : z = c
    · subst hz
      rw [hcell]
      exact ⟨hst, rfl, rfl, rfl, hreq, hput⟩
    · rw [hcells z hz]
      exact Cell.Same.refl _
  refine h.dirFinish (by rfl) (by rfl) (by rfl) (by rfl) (by intros; rfl) ?_
    (fun z => ⟨(hsame z).entry, (hsame z).tbe⟩) hentry htbe (fun z => (hsame z).reqOk (h.req z)) ?_
    ?_ ?_ htime
  · exact fun d hd => Block.mem_setMem_of_ne b 0 hd
  · intro z
    by_cases hz : z = c
    · subst hz
      rw [Abs.ph, hcell]
      exact hfwdc
    · rw [Abs.ph, hcells z hz, hfwdz z hz, List.append_nil]
      exact h.fwd z
  · intro src dst
    rw [resp_dirFinish]
    exact hresp src dst
  · rw [hx, hmem, Block.mem_setMem_self]
    rfl

/-- **The memory controller.** An answer is always processed, as the abstract protocol says. -/
theorem memory_sim (h : Rel home b s) (env : Env D A) (hinv : s.Inv g) {m : MemoryMsg C D A n}
    {q : Multiset (MemoryMsg C D A n)} (hq : b.mem home = m ::ₘ q) :
    ∃ x s', Directory.memQueueIn env b.dentry b.dtbe m = .valid x ∧ x.memQueueIn = none ∧
      Rel home ((b.setMem home q).dirFinish home x) s' ∧ s'.Inv g := by
  obtain ⟨c, hmem, hr, rfl⟩ := h.mem_pop hq
  have hdir := hinv.dir
  have hentry := h.dentry
  cases hd : s.dst with
  | I | M =>
      rw [hd] at hdir
      exact absurd (hmem.symm.trans hdir.2.2.1) (by simp)
  | S | MS_OD =>
      rw [hd] at hdir
      exact absurd (hmem.symm.trans hdir.2.1) (by simp)
  | IS_MD =>
      rw [hd] at hdir
      obtain ⟨ho, -, c', d, hs, hm, -⟩ := hdir
      have ht : m.type = .MEMORY_READ := (Prod.mk.inj (Option.some.inj (hmem.symm.trans hm))).1
      rw [ht] at hmem
      have hp := hinv.fetchingS hd hmem
      obtain ⟨off, blk, htbe⟩ := h.dtbe_busy (by rw [hd]; rfl)
      rw [hentry, htbe, Abs.dirEntry, hd]
      refine ⟨_, _, Directory.memory_data_IS_MD ht, rfl, ?_,
        (hinv.fetchedS hd hmem).tick (Nat.le_succ _)⟩
      refine h.dirMemory (by rfl) (by rw [hp]; rfl) (by rw [hp]; rfl) (by rw [hp]; rfl) ?_
        (by rfl) ?_
        (fun _ _ => rfl) (h.resp_data (v := m.dataBlk) (k := 0) (by rw [hr]) (by rfl) ?_) (by rfl)
        (by rfl) (by rfl)
      · simp [Abs.dirEntry]
      · exact h.fwd_none (by rw [hp]; rfl)
      · exact Abs.resps_send (fun z hz => congrArg Phase.src (Abs.ph_set_of_ne s _ hz))
          (by rw [hp]; exact .inr (.inl rfl)) (congrArg Phase.src (Abs.ph_set_self s c _)) rfl rfl
  | IM_MD =>
      rw [hd] at hdir
      obtain ⟨hs, -, c', d, ho, hm, -⟩ := hdir
      have ht : m.type = .MEMORY_READ := (Prod.mk.inj (Option.some.inj (hmem.symm.trans hm))).1
      rw [ht] at hmem
      have hp := hinv.fetchingM hd hmem
      obtain ⟨off, blk, htbe⟩ := h.dtbe_busy (by rw [hd]; rfl)
      rw [hentry, htbe, Abs.dirEntry, hd, hs, ho, caches_empty, caches_singleton]
      refine ⟨_, _, Directory.memory_data_IM_MD ht, rfl, ?_,
        (hinv.fetchedM hd hmem).tick (Nat.le_succ _)⟩
      refine h.dirMemory (by rfl) (by rw [hp]; rfl) (by rw [hp]; rfl) (by rw [hp]; rfl) ?_
        (by rfl) ?_
        (fun _ _ => rfl) (h.resp_data (v := m.dataBlk) (k := 0) (by rw [hr]) (by rfl) ?_) (by rfl)
        (by rfl) (by rfl)
      · simp [Abs.dirEntry, hs, ho]
      · exact h.fwd_none (by rw [hp]; rfl)
      · exact Abs.resps_send (fun z hz => congrArg Phase.src (Abs.ph_set_of_ne s _ hz))
          (by rw [hp]; exact .inr (.inl rfl)) (congrArg Phase.src (Abs.ph_set_self s c _)) rfl rfl
  | MS_MA =>
      rw [hd] at hdir
      obtain ⟨ho, -, c', d, hm⟩ := hdir
      have ht : m.type = .MEMORY_WB := (Prod.mk.inj (Option.some.inj (hmem.symm.trans hm))).1
      obtain ⟨off, blk, htbe⟩ := h.dtbe_busy (by rw [hd]; rfl)
      rw [hentry, htbe, Abs.dirEntry, hd]
      refine ⟨_, _, Directory.memory_ack_MS_MA ht, rfl, ?_,
        (hinv.sharedAgain hd).tick (Nat.le_succ _)⟩
      refine h.dirMemory (c := c) (p := s.ph c) ?_ (by rfl) (by rfl) (by rfl) ?_ (by rfl) ?_
        (fun _ _ => rfl) (h.resp_none (by rfl) ?_) (by rfl) (by rfl) (by rfl)
      · exact (Function.update_eq_self c s.cell).symm
      · simp [Abs.dirEntry]
      · exact h.fwd_none rfl
      · exact Abs.resps_congr (by intros; rfl) (by intros; rfl) (by rfl) (by rfl)
  | MI_MA =>
      rw [hd] at hdir
      obtain ⟨hs, -, c', d, ho, hm, -⟩ := hdir
      have ht : m.type = .MEMORY_WB := (Prod.mk.inj (Option.some.inj (hmem.symm.trans hm))).1
      rw [ht] at hmem
      have hp := hinv.writingBack hd hmem
      obtain ⟨off, blk, htbe⟩ := h.dtbe_busy (by rw [hd]; rfl)
      rw [hentry, htbe, Abs.dirEntry, hd, hs, caches_empty]
      refine ⟨_, _, Directory.memory_ack_MI_MA ht, rfl, ?_,
        (hinv.writtenBack hd hmem).tick (Nat.le_succ _)⟩
      refine h.dirMemory (by rfl) (by rw [hp]; rfl) (by rw [hp]; rfl) (by rw [hp]; rfl) ?_
        (by rfl) ?_ ?_
        (h.resp_none (by rfl) ?_) (by rfl) (by rfl) (by rfl)
      · simp [Abs.dirEntry, hs]
      · rw [hr, List.filter_cons_of_pos (by simp [Directory.Env.forward]), List.filter_nil]
        have := h.fwd c
        rw [hp] at this
        exact List.rel_append this (.cons rfl .nil)
      · intro z hz
        rw [hr, List.filter_cons_of_neg (by simp [Directory.Env.forward, hz]), List.filter_nil]
      · exact Abs.resps_quiet (c := c) (fun z hz => congrArg Phase.src (Abs.ph_set_of_ne s _ hz))
          (by rw [hp]; exact .inl rfl) (.inl (congrArg Phase.src (Abs.ph_set_self s c _))) rfl rfl

end Rel

end Msi
