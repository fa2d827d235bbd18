/-
**The outcome of an in port.**

One lemma for each thing that can happen when a controller looks at the head of a queue: given the
phase of the cell, or the state of the directory, and the message, what the in port of
`ArchLab/MsiL1Cache.lean` or `ArchLab/MsiDirectory.lean` computes — the line and the entries after
the transition, all it sends, and what it tells the sequencer — or that it stalls.  The proofs run
the transition tables; nothing after this module looks into them.

The transitions of a cache that differ in the state they start from only are one lemma, with a
function on phases for the state they end in.

Main results:

* `Msi.L1Cache.forward_inv`, `forward_getM`, `forward_getS`, `forward_wbAck` — the forward network;
* `Msi.L1Cache.response_load_dir`, `response_store_dir`, `response_ack` and their variants — the
  response network;
* `Msi.L1Cache.mandatory_load_hit`, `mandatory_store_miss`, `replacement_shared` and their variants
  — the mandatory queue;
* `Msi.Directory.request_getS_I`, `request_getM_S` and their variants — the request network;
* `Msi.Directory.response_data`, `memory_data`, `memory_ack_MS_MA`, `memory_ack_MI_MA` — the other
  in ports of the directory.
-/

import ArchLab.MsiRefine

set_option relaxedAutoImplicit false
set_option autoImplicit false

namespace Msi

/-! ### The outcome of an in port, by the phase of the cell -/

namespace Phase

variable {C V : Type}

/-- The phase after an invalidation has been acknowledged. -/
def invalidated : Phase C V → Phase C V
  | shared _ => idle
  | upgradeSent _ => storeSent
  | upgradeFwd f _ o => storeWait (.fwd f) o
  | evictS k _ => evictI k
  | evictSAcked _ => evictIAcked
  | p => p

/-- The phase after a forwarded `GETM` has been served. -/
def handedOver : Phase C V → Phase C V
  | modified _ => idle
  | evictM _ => evictI .PUTM
  | evictAcked _ => evictIAcked
  | p => p

/-- The phase after a forwarded `GETS` has been served. -/
def downgraded : Phase C V → Phase C V
  | modified _ => shared none
  | evictM _ => evictS .PUTM none
  | evictAcked _ => evictSAcked none
  | p => p

/-- Whether a load is served from the line. -/
def hits : Phase C V → Bool
  | shared _ | modified _ | upgradeSent _ | upgradeData _ _ _ | upgradeFwd _ _ _ | upgradeAcks _ =>
      true
  | _ => false

/-- The phase of a store whose data has come while acknowledgements are missing. -/
def collecting : Phase C V → Phase C V
  | storeWait _ o => storeAcks o
  | upgradeData _ _ o => upgradeAcks o
  | p => p

/-- Whether the cache can serve a forwarded request. -/
def serving : Phase C V → Bool
  | modified _ | evictM _ | evictAcked _ => true
  | _ => false

end Phase

/-- The data with which a cell serves a forwarded request. -/
def Cell.served {C V : Type} (x : Cell C V) : V :=
  match x.ph with
  | .modified _ => x.data
  | _ => x.tdata

namespace L1Cache

variable {C D A : Type} {n : ℕ} {env : Env C D A n} {x : Cell C (DataBlock n)}

/-- The notice that the sequencer is given of an eviction. -/
def Env.evictions (env : Env C D A n) : List (Callback n) :=
  if env.sendEvictions then [.eviction] else []

section Forward

variable {m : RequestMsg C D A n}

/-- An invalidation is acknowledged, unless the cache waits for data. -/
theorem forward_inv {i : C × ℕ} (hm : m.type = .INV) (hi : x.ph.inv = some i)
    (hl : x.ph.loading = false) :
    forwardRequestNetworkIn env x.entry x.tbe m = .valid
      { cacheEntry := { x with ph := x.ph.invalidated }.entry
        tbe := { x with ph := x.ph.invalidated }.tbe
        responseNetworkOut := [env.response .ACK m.requestor default 1]
        callbacks := if x.ph.st = .S then env.evictions else [] } := by
  obtain ⟨p, d, td, k⟩ := x
  obtain ⟨addr, type, requestor, destination, dataBlk, time⟩ := m
  obtain ⟨c, a, home, avail, ev, t, v⟩ := env
  cases hm
  cases p with
  | shared j => cases ev <;> rfl
  | upgradeSent j | upgradeFwd f j o | evictS q j | evictSAcked j => rfl
  | loadWait w j => cases hl
  | _ => cases hi

/-- An invalidation waits while the data of a load is in flight. -/
theorem forward_inv_stall (hm : m.type = .INV) (hl : x.ph.loading = true) :
    forwardRequestNetworkIn env x.entry x.tbe m = .stall := by
  obtain ⟨p, d, td, k⟩ := x
  obtain ⟨addr, type, requestor, destination, dataBlk, time⟩ := m
  cases hm
  cases p with
  | loadWait w j => rfl
  | _ => cases hl

/-- A forwarded `GETM` is answered with the data. -/
theorem forward_getM (hm : m.type = .GETM) (hs : x.ph.serving = true) :
    forwardRequestNetworkIn env x.entry x.tbe m = .valid
      { cacheEntry := { x with ph := x.ph.handedOver }.entry
        tbe := { x with ph := x.ph.handedOver }.tbe
        responseNetworkOut := [env.response .DATA_FROM_OWNER m.requestor x.served 0]
        callbacks := if x.ph.st = .M then env.evictions else [] } := by
  obtain ⟨p, d, td, k⟩ := x
  obtain ⟨addr, type, requestor, destination, dataBlk, time⟩ := m
  obtain ⟨c, a, home, avail, ev, t, v⟩ := env
  cases hm
  cases p with
  | modified o => cases ev <;> rfl
  | evictM o | evictAcked o => rfl
  | _ => cases hs

/-- A forwarded `GETS` is answered with the data, and the directory is sent a copy. -/
theorem forward_getS (hm : m.type = .GETS) (hs : x.ph.serving = true) :
    forwardRequestNetworkIn env x.entry x.tbe m = .valid
      { cacheEntry := { x with ph := x.ph.downgraded }.entry
        tbe := { x with ph := x.ph.downgraded }.tbe
        responseNetworkOut := [env.response .DATA_FROM_OWNER m.requestor x.served 0,
          env.response .DATA (.Directory env.home) x.served 0] } := by
  obtain ⟨p, d, td, k⟩ := x
  obtain ⟨addr, type, requestor, destination, dataBlk, time⟩ := m
  cases hm
  cases p with
  | modified o | evictM o | evictAcked o => rfl
  | _ => cases hs

/-- A forwarded request waits while the cache waits for its own data. -/
theorem forward_own_stall {o : Kind × C × ℕ} (hm : m.type = o.1.type)
    (ho : x.ph.own = some o) (hs : x.ph.serving = false) :
    forwardRequestNetworkIn env x.entry x.tbe m = .stall := by
  obtain ⟨p, d, td, k⟩ := x
  obtain ⟨addr, type, requestor, destination, dataBlk, time⟩ := m
  obtain ⟨_ | _, r, t⟩ := o <;> cases hm
  all_goals
    cases p with
    | storeWait | upgradeData | upgradeFwd | storeAcks | upgradeAcks => rfl
    | modified | evictM | evictAcked => cases hs
    | _ => cases ho

/-- A writeback is over. -/
theorem forward_wbAck (hm : m.type = .WB_ACK) (ha : x.ph.acked = true) :
    forwardRequestNetworkIn env x.entry x.tbe m = .valid { callbacks := env.evictions } := by
  obtain ⟨p, d, td, k⟩ := x
  obtain ⟨addr, type, requestor, destination, dataBlk, time⟩ := m
  obtain ⟨c, a, home, avail, ev, t, v⟩ := env
  cases hm
  cases p with
  | evictAcked | evictSAcked | evictIAcked => cases ev <;> rfl
  | _ => cases ha

end Forward

section Response

variable {m : ResponseMsg C D A n} {d : DataBlock n} {k : ℕ} {f : C} {o : PendingFwd C}

/-- The data of a load comes from the directory. -/
theorem response_load_dir {i : PendingInv C} (hm : m.type = .DATA_FROM_DIR) (hk : m.ackCount = 0)
    (hp : x.ph = .loadWait (.dir d k) i) :
    responseNetworkIn env x.entry x.tbe m = .valid
      { cacheEntry := { x with ph := .shared i, data := m.dataBlk }.entry
        tbe := { x with ph := .shared i, data := m.dataBlk }.tbe
        callbacks := [.read m.dataBlk] } := by
  obtain ⟨p, d, td, k⟩ := x
  obtain ⟨addr, type, sender, destination, dataBlk, ackCount⟩ := m
  cases hm
  cases hk
  cases hp
  rfl

/-- The data of a load comes from the former owner. -/
theorem response_load_owner {i : PendingInv C} (hm : m.type = .DATA_FROM_OWNER)
    (hp : x.ph = .loadWait (.owner f d) i) :
    responseNetworkIn env x.entry x.tbe m = .valid
      { cacheEntry := { x with ph := .shared i, data := m.dataBlk }.entry
        tbe := { x with ph := .shared i, data := m.dataBlk }.tbe
        callbacks := [.read m.dataBlk] } := by
  obtain ⟨p, d, td, k⟩ := x
  obtain ⟨addr, type, sender, destination, dataBlk, ackCount⟩ := m
  cases hm
  cases hp
  rfl

/-- The data of a store comes from the former owner. -/
theorem response_store_owner (hm : m.type = .DATA_FROM_OWNER)
    (hp : x.ph = .storeWait (.owner f d) o) :
    responseNetworkIn env x.entry x.tbe m = .valid
      { cacheEntry := { x with ph := .modified o, data := env.storeData }.entry
        tbe := { x with ph := .modified o, data := env.storeData }.tbe
        callbacks := [.write env.storeData] } := by
  obtain ⟨p, d, td, k⟩ := x
  obtain ⟨addr, type, sender, destination, dataBlk, ackCount⟩ := m
  cases hm
  cases hp
  rfl

/-- The event of the data of a store, by the number of missing acknowledgements. -/
theorem responseEvent_dir {t : TBE n} (hm : m.type = .DATA_FROM_DIR) (hk : m.ackCount = -k)
    (h₀ : k ≠ 0) :
    responseEvent (some t) m = .ok (if t.pendingAcks + k = 0 then .Data_from_Dir_Ack_Cnt_Last
      else .Data_from_Dir_Ack_Cnt) := by
  simp [responseEvent, hm, hk, h₀, need, bind, Except.bind, pure, Except.pure]

/-- The event of an acknowledgement, by the number of missing ones. -/
theorem responseEvent_ack {t : TBE n} (hm : m.type = .ACK) (hk : m.ackCount = 1) :
    responseEvent (some t) m = .ok (if t.pendingAcks - 1 = 0 then .Inv_Ack_all else .Inv_Ack) := by
  simp [responseEvent, hm, hk, need, bind, Except.bind, pure, Except.pure]

/-- The data of a store comes from the directory, and all acknowledgements are there. -/
theorem response_store_dir_last (hm : m.type = .DATA_FROM_DIR) (hk : m.ackCount = -k)
    (hp : x.ph = .storeWait (.dir d k) o ∨ x.ph = .upgradeData d k o) (h₀ : x.acks + k = 0) :
    responseNetworkIn env x.entry x.tbe m = .valid
      { cacheEntry := { x with ph := .modified o, data := env.storeData }.entry
        tbe := { x with ph := .modified o, data := env.storeData }.tbe
        callbacks := [.write env.storeData] } := by
  obtain ⟨p, d, td, j⟩ := x
  simp only at h₀ hp
  by_cases hk₀ : k = 0
  · obtain ⟨addr, type, sender, destination, dataBlk, ackCount⟩ := m
    subst hk₀
    cases hm
    cases hk
    rcases hp with rfl | rfl <;> rfl
  · have hev : ∀ q, responseEvent (some ⟨q, td, j⟩) m = .ok .Data_from_Dir_Ack_Cnt_Last := by
      intro q
      rw [responseEvent_dir hm hk hk₀, if_pos h₀]
    rcases hp with rfl | rfl
    · change trigger env _ (responseEvent (some ⟨.IM_AD, td, j⟩) m) = _
      rw [hev]
      rfl
    · change trigger env _ (responseEvent (some ⟨.SM_AD, td, j⟩) m) = _
      rw [hev]
      rfl

/-- The data of a store comes from the directory while acknowledgements are missing. -/
theorem response_store_dir (hm : m.type = .DATA_FROM_DIR) (hk : m.ackCount = -k)
    (hp : x.ph = .storeWait (.dir d k) o ∨ x.ph = .upgradeData d k o) (h₀ : x.acks + k ≠ 0)
    (hk₀ : k ≠ 0) :
    responseNetworkIn env x.entry x.tbe m = .valid
      { cacheEntry := { x with
          ph := x.ph.collecting, data := m.dataBlk, acks := x.acks - m.ackCount }.entry
        tbe := { x with
          ph := x.ph.collecting, data := m.dataBlk, acks := x.acks - m.ackCount }.tbe } := by
  obtain ⟨p, d, td, j⟩ := x
  simp only at h₀ hp
  have hev : ∀ q, responseEvent (some ⟨q, td, j⟩) m = .ok .Data_from_Dir_Ack_Cnt := by
    intro q
    rw [responseEvent_dir hm hk hk₀, if_neg h₀]
  rcases hp with rfl | rfl
  · change trigger env _ (responseEvent (some ⟨.IM_AD, td, j⟩) m) = _
    rw [hev]
    rfl
  · change trigger env _ (responseEvent (some ⟨.SM_AD, td, j⟩) m) = _
    rw [hev]
    rfl

/-- An acknowledgement is counted. -/
theorem response_ack (hm : m.type = .ACK) (hk : m.ackCount = 1)
    (hp : x.ph = .storeWait (.dir d k) o ∨ x.ph = .upgradeData d k o ∨ x.ph = .storeAcks o ∨
      x.ph = .upgradeAcks o) (h₀ : x.acks - 1 ≠ 0) :
    responseNetworkIn env x.entry x.tbe m = .valid
      { cacheEntry := { x with acks := x.acks - m.ackCount }.entry
        tbe := { x with acks := x.acks - m.ackCount }.tbe } := by
  obtain ⟨p, d, td, j⟩ := x
  simp only at h₀ hp
  have hev : ∀ q, responseEvent (some ⟨q, td, j⟩) m = .ok .Inv_Ack := by
    intro q
    rw [responseEvent_ack hm hk, if_neg h₀]
  rcases hp with rfl | rfl | rfl | rfl
  · change trigger env _ (responseEvent (some ⟨.IM_AD, td, j⟩) m) = _
    rw [hev]
    rfl
  · change trigger env _ (responseEvent (some ⟨.SM_AD, td, j⟩) m) = _
    rw [hev]
    rfl
  · change trigger env _ (responseEvent (some ⟨.IM_A, td, j⟩) m) = _
    rw [hev]
    rfl
  · change trigger env _ (responseEvent (some ⟨.SM_A, td, j⟩) m) = _
    rw [hev]
    rfl

/-- The last acknowledgement completes the store. -/
theorem response_ack_last (hm : m.type = .ACK) (hk : m.ackCount = 1)
    (hp : x.ph = .storeAcks o ∨ x.ph = .upgradeAcks o) (h₀ : x.acks - 1 = 0) :
    responseNetworkIn env x.entry x.tbe m = .valid
      { cacheEntry := { x with ph := .modified o, data := env.storeData }.entry
        tbe := { x with ph := .modified o, data := env.storeData }.tbe
        callbacks := [.write env.storeData] } := by
  obtain ⟨p, d, td, j⟩ := x
  simp only at h₀ hp
  have hev : ∀ q, responseEvent (some ⟨q, td, j⟩) m = .ok .Inv_Ack_all := by
    intro q
    rw [responseEvent_ack hm hk, if_pos h₀]
  rcases hp with rfl | rfl
  · change trigger env _ (responseEvent (some ⟨.IM_A, td, j⟩) m) = _
    rw [hev]
    rfl
  · change trigger env _ (responseEvent (some ⟨.SM_A, td, j⟩) m) = _
    rw [hev]
    rfl

end Response

section Mandatory

variable {r : RubyRequest A}

/-- The requests that read and those that write. -/
theorem mandatoryRequestTypeToEvent_ok {t : RubyRequestType} {ev : Event}
    (h : mandatoryRequestTypeToEvent t = .ok ev) :
    (ev = .Load ∨ ev = .Ifetch) ∧ (t = .LD ∨ t = .IFETCH) ∨
      ev = .Store ∧ (t = .ST ∨ t = .ATOMIC) := by
  cases t <;> simp_all [mandatoryRequestTypeToEvent]

/-- A load hit. -/
theorem mandatory_load_hit (hr : r.type = .LD ∨ r.type = .IFETCH) (hx : x.ph.hits = true) :
    mandatoryQueueIn env x.entry x.tbe r = .valid
      { cacheEntry := x.entry, tbe := x.tbe, callbacks := [.read x.data] } := by
  obtain ⟨p, d, td, k⟩ := x
  obtain ⟨line, type⟩ := r
  cases p with
  | shared | modified | upgradeSent | upgradeData | upgradeFwd | upgradeAcks =>
      rcases hr with h | h <;> cases h <;> rfl
  | _ => cases hx

/-- A load miss. -/
theorem mandatory_load_miss (hr : r.type = .LD ∨ r.type = .IFETCH) (hx : x.ph = .idle)
    (hav : env.cacheAvail = true) :
    mandatoryQueueIn env x.entry x.tbe r = .valid
      { cacheEntry := (⟨.loadSent, default, default, 0⟩ : Cell C (DataBlock n)).entry
        tbe := (⟨.loadSent, default, default, 0⟩ : Cell C (DataBlock n)).tbe
        requestNetworkOut := [env.request .GETS default] } := by
  obtain ⟨p, d, td, k⟩ := x
  obtain ⟨line, type⟩ := r
  obtain ⟨c, a, home, avail, ev, t, v⟩ := env
  cases hx
  cases hav
  rcases hr with h | h <;> cases h <;> rfl

/-- A load waits for the transaction that is under way. -/
theorem mandatory_load_stall (hr : r.type = .LD ∨ r.type = .IFETCH) (hx : x.ph.hits = false)
    (hi : x.ph ≠ .idle) : mandatoryQueueIn env x.entry x.tbe r = .stall := by
  obtain ⟨p, d, td, k⟩ := x
  obtain ⟨line, type⟩ := r
  cases p with
  | idle => exact absurd rfl hi
  | shared | modified | upgradeSent | upgradeData | upgradeFwd | upgradeAcks => cases hx
  | _ => rcases hr with h | h <;> cases h <;> rfl

/-- A store hit. -/
theorem mandatory_store_hit {o : PendingFwd C} (hr : r.type = .ST ∨ r.type = .ATOMIC)
    (hx : x.ph = .modified o) :
    mandatoryQueueIn env x.entry x.tbe r = .valid
      { cacheEntry := { x with data := env.storeData }.entry
        tbe := { x with data := env.storeData }.tbe
        callbacks := [.write env.storeData] } := by
  obtain ⟨p, d, td, k⟩ := x
  obtain ⟨line, type⟩ := r
  cases hx
  rcases hr with h | h <;> cases h <;> rfl

/-- A store miss. -/
theorem mandatory_store_miss (hr : r.type = .ST ∨ r.type = .ATOMIC) (hx : x.ph = .idle)
    (hav : env.cacheAvail = true) :
    mandatoryQueueIn env x.entry x.tbe r = .valid
      { cacheEntry := (⟨.storeSent, default, default, 0⟩ : Cell C (DataBlock n)).entry
        tbe := (⟨.storeSent, default, default, 0⟩ : Cell C (DataBlock n)).tbe
        requestNetworkOut := [env.request .GETM default] } := by
  obtain ⟨p, d, td, k⟩ := x
  obtain ⟨line, type⟩ := r
  obtain ⟨c, a, home, avail, ev, t, v⟩ := env
  cases hx
  cases hav
  rcases hr with h | h <;> cases h <;> rfl

/-- A store to a shared line. -/
theorem mandatory_store_upgrade {i : PendingInv C} (hr : r.type = .ST ∨ r.type = .ATOMIC)
    (hx : x.ph = .shared i) :
    mandatoryQueueIn env x.entry x.tbe r = .valid
      { cacheEntry := (⟨.upgradeSent i, x.data, x.data, 0⟩ : Cell C (DataBlock n)).entry
        tbe := (⟨.upgradeSent i, x.data, x.data, 0⟩ : Cell C (DataBlock n)).tbe
        requestNetworkOut := [env.request .GETM default] } := by
  obtain ⟨p, d, td, k⟩ := x
  obtain ⟨line, type⟩ := r
  cases hx
  rcases hr with h | h <;> cases h <;> rfl

/-- A store waits for the transaction that is under way. -/
theorem mandatory_store_stall (hr : r.type = .ST ∨ r.type = .ATOMIC) (h₁ : x.ph.st ≠ .I)
    (h₂ : x.ph.st ≠ .S) (h₃ : x.ph.st ≠ .M) :
    mandatoryQueueIn env x.entry x.tbe r = .stall := by
  obtain ⟨p, d, td, k⟩ := x
  obtain ⟨line, type⟩ := r
  cases p with
  | idle => exact absurd rfl h₁
  | shared => exact absurd rfl h₂
  | modified => exact absurd rfl h₃
  | _ => rcases hr with h | h <;> cases h <;> rfl

/-- A shared line makes room. -/
theorem replacement_shared {i : PendingInv C} (hx : x.ph = .shared i) :
    mandatoryQueueInReplacement env x.entry x.tbe r = .valid
      { cacheEntry := (⟨.evictS .PUTS i, x.data, x.data, 0⟩ : Cell C (DataBlock n)).entry
        tbe := (⟨.evictS .PUTS i, x.data, x.data, 0⟩ : Cell C (DataBlock n)).tbe
        mandatoryQueueIn := some r
        requestNetworkOut := [env.request .PUTS x.data] } := by
  obtain ⟨p, d, td, k⟩ := x
  cases hx
  rfl

/-- A modified line makes room. -/
theorem replacement_modified {o : PendingFwd C} (hx : x.ph = .modified o) :
    mandatoryQueueInReplacement env x.entry x.tbe r = .valid
      { cacheEntry := (⟨.evictM o, x.data, x.data, 0⟩ : Cell C (DataBlock n)).entry
        tbe := (⟨.evictM o, x.data, x.data, 0⟩ : Cell C (DataBlock n)).tbe
        mandatoryQueueIn := some r
        requestNetworkOut := [env.request .PUTM x.data] } := by
  obtain ⟨p, d, td, k⟩ := x
  cases hx
  rfl

/-- Any other line waits for the transaction that is under way. -/
theorem replacement_stall (h₁ : x.ph.st ≠ .I) (h₂ : x.ph.st ≠ .S) (h₃ : x.ph.st ≠ .M) :
    mandatoryQueueInReplacement env x.entry x.tbe r = .stall := by
  obtain ⟨p, d, td, k⟩ := x
  cases p with
  | idle => exact absurd rfl h₁
  | shared => exact absurd rfl h₂
  | modified => exact absurd rfl h₃
  | _ => rfl

end Mandatory

end L1Cache

namespace Directory

variable {C D A : Type} [DecidableEq C] [DecidableEq D] {n : ℕ} {env : Env D A}

/-- A transition whose actions succeed and whose next state fits the directory entry. -/
theorem doTransition_valid (ev : Event) (x : Ctx C D A n) {y : Ctx C D A n} {actions : List Action}
    {next : State}
    (ht : transition (getState x.tbe x.entry) ev = some (actions, next))
    (hz : .zStall ∉ actions) (hy : actions.foldlM (Action.exec env) x = .ok y)
    (hM : next = .M → y.entry.owner.card = 1 ∧ y.entry.sharers.card = 0)
    (hI : next = .I → y.entry.owner.card = 0 ∧ y.entry.sharers.card = 0) :
    doTransition env ev x = .valid
      { y with
        tbe := y.tbe.map fun t => { t with tbeState := next }
        entry := { y.entry with directoryState := next } } := by
  have hs : setState next y = .ok
      { y with
        tbe := y.tbe.map fun t => { t with tbeState := next }
        entry := { y.entry with directoryState := next } } := by
    unfold setState
    rw [if_neg]
    rintro (⟨h, h'⟩ | ⟨h, h'⟩)
    · exact h' (hM h)
    · exact h' (hI h)
  have hrun : actions.foldlM (Action.exec env) x >>= setState next = .ok _ :=
    Refine.bind_ok.2 ⟨y, hy, hs⟩
  unfold doTransition
  rw [ht]
  simp only [hz, if_false, hrun]

section Request

variable {m : RequestMsg C D A n} {blk : DataBlock n} {sh ow : NetDest C D}
  {tbe : Option (TBE n)}

theorem request_getS_I (hm : m.type = .GETS) :
    requestQueueIn env ⟨.I, blk, sh, ow⟩ none m = .valid
      { entry := ⟨.IS_MD, blk, insert m.requestor sh, ow⟩
        tbe := some ⟨0, .IS_MD, m.dataBlk, 0⟩
        memQueueOut := [env.memory .MEMORY_READ m.requestor blk] } := by
  obtain ⟨addr, type, requestor, destination, dataBlk, time⟩ := m
  cases hm
  rfl

theorem request_getM_I (hm : m.type = .GETM) :
    requestQueueIn env ⟨.I, blk, sh, ow⟩ none m = .valid
      { entry := ⟨.IM_MD, blk, sh, insert m.requestor ∅⟩
        tbe := some ⟨0, .IM_MD, m.dataBlk, 0⟩
        memQueueOut := [env.memory .MEMORY_READ m.requestor blk] } := by
  obtain ⟨addr, type, requestor, destination, dataBlk, time⟩ := m
  cases hm
  rfl

theorem request_getS_S (hm : m.type = .GETS) :
    requestQueueIn env ⟨.S, blk, sh, ow⟩ none m = .valid
      { entry := ⟨.S, blk, insert m.requestor sh, ow⟩
        tbe := none
        responseNetworkOut := [env.data m.requestor blk 0] } := by
  obtain ⟨addr, type, requestor, destination, dataBlk, time⟩ := m
  cases hm
  rfl

theorem request_getM_S (hm : m.type = .GETM) :
    requestQueueIn env ⟨.S, blk, sh, ow⟩ none m = .valid
      { entry := ⟨.M, blk, ∅, {m.requestor}⟩
        tbe := none
        forwardNetworkOut := [env.forward .INV m.requestor
          (if m.requestor ∈ sh then sh.erase m.requestor else sh)]
        responseNetworkOut := [env.data m.requestor blk
          (if m.requestor ∈ sh then 1 - (sh.card : ℤ) else 0 - (sh.card : ℤ))] } := by
  obtain ⟨addr, type, requestor, destination, dataBlk, time⟩ := m
  cases hm
  rfl

theorem request_getS_M (hm : m.type = .GETS) :
    requestQueueIn env ⟨.M, blk, sh, ow⟩ none m = .valid
      { entry := ⟨.MS_OD, blk, insert m.requestor (sh ∪ ow), ∅⟩
        tbe := some ⟨0, .MS_OD, m.dataBlk, 0⟩
        forwardNetworkOut := [env.forward .GETS m.requestor ow] } := by
  obtain ⟨addr, type, requestor, destination, dataBlk, time⟩ := m
  cases hm
  rfl

theorem request_getM_M (hm : m.type = .GETM) (hs : sh = ∅) :
    requestQueueIn env ⟨.M, blk, sh, ow⟩ none m = .valid
      { entry := ⟨.M, blk, sh, {m.requestor}⟩
        tbe := none
        forwardNetworkOut := [env.forward .GETM m.requestor ow] } := by
  obtain ⟨addr, type, requestor, destination, dataBlk, time⟩ := m
  cases hm
  subst hs
  rfl

theorem request_putM_owner (hm : m.type = .PUTM) (ho : m.requestor ∈ ow) :
    requestQueueIn env ⟨.M, blk, sh, ow⟩ none m = .valid
      { entry := ⟨.MI_MA, m.dataBlk, sh, ow⟩
        tbe := some ⟨0, .MI_MA, m.dataBlk, 0⟩
        memQueueOut := [env.memory .MEMORY_WB m.requestor m.dataBlk] } := by
  obtain ⟨addr, type, requestor, destination, dataBlk, time⟩ := m
  cases hm
  have hev : requestEvent (A := A) (⟨.M, blk, sh, ow⟩ : Entry C D n)
      ⟨addr, .PUTM, requestor, destination, dataBlk, time⟩ = .ok .PUTM_Owner := by
    simp only [requestEvent]
    rw [if_pos ho]
  unfold requestQueueIn
  rw [hev]
  rfl

/-- The last sharer gives its copy up. -/
def LastSharer (sh : NetDest C D) (m : RequestMsg C D A n) : Prop :=
  m.type = .PUTS ∧ sh.card < 2 ∧ m.requestor ∈ sh

theorem requestEvent_last {q : State} (hl : LastSharer sh m) :
    requestEvent (⟨q, blk, sh, ow⟩ : Entry C D n) m = .ok .PUTS_Last := by
  unfold requestEvent
  rw [hl.1]
  simp [hl.2]

/-- A writeback of a cache that is neither the owner nor the last sharer. -/
theorem requestEvent_put (e : Entry C D n) (hm : m.type = .PUTS ∨ m.type = .PUTM)
    (ho : m.requestor ∉ e.owner) (hl : ¬ LastSharer e.sharers m) :
    requestEvent e m = .ok .PUTS_NotLast ∨ requestEvent e m = .ok .PUTM_NotOwner := by
  unfold requestEvent
  rcases hm with hm | hm
  · left
    rw [hm]
    simp only
    rw [if_neg fun h => hl ⟨hm, h⟩]
  · right
    rw [hm]
    simp only
    rw [if_neg ho]

/-- The acknowledgement of a writeback. -/
def Env.wbAck (env : Env D A) (requestor : MachineID C D) : RequestMsg C D A n :=
  env.forward .WB_ACK (.Directory env.machineID) {requestor}

theorem request_put_I (hm : m.type = .PUTS ∨ m.type = .PUTM) :
    requestQueueIn env ⟨.I, blk, ∅, ∅⟩ none m = .valid
      { entry := ⟨.I, blk, ∅, ∅⟩
        tbe := none
        forwardNetworkOut := [env.wbAck m.requestor] } := by
  have hl : ¬ LastSharer ∅ m := fun h => Finset.notMem_empty _ h.2.2
  rcases requestEvent_put ⟨.I, blk, ∅, ∅⟩ hm (Finset.notMem_empty _) hl with hev | hev
  all_goals
    unfold requestQueueIn
    rw [hev]
    rfl

theorem request_put_S_last (hl : LastSharer sh m) :
    requestQueueIn env ⟨.S, blk, sh, ∅⟩ none m = .valid
      { entry := ⟨.I, blk, sh.erase m.requestor, ∅⟩
        tbe := none
        forwardNetworkOut := [env.wbAck m.requestor] } := by
  unfold requestQueueIn
  rw [requestEvent_last hl]
  have hcard : (sh.erase m.requestor).card = 0 := by
    rw [Finset.card_erase_of_mem hl.2.2]
    have := hl.2.1
    omega
  exact doTransition_valid .PUTS_Last
    { entry := ⟨.S, blk, sh, ∅⟩, tbe := none, requestQueueIn := some m } rfl (by decide) rfl
    (by simp) (fun _ => ⟨rfl, hcard⟩)

theorem request_put_S (hm : m.type = .PUTS ∨ m.type = .PUTM) (hl : ¬ LastSharer sh m) :
    requestQueueIn env ⟨.S, blk, sh, ∅⟩ none m = .valid
      { entry := ⟨.S, blk, sh.erase m.requestor, ∅⟩
        tbe := none
        forwardNetworkOut := [env.wbAck m.requestor] } := by
  rcases requestEvent_put ⟨.S, blk, sh, ∅⟩ hm (Finset.notMem_empty _) hl with hev | hev
  all_goals
    unfold requestQueueIn
    rw [hev]
    rfl

theorem request_put_M {o : MachineID C D} (hm : m.type = .PUTS ∨ m.type = .PUTM)
    (ho : m.requestor ≠ o) :
    requestQueueIn env ⟨.M, blk, ∅, {o}⟩ none m = .valid
      { entry := ⟨.M, blk, ∅, {o}⟩
        tbe := none
        forwardNetworkOut := [env.wbAck m.requestor] } := by
  have hl : ¬ LastSharer ∅ m := fun h => Finset.notMem_empty _ h.2.2
  rcases requestEvent_put ⟨.M, blk, ∅, {o}⟩ hm (by simpa using ho) hl with hev | hev
  all_goals
    unfold requestQueueIn
    rw [hev]
    rfl

/-- While the directory waits for data that is to be shared or written back, it answers
writebacks. -/
theorem request_put_busy {q : State} {off : ℕ} {d : DataBlock n}
    (hq : q = .MS_OD ∨ q = .MS_MA ∨ q = .MI_MA) (hm : m.type = .PUTS ∨ m.type = .PUTM)
    (ho : m.requestor ∉ ow) (hl : ¬ LastSharer sh m) :
    requestQueueIn env ⟨q, blk, sh, ow⟩ (some ⟨off, q, d, 0⟩) m = .valid
      { entry := ⟨q, blk, sh.erase m.requestor, ow⟩
        tbe := some ⟨off, q, d, 0⟩
        forwardNetworkOut := [env.wbAck m.requestor] } := by
  rcases requestEvent_put ⟨q, blk, sh, ow⟩ hm ho hl with hev | hev
  all_goals
    unfold requestQueueIn
    rw [hev]
    rcases hq with rfl | rfl | rfl <;> rfl

/-- While the directory is busy, requests for data wait. -/
theorem request_get_stall {q : State} {t : TBE n} (ht : t.tbeState = q)
    (hq : q = .IS_MD ∨ q = .IM_MD ∨ q = .MS_OD ∨ q = .MS_MA ∨ q = .MI_MA)
    (hm : m.type = .GETS ∨ m.type = .GETM) :
    requestQueueIn env ⟨q, blk, sh, ow⟩ (some t) m = .stall := by
  obtain ⟨addr, type, requestor, destination, dataBlk, time⟩ := m
  obtain ⟨off, ts, d, len⟩ := t
  cases ht
  rcases hm with h | h <;> cases h
  all_goals rcases hq with h | h | h | h | h <;> cases h <;> rfl

/-- While the directory waits for the first data of a block, writebacks wait. -/
theorem request_put_stall {q : State} {t : TBE n} (ht : t.tbeState = q)
    (hq : q = .IS_MD ∨ q = .IM_MD) (hm : m.type = .PUTS ∨ m.type = .PUTM)
    (ho : m.requestor ∉ ow) : requestQueueIn env ⟨q, blk, sh, ow⟩ (some t) m = .stall := by
  obtain ⟨off, ts, d, len⟩ := t
  cases ht
  by_cases hl : LastSharer sh m
  · unfold requestQueueIn
    rw [requestEvent_last hl]
    rcases hq with h | h <;> cases h <;> rfl
  · rcases requestEvent_put ⟨ts, blk, sh, ow⟩ hm ho hl with hev | hev
    all_goals
      unfold requestQueueIn
      rw [hev]
      rcases hq with h | h <;> cases h <;> rfl

/-- While the directory is busy, the writeback of the last sharer waits. -/
theorem request_last_stall {q : State} {t : TBE n} (ht : t.tbeState = q)
    (hq : q = .MS_OD ∨ q = .MS_MA ∨ q = .MI_MA) (hl : LastSharer sh m) :
    requestQueueIn env ⟨q, blk, sh, ow⟩ (some t) m = .stall := by
  obtain ⟨off, ts, d, len⟩ := t
  cases ht
  unfold requestQueueIn
  rw [requestEvent_last hl]
  rcases hq with h | h | h <;> cases h <;> rfl

end Request

section Answers

variable {blk : DataBlock n} {sh ow : NetDest C D} {off : ℕ} {d : DataBlock n}

theorem response_data {m : ResponseMsg C D A n} (hm : m.type = .DATA) :
    responseQueueIn env ⟨.MS_OD, blk, sh, ow⟩ (some ⟨off, .MS_OD, d, 0⟩) m = .valid
      { entry := ⟨.MS_MA, m.dataBlk, sh, ow⟩
        tbe := some ⟨off, .MS_MA, d, 0⟩
        memQueueOut := [env.memory .MEMORY_WB m.sender m.dataBlk] } := by
  obtain ⟨addr, type, sender, destination, dataBlk, ackCount⟩ := m
  cases hm
  rfl

variable {m : MemoryMsg C D A n}

theorem memory_data_IS_MD (hm : m.type = .MEMORY_READ) :
    memQueueIn env ⟨.IS_MD, blk, sh, ow⟩ (some ⟨off, .IS_MD, d, 0⟩) m = .valid
      { entry := ⟨.S, blk.copyPartial d off 0, sh, ow⟩
        tbe := none
        responseNetworkOut := [env.data m.originalRequestorMachId m.dataBlk 0] } := by
  obtain ⟨addr, type, requestor, dataBlk⟩ := m
  cases hm
  rfl

theorem memory_data_IM_MD {o : MachineID C D} (hm : m.type = .MEMORY_READ) :
    memQueueIn env ⟨.IM_MD, blk, ∅, {o}⟩ (some ⟨off, .IM_MD, d, 0⟩) m = .valid
      { entry := ⟨.M, blk.copyPartial d off 0, ∅, {o}⟩
        tbe := none
        responseNetworkOut := [env.data m.originalRequestorMachId m.dataBlk 0] } := by
  obtain ⟨addr, type, requestor, dataBlk⟩ := m
  cases hm
  rfl

theorem memory_ack_MS_MA (hm : m.type = .MEMORY_WB) :
    memQueueIn env ⟨.MS_MA, blk, sh, ow⟩ (some ⟨off, .MS_MA, d, 0⟩) m = .valid
      { entry := ⟨.S, blk, sh, ∅⟩
        tbe := none } := by
  obtain ⟨addr, type, requestor, dataBlk⟩ := m
  cases hm
  rfl

theorem memory_ack_MI_MA (hm : m.type = .MEMORY_WB) :
    memQueueIn env ⟨.MI_MA, blk, ∅, ow⟩ (some ⟨off, .MI_MA, d, 0⟩) m = .valid
      { entry := ⟨.I, blk, ∅, ∅⟩
        tbe := none
        forwardNetworkOut := [env.forward .WB_ACK m.originalRequestorMachId
          {m.originalRequestorMachId}] } := by
  obtain ⟨addr, type, requestor, dataBlk⟩ := m
  cases hm
  rfl

end Answers

end Directory

end Msi
