/-
**The protocol runs dry.**

As long as no processor issues a new request, the system cannot move forever.  Every message stands
for a bounded amount of work: a request in a mandatory queue can lead to a replacement and a miss, a
miss to a request, this to forwarded requests, data and acknowledgements, and all of these are used
up.  The weights below make this precise.  They depend on the number of caches, since one store can
invalidate the block in all of them, and a line that may still be replaced has a weight of its own,
since a replacement does not shorten any queue.

Nothing is assumed about the state: also states that no run reaches run dry.

Main definitions:

* `Msi.L1Cache.State.work`, `Msi.RequestMsg.requestWork`, `Msi.RequestMsg.forwardWork`,
  `Msi.ResponseMsg.work` — the weight of a line and of the messages;
* `Msi.System.work` — the weight of all that is in the system;
* `Msi.Busy` — a step that is not the issue of a request.

Main results:

* `Msi.L1Cache.doTransition_work`, `Msi.Directory.doTransition_work` — a transition sends less than
  it takes;
* `Msi.Busy.work_lt` — **every step but the issue of a request lowers the work**;
* `Msi.length_add_work_le` — **a run without new requests uses up the work it finds**.
-/

import ArchLab.MsiActions
import ArchLab.MsiAcks
import ArchLab.MsiForget

set_option relaxedAutoImplicit false
set_option autoImplicit false

namespace Msi

open Potential

/-! ### Weights -/

/-- The weight of a line: a line that is not on its way out can still be replaced. -/
def L1Cache.State.work : L1Cache.State → ℕ
  | .I | .MI_A | .SI_A | .II_A => 0
  | .S | .M | .IS_D | .IM_AD | .IM_A | .SM_AD | .SM_A => 7

section Messages

variable {C D A : Type} {n : ℕ}

/-- The weight of a request in the queue of a directory, among `N` caches. -/
def RequestMsg.requestWork (N : ℕ) (m : RequestMsg C D A n) : ℕ :=
  match m.type with
  | .GETS | .GETM => 10 * N + 5
  | _ => 5

/-- The weight of a forwarded request in the queue of a cache. -/
def RequestMsg.forwardWork (m : RequestMsg C D A n) : ℕ :=
  match m.type with
  | .GETS => 9
  | .WB_ACK => 1
  | _ => 3

/-- The weight of a response in a queue. -/
def ResponseMsg.work (m : ResponseMsg C D A n) : ℕ :=
  match m.type with
  | .DATA => 5
  | _ => 1

theorem RequestMsg.forwardWork_le (m : RequestMsg C D A n) : m.forwardWork ≤ 9 := by
  unfold RequestMsg.forwardWork
  split <;> omega

end Messages

/-- The weight of a request in a mandatory queue. -/
def mandatoryWork (N : ℕ) : ℕ := 10 * N + 14

/-! ### Transitions of a cache -/

namespace L1Cache

variable {C D A : Type} [Fintype C] [Fintype D] [DecidableEq C] [DecidableEq D] {n : ℕ}
  {env : Env C D A n} {x x' : Ctx C D A n}

/-- The weight of what a transition has sent so far, on its way to the receivers. -/
def Ctx.sent (x : Ctx C D A n) : ℕ :=
  (∑ d : D, weigh (fun m => m.requestWork (Fintype.card C) + 1)
    (x.requestNetworkOut.filter fun m => .Directory d ∈ m.destination)) +
  ∑ dst : MachineID C D, weigh (fun m => m.work + 1)
    (x.responseNetworkOut.filter fun m => dst ∈ m.destination)

/-- The weight of what an action sends. -/
def Action.cost (N : ℕ) : Action → ℕ
  | .asIssueGetS | .amIssueGetM => 10 * N + 6
  | .bsIssuePUTS | .bmIssuePUTM => 6
  | .deSendDataFromCacheToDir | .deeSendDataFromTBEToDir => 6
  | .eSendDataFromCacheToRequestor | .eeSendDataFromTBEToRequestor | .fiSendInvAck => 2
  | _ => 0

/-- The weight of the message behind an event. -/
def Event.work (N : ℕ) : Event → ℕ
  | .Load | .Ifetch | .Store => mandatoryWork N
  | .Replacement => 0
  | .Fwd_GetS => 9
  | .WB_Ack => 1
  | .Fwd_GetM | .Inv => 3
  | _ => 1

/-- **Every transition of the table sends less than it takes.** -/
theorem work_of_transition {st next : State} {ev : Event} {actions : List Action} (N : ℕ)
    (h : transition st ev = some (actions, next)) (hz : .zStall ∉ actions) :
    weigh (Action.cost N) actions + next.work < ev.work N + st.work := by
  cases st <;> cases ev <;> cases h <;>
    first
    | exact absurd (by decide) hz
    | (simp only [weigh_cons, weigh_nil, Action.cost, State.work, Event.work, mandatoryWork]; omega)

theorem Ctx.sent_sendRequest (x : Ctx C D A n) (type : CoherenceRequestType) (d : DataBlock n) :
    (x.sendRequest (env.request type d)).sent =
      x.sent + ((env.request type d).requestWork (Fintype.card C) + 1) := by
  simp only [Ctx.sent, Ctx.sendRequest, weigh_filter_snoc, Finset.sum_add_distrib]
  simp only [Env.request, Finset.mem_singleton, MachineID.Directory.injEq, decide_eq_true_eq,
    Finset.sum_ite_eq', Finset.mem_univ, if_true]
  omega

theorem Ctx.sent_sendResponse (x : Ctx C D A n) (type : CoherenceResponseType)
    (dest : MachineID C D) (d : DataBlock n) (k : ℤ) :
    (x.sendResponse (env.response type dest d k)).sent =
      x.sent + ((env.response type dest d k).work + 1) := by
  simp only [Ctx.sent, Ctx.sendResponse, weigh_filter_snoc, Finset.sum_add_distrib]
  simp only [Env.response, Finset.mem_singleton, decide_eq_true_eq, Finset.sum_ite_eq',
    Finset.mem_univ, if_true]
  omega

theorem Action.exec_sent {act : Action} (hx : act.exec env x = .ok x') :
    x'.sent ≤ x.sent + act.cost (Fintype.card C) := by
  cases act with
  | asIssueGetS | amIssueGetM =>
      cases hx
      exact (Ctx.sent_sendRequest x _ _).le
  | bsIssuePUTS | bmIssuePUTM =>
      obtain ⟨_, -, hx⟩ := need_bind_eq_ok.1 hx
      cases hx
      exact (Ctx.sent_sendRequest x _ _).le
  | deSendDataFromCacheToDir | deeSendDataFromTBEToDir | fiSendInvAck =>
      obtain ⟨_, -, hx⟩ := need_bind_eq_ok.1 hx
      cases hx
      exact (Ctx.sent_sendResponse x _ _ _ _).le
  | eSendDataFromCacheToRequestor | eeSendDataFromTBEToRequestor =>
      obtain ⟨_, -, hx⟩ := need_bind_eq_ok.1 hx
      obtain ⟨_, -, hx⟩ := need_bind_eq_ok.1 hx
      cases hx
      exact (Ctx.sent_sendResponse x _ _ _ _).le
  | hDeallocateL1CacheBlock | zStall =>
      cases hx
      exact le_rfl
  | forwardEvictionToCpu =>
      cases hx
      split <;> exact le_rfl
  | pProfileMiss | rLoadHit | sStoreHit | wDeallocateTBE | mPopMandatoryQueue | nPopResponseQueue
  | oPopForwardedRequestQueue =>
      obtain ⟨_, -, hx⟩ := need_bind_eq_ok.1 hx
      cases hx
      exact le_rfl
  | rxLoadHit | sxStoreHit | uWriteDataToCache | qUpdateAckCount | xCopyDataFromCacheToTBE =>
      obtain ⟨_, -, hx⟩ := need_bind_eq_ok.1 hx
      obtain ⟨_, -, hx⟩ := need_bind_eq_ok.1 hx
      cases hx
      exact le_rfl
  | iAllocateL1CacheBlock | vAllocateTBE =>
      simp only [Action.exec] at hx
      repeat' split at hx
      all_goals cases hx
      all_goals exact le_rfl

omit [Fintype C] [Fintype D] [DecidableEq C] [DecidableEq D] in
/-- The event of a forwarded request weighs as much as the request. -/
theorem forwardEvent_work {m : RequestMsg C D A n} {ev : Event} (h : forwardEvent m = .ok ev)
    (N : ℕ) : ev.pop = some .oPopForwardedRequestQueue ∧ ev.work N = m.forwardWork := by
  unfold forwardEvent at h
  unfold RequestMsg.forwardWork
  cases hm : m.type <;> rw [hm] at h <;> cases h <;> exact ⟨rfl, rfl⟩

omit [Fintype C] [Fintype D] [DecidableEq C] [DecidableEq D] in
/-- The event of a response weighs as much as the response. -/
theorem responseEvent_work {tbe : Option (TBE n)} {m : ResponseMsg C D A n} {ev : Event}
    (h : responseEvent tbe m = .ok ev) (N : ℕ) :
    ev.pop = some .nPopResponseQueue ∧ ev.work N = m.work := by
  unfold responseEvent at h
  unfold ResponseMsg.work
  cases hm : m.type with
  | DATA_FROM_DIR =>
      rw [hm] at h
      simp only at h
      split at h
      · cases h
        exact ⟨rfl, rfl⟩
      · obtain ⟨t, -, h⟩ := need_bind_eq_ok.1 h
        cases h
        split <;> exact ⟨rfl, rfl⟩
  | ACK =>
      rw [hm] at h
      obtain ⟨t, -, h⟩ := need_bind_eq_ok.1 h
      cases h
      split <;> exact ⟨rfl, rfl⟩
  | DATA_FROM_OWNER =>
      rw [hm] at h
      cases h
      exact ⟨rfl, rfl⟩
  | _ =>
      rw [hm] at h
      cases h

/-- The event of a processor request. -/
theorem requestType_work {t : RubyRequestType} {ev : Event}
    (h : mandatoryRequestTypeToEvent t = .ok ev) (N : ℕ) :
    ev.pop = some .mPopMandatoryQueue ∧ ev.work N = mandatoryWork N := by
  cases t <;> cases h <;> exact ⟨rfl, rfl⟩

/-- **A cache transition sends less than it takes.** -/
theorem doTransition_work {ev : Event} (hx : doTransition env ev x = .valid x') :
    x'.sent + (getState x'.tbe x'.cacheEntry).work <
      x.sent + (ev.work (Fintype.card C) + (getState x.tbe x.cacheEntry).work) := by
  obtain ⟨actions, ht, hz, y, hy, hxy⟩ := doTransition_state hx
  have htable := work_of_transition (Fintype.card C) ht hz
  have hsent := foldlM_le (Ψ := Ctx.sent) (w := Action.cost (Fintype.card C))
    (fun _ _ _ h => Action.exec_sent h) hy
  have hsame : x'.sent = y.sent := by
    rw [hxy]
    rfl
  omega

end L1Cache

/-! ### Transitions of a directory -/

namespace Directory

variable {C D A : Type} [Fintype C] [Fintype D] [DecidableEq C] [DecidableEq D] {n : ℕ}
  {env : Env D A} {x x' : Ctx C D A n}

/-- The weight of what a transition has sent so far, on its way to the receivers. -/
def Ctx.sent (x : Ctx C D A n) : ℕ :=
  (∑ c : C, weigh (fun m => m.forwardWork + 1)
    (x.forwardNetworkOut.filter fun m => .L1Cache c ∈ m.destination)) +
  (∑ dst : MachineID C D, weigh (fun m => m.work + 1)
    (x.responseNetworkOut.filter fun m => dst ∈ m.destination)) +
  4 * x.memQueueOut.length

/-- The weight of what an action sends, at most. -/
def Action.cost (N : ℕ) : Action → ℕ
  | .fForwardRequest => 10 * N
  | .fwmSendFwdInvToSharersMinusRequestor => 4 * N
  | .aSendWriteBackAck | .laSendWriteBackAck => 2
  | .dSendData | .dsSendSharedData | .ds2SendSharedData => 2
  | .qfQueueMemoryFetchRequest | .qwtQueueMemoryWBRequestPartialTBE | .lqQueueMemoryWBRequest
  | .lq2QueueMemoryWBRequest => 4
  | _ => 0

/-- The action that dequeues the message behind an event. -/
def Event.pop : Event → Action
  | .Data => .prPopIncomingResponseQueue
  | .Memory_Data | .Memory_Ack => .qmPopMemQueue
  | _ => .iPopIncomingRequestQueue

/-- The weight of the message behind an event. -/
def Event.work (N : ℕ) : Event → ℕ
  | .GETS | .GETM => 10 * N + 5
  | .Memory_Data | .Memory_Ack => 3
  | _ => 5

/-- **Every transition of the table sends less than it takes.** -/
theorem work_of_transition {st next : State} {ev : Event} {actions : List Action} (N : ℕ)
    (h : transition st ev = some (actions, next)) (hz : .zStall ∉ actions) :
    weigh (Action.cost N) actions < ev.work N := by
  cases st <;> cases ev <;> cases h <;>
    first
    | exact absurd (by decide) hz
    | (simp only [weigh_cons, weigh_nil, Action.cost, Event.work]; omega)

theorem Ctx.sent_sendForward (x : Ctx C D A n) (m : RequestMsg C D A n) :
    (x.sendForward m).sent =
      x.sent + ∑ c : C, if .L1Cache c ∈ m.destination then m.forwardWork + 1 else 0 := by
  simp only [Ctx.sent, Ctx.sendForward, weigh_filter_snoc, Finset.sum_add_distrib,
    decide_eq_true_eq]
  omega

/-- A message to one cache. -/
theorem Ctx.sent_sendForward_singleton (x : Ctx C D A n) {m : RequestMsg C D A n}
    {dest : MachineID C D} (hm : m.destination = {dest}) :
    (x.sendForward m).sent ≤ x.sent + (m.forwardWork + 1) := by
  have hcopies := sum_ite_mem_le (f := (MachineID.L1Cache : C → MachineID C D))
    (fun _ _ h => MachineID.L1Cache.inj h) m.destination (m.forwardWork + 1)
  rw [hm, Finset.card_singleton] at hcopies
  rw [Ctx.sent_sendForward, hm]
  omega

/-- A message to any set of caches. -/
theorem Ctx.sent_sendForward_le (x : Ctx C D A n) {m : RequestMsg C D A n} {k : ℕ}
    (hk : m.forwardWork + 1 ≤ k) : (x.sendForward m).sent ≤ x.sent + k * Fintype.card C := by
  have hcopies := sum_ite_le_card (fun c : C => .L1Cache c ∈ m.destination) (m.forwardWork + 1)
  have hmul := Nat.mul_le_mul_left (Fintype.card C) hk
  rw [Ctx.sent_sendForward, Nat.mul_comm k]
  omega

theorem Ctx.sent_sendResponse (x : Ctx C D A n) (dest : MachineID C D) (d : DataBlock n) (k : ℤ) :
    (x.sendResponse (env.data dest d k)).sent = x.sent + 2 := by
  simp only [Ctx.sent, Ctx.sendResponse, weigh_filter_snoc, Finset.sum_add_distrib]
  simp only [Env.data, ResponseMsg.work, Finset.mem_singleton, decide_eq_true_eq,
    Finset.sum_ite_eq', Finset.mem_univ, if_true]
  omega

theorem Ctx.sent_sendMemory (x : Ctx C D A n)
    (m : MemoryMsg C D A n) : (x.sendMemory m).sent = x.sent + 4 := by
  simp only [Ctx.sent, Ctx.sendMemory, List.length_append, List.length_singleton]
  omega

open L1Cache (need need_bind_eq_ok)

theorem Action.exec_sent {act : Action} (hx : act.exec env x = .ok x') :
    x'.sent ≤ x.sent + act.cost (Fintype.card C) := by
  cases act with
  | cClearOwner | csClearSharers | zStall =>
      cases hx
      exact le_rfl
  | aSendWriteBackAck | laSendWriteBackAck =>
      obtain ⟨_, -, hx⟩ := need_bind_eq_ok.1 hx
      cases hx
      exact Ctx.sent_sendForward_singleton x rfl
  | fForwardRequest =>
      obtain ⟨_, -, hx⟩ := need_bind_eq_ok.1 hx
      cases hx
      exact Ctx.sent_sendForward_le x (Nat.succ_le_succ (RequestMsg.forwardWork_le _))
  | fwmSendFwdInvToSharersMinusRequestor =>
      obtain ⟨_, -, hx⟩ := need_bind_eq_ok.1 hx
      cases hx
      exact Ctx.sent_sendForward_le x le_rfl
  | dSendData | dsSendSharedData | ds2SendSharedData =>
      obtain ⟨_, -, hx⟩ := need_bind_eq_ok.1 hx
      cases hx
      exact (Ctx.sent_sendResponse x _ _ _).le
  | qfQueueMemoryFetchRequest | lqQueueMemoryWBRequest | lq2QueueMemoryWBRequest =>
      obtain ⟨_, -, hx⟩ := need_bind_eq_ok.1 hx
      cases hx
      exact (Ctx.sent_sendMemory x _).le
  | qwtQueueMemoryWBRequestPartialTBE =>
      obtain ⟨_, -, hx⟩ := need_bind_eq_ok.1 hx
      obtain ⟨_, -, hx⟩ := need_bind_eq_ok.1 hx
      cases hx
      exact (Ctx.sent_sendMemory x _).le
  | vvAllocateTBEFromRequestNet =>
      obtain ⟨_, -, hx⟩ := need_bind_eq_ok.1 hx
      split at hx
      · cases hx
      · cases hx
        exact le_rfl
  | kkRemoveRequestSharer | ars1AddRequestorToSharers | ars2AddRequestorToSharers
  | aosAddOwnertoSharers | eOwnerIsRequestor | iPopIncomingRequestQueue
  | prPopIncomingResponseQueue | plWriteDataToDirectory | pl2WriteDataToDirectory
  | wDeallocateTBE | qmPopMemQueue | wWriteDataToDirectoryFromTBE =>
      obtain ⟨_, -, hx⟩ := need_bind_eq_ok.1 hx
      cases hx
      exact le_rfl

omit [Fintype C] [Fintype D] in
/-- The parts of a transition that is carried out. -/
theorem doTransition_parts {ev : Event} (hx : doTransition env ev x = .valid x') :
    ∃ actions next y, transition (getState x.tbe x.entry) ev = some (actions, next) ∧
      .zStall ∉ actions ∧ actions.foldlM (Action.exec env) x = .ok y ∧
      x' = { y with tbe := x'.tbe, entry := x'.entry } := by
  unfold doTransition at hx
  split at hx
  · cases hx
  · next actions next htr =>
      split at hx
      · cases hx
      · next hz =>
          split at hx
          · cases hx
          · next z hb =>
              cases hx
              obtain ⟨y, hy, hset⟩ := Refine.bind_ok.1 hb
              unfold setState at hset
              split at hset
              · cases hset
              · cases hset
                exact ⟨actions, next, y, htr, hz, hy, rfl⟩

omit [Fintype C] [Fintype D] in
/-- The event of a request weighs as much as the request. -/
theorem requestEvent_work {e : Entry C D n} {m : RequestMsg C D A n} {ev : Event}
    (h : requestEvent e m = .ok ev) (N : ℕ) :
    ev.pop = .iPopIncomingRequestQueue ∧ ev.work N = m.requestWork N := by
  unfold requestEvent at h
  unfold RequestMsg.requestWork
  cases hm : m.type with
  | GETS | GETM =>
      rw [hm] at h
      cases h
      exact ⟨rfl, rfl⟩
  | PUTM | PUTS =>
      rw [hm] at h
      cases h
      split <;> exact ⟨rfl, rfl⟩
  | _ =>
      rw [hm] at h
      cases h

omit [Fintype C] [Fintype D] [DecidableEq C] [DecidableEq D] in
/-- The event of a response weighs as much as the response. -/
theorem responseEvent_work {m : ResponseMsg C D A n} {ev : Event} (h : responseEvent m = .ok ev)
    (N : ℕ) : ev.pop = .prPopIncomingResponseQueue ∧ ev.work N = m.work := by
  unfold responseEvent at h
  unfold ResponseMsg.work
  cases hm : m.type <;> rw [hm] at h <;> cases h
  exact ⟨rfl, rfl⟩

omit [Fintype C] [Fintype D] [DecidableEq C] [DecidableEq D] in
/-- The event of an answer of the memory controller. -/
theorem memEvent_work (m : MemoryMsg C D A n) (N : ℕ) :
    (memEvent m).pop = .qmPopMemQueue ∧ (memEvent m).work N = 3 := by
  unfold memEvent
  split <;> exact ⟨rfl, rfl⟩

/-- **A directory transition sends less than it takes.** -/
theorem doTransition_work {ev : Event} (hx : doTransition env ev x = .valid x') :
    x'.sent < x.sent + ev.work (Fintype.card C) := by
  obtain ⟨actions, next, y, ht, hz, hy, hxy⟩ := doTransition_parts hx
  have htable := work_of_transition (Fintype.card C) ht hz
  have hsent := foldlM_le (Ψ := Ctx.sent) (w := Action.cost (Fintype.card C))
    (fun _ _ _ h => Action.exec_sent h) hy
  have hsame : x'.sent = y.sent := by
    rw [hxy]
    rfl
  omega

/-- Every transition that does not stall has that action. -/
theorem pop_mem {st next : State} {ev : Event} {actions : List Action}
    (h : transition st ev = some (actions, next)) (hz : .zStall ∉ actions) :
    ev.pop ∈ actions := by
  cases ev <;> cases st <;> cases h <;> first | decide | exact absurd (by decide) hz

/-- The slot that a dequeue empties is empty. -/
def Ctx.Popped (x : Ctx C D A n) : Action → Prop
  | .iPopIncomingRequestQueue => x.requestQueueIn = none
  | .prPopIncomingResponseQueue => x.responseQueueIn = none
  | .qmPopMemQueue => x.memQueueIn = none
  | _ => True

omit [Fintype C] [Fintype D] in
/-- What an action leaves in the slots: what was there, unless it is the dequeue of the slot. -/
theorem Action.exec_slots {act : Action} (hx : act.exec env x = .ok x') :
    (x'.requestQueueIn = if act = .iPopIncomingRequestQueue then none else x.requestQueueIn) ∧
      (x'.responseQueueIn =
        if act = .prPopIncomingResponseQueue then none else x.responseQueueIn) ∧
      (x'.memQueueIn = if act = .qmPopMemQueue then none else x.memQueueIn) := by
  cases act with
  | cClearOwner | csClearSharers | zStall =>
      cases hx
      exact ⟨rfl, rfl, rfl⟩
  | qwtQueueMemoryWBRequestPartialTBE =>
      obtain ⟨_, -, hx⟩ := need_bind_eq_ok.1 hx
      obtain ⟨_, -, hx⟩ := need_bind_eq_ok.1 hx
      cases hx
      exact ⟨rfl, rfl, rfl⟩
  | vvAllocateTBEFromRequestNet =>
      obtain ⟨_, -, hx⟩ := need_bind_eq_ok.1 hx
      split at hx
      · cases hx
      · cases hx
        exact ⟨rfl, rfl, rfl⟩
  | kkRemoveRequestSharer | ars1AddRequestorToSharers | ars2AddRequestorToSharers
  | aosAddOwnertoSharers | eOwnerIsRequestor | plWriteDataToDirectory | pl2WriteDataToDirectory
  | wDeallocateTBE | wWriteDataToDirectoryFromTBE | aSendWriteBackAck | laSendWriteBackAck
  | fForwardRequest | fwmSendFwdInvToSharersMinusRequestor | dSendData | dsSendSharedData
  | ds2SendSharedData | qfQueueMemoryFetchRequest | lqQueueMemoryWBRequest
  | lq2QueueMemoryWBRequest | iPopIncomingRequestQueue | prPopIncomingResponseQueue
  | qmPopMemQueue =>
      obtain ⟨_, -, hx⟩ := need_bind_eq_ok.1 hx
      cases hx
      exact ⟨rfl, rfl, rfl⟩

omit [Fintype C] [Fintype D] in
theorem Action.exec_popped {act : Action} (hx : act.exec env x = .ok x') : x'.Popped act := by
  obtain ⟨hq, hr, hm⟩ := Action.exec_slots hx
  cases act with
  | iPopIncomingRequestQueue => exact hq
  | prPopIncomingResponseQueue => exact hr
  | qmPopMemQueue => exact hm
  | _ => trivial

omit [Fintype C] [Fintype D] in
theorem Ctx.Popped.exec {act act' : Action} (h : x.Popped act) (hx : act'.exec env x = .ok x') :
    x'.Popped act := by
  obtain ⟨hq, hr, hm⟩ := Action.exec_slots hx
  cases act with
  | iPopIncomingRequestQueue =>
      rw [h, ite_self] at hq
      exact hq
  | prPopIncomingResponseQueue =>
      rw [h, ite_self] at hr
      exact hr
  | qmPopMemQueue =>
      rw [h, ite_self] at hm
      exact hm
  | _ => trivial

omit [Fintype C] [Fintype D] in
/-- **The message that triggered a transition is dequeued.** -/
theorem doTransition_pop {ev : Event} (hx : doTransition env ev x = .valid x') :
    x'.Popped ev.pop := by
  obtain ⟨actions, next, y, ht, hz, hy, hxy⟩ := doTransition_parts hx
  have hall : ∀ act ∈ actions, y.Popped act :=
    Refine.foldlM_each (I := fun _ => True) (P := fun act (x : Ctx C D A n) => x.Popped act)
      (fun act _ a a' _ ha => ⟨trivial, Action.exec_popped ha⟩)
      (fun act _ act' _ a a' _ h ha => h.exec ha) trivial hy
  have hact := hall ev.pop (pop_mem ht hz)
  rw [hxy]
  cases ev <;> exact hact

end Directory

/-! ### The work in the system -/

section System

variable {C D A : Type} [Fintype C] [Fintype D] [Fintype A] [DecidableEq C] [DecidableEq D]
  [DecidableEq A] {n : ℕ} {cfg : Config D A}

/-- The work in the queues of a cache. -/
def Cache.queueWork (k : Cache C D A n cfg) : ℕ :=
  mandatoryWork (Fintype.card C) * k.mandatoryQueue.length +
    weigh RequestMsg.forwardWork k.forwardToCache + weigh ResponseMsg.work k.responseToCache

/-- The work in a cache: its queues, and the lines that may be replaced. -/
def Cache.work (k : Cache C D A n cfg) : ℕ :=
  k.queueWork + ∑ a, (L1Cache.getState (k.tbes a) (k.cacheMemory.lookup a)).work

/-- The work in a directory and its memory controller. -/
def Dir.work (k : Dir C D A n) : ℕ :=
  weigh (RequestMsg.requestWork (Fintype.card C)) k.requestToDir +
    weigh ResponseMsg.work k.responseToDir + 4 * k.memInput.length + 3 * k.memResponse.length

namespace System

/-- The work in the request network.  A message that is still in a network is worth one more than in
the queue of its receiver. -/
def requestNetWork (s : System C D A n cfg) : ℕ :=
  ∑ c, ∑ d, weigh (fun m => m.requestWork (Fintype.card C) + 1) (s.requestNet c d)

/-- The work in the forward network. -/
def forwardNetWork (s : System C D A n cfg) : ℕ :=
  ∑ d, ∑ c, weigh (fun m => m.forwardWork + 1) (s.forwardNet d c)

/-- The work in the response network. -/
def responseNetWork (s : System C D A n cfg) : ℕ :=
  ∑ src, ∑ dst, weigh (fun m => m.work + 1) (s.responseNet src dst)

/-- **The work in the system.** -/
def work (s : System C D A n cfg) : ℕ :=
  (∑ c, (s.l1 c).work) + (∑ d, (s.dir d).work) + s.requestNetWork + s.forwardNetWork +
    s.responseNetWork

variable {s s' : System C D A n cfg}

omit [Fintype D] [DecidableEq C] [DecidableEq D] [DecidableEq A] in
theorem work_l1 (s : System C D A n cfg) (c : C) :
    (s.l1 c).work = (s.l1 c).queueWork + ∑ a, (s.state c a).work := rfl

omit [Fintype C] [Fintype D] [Fintype A] in
/-- The state of a line after a transition. -/
theorem state_l1Finish {c : C} {a : A} {v : DataBlock n} {x : L1Cache.Ctx C D A n}
    {f : Cache C D A n cfg → Cache C D A n cfg}
    (hf : ∀ k, (f k).tbes = k.tbes ∧ (f k).cacheMemory = k.cacheMemory)
    (hs : L1Cache.Sends (s.l1Env c a v) (s.entry c a) x) :
    (s.l1Finish c a x f).state c =
      Function.update (s.state c) a (L1Cache.getState x.tbe x.cacheEntry) := by
  funext a'
  simp only [System.state, System.entry, System.l1Finish, Function.update_self, hf]
  by_cases ha : a' = a
  · subst ha
    rw [Function.update_self, Function.update_self, CacheMemory.lookup_assign_self _ _ _ hs.room]
  · rw [Function.update_of_ne ha, Function.update_of_ne ha,
      CacheMemory.lookup_assign_of_ne _ _ ha]
    rfl

omit [Fintype C] [Fintype D] in
/-- The weight of the lines of a cache after a transition. -/
theorem sum_state_l1Finish {c : C} {a : A} {v : DataBlock n} {x : L1Cache.Ctx C D A n}
    {f : Cache C D A n cfg → Cache C D A n cfg}
    (hf : ∀ k, (f k).tbes = k.tbes ∧ (f k).cacheMemory = k.cacheMemory)
    (hs : L1Cache.Sends (s.l1Env c a v) (s.entry c a) x) :
    (∑ a', ((s.l1Finish c a x f).state c a').work) + (s.state c a).work =
      (∑ a', (s.state c a').work) + (L1Cache.getState x.tbe x.cacheEntry).work := by
  have hoff := sum_off (fun a' => (s.state c a').work)
    (fun a' => ((s.l1Finish c a x f).state c a').work) a fun a' ha => by
      rw [state_l1Finish hf hs, Function.update_of_ne ha]
  rw [state_l1Finish hf hs] at hoff ⊢
  rwa [Function.update_self] at hoff

/-- **The work after a transition of a cache.** -/
theorem work_l1Finish {c : C} {a : A} {v : DataBlock n} {x : L1Cache.Ctx C D A n}
    {f : Cache C D A n cfg → Cache C D A n cfg}
    (hf : ∀ k, (f k).tbes = k.tbes ∧ (f k).cacheMemory = k.cacheMemory)
    (hs : L1Cache.Sends (s.l1Env c a v) (s.entry c a) x) :
    (s.l1Finish c a x f).work + (s.l1 c).queueWork + (s.state c a).work =
      s.work + ((s.l1Finish c a x f).l1 c).queueWork +
        (L1Cache.getState x.tbe x.cacheEntry).work + x.sent := by
  have hl1 := sum_off (fun c' => (s.l1 c').work)
    (fun c' => ((s.l1Finish c a x f).l1 c').work) c fun c' hc => by
      simp [System.l1Finish, hc]
  have hlines := sum_state_l1Finish hf hs
  have hreq := sum_off
    (fun c' => ∑ d, weigh (fun m => m.requestWork (Fintype.card C) + 1) (s.requestNet c' d))
    (fun c' => ∑ d, weigh (fun m => m.requestWork (Fintype.card C) + 1)
      ((s.l1Finish c a x f).requestNet c' d)) c fun c' hc => by
      simp [System.l1Finish, hc]
  have hresp := sum_off
    (fun src => ∑ dst, weigh (fun m => m.work + 1) (s.responseNet src dst))
    (fun src => ∑ dst, weigh (fun m => m.work + 1)
      ((s.l1Finish c a x f).responseNet src dst)) (.L1Cache c) fun src hsrc => by
      simp [System.l1Finish, hsrc]
  have hsent : (∑ d, weigh (fun m => m.requestWork (Fintype.card C) + 1)
        ((s.l1Finish c a x f).requestNet c d)) +
      (∑ dst, weigh (fun m => m.work + 1) ((s.l1Finish c a x f).responseNet (.L1Cache c) dst)) =
      (∑ d, weigh (fun m => m.requestWork (Fintype.card C) + 1) (s.requestNet c d)) +
      (∑ dst, weigh (fun m => m.work + 1) (s.responseNet (.L1Cache c) dst)) + x.sent := by
    simp only [System.l1Finish, Function.update_self, weigh_append, Finset.sum_add_distrib,
      L1Cache.Ctx.sent]
    omega
  have hdir : (s.l1Finish c a x f).dir = s.dir := rfl
  have hfwd : (s.l1Finish c a x f).forwardNetWork = s.forwardNetWork := rfl
  simp only [System.work, requestNetWork, responseNetWork, hdir, hfwd, work_l1] at *
  omega

/-- **The work after a transition of a directory.** -/
theorem work_dirFinish {d : D} {a : A} {x : Directory.Ctx C D A n}
    {f : Dir C D A n → Dir C D A n} :
    (s.dirFinish d a x f).work + (s.dir d).work + 4 * x.memQueueOut.length =
      s.work + ((s.dirFinish d a x f).dir d).work + x.sent := by
  have hdir := sum_off (fun d' => (s.dir d').work)
    (fun d' => ((s.dirFinish d a x f).dir d').work) d fun d' hd => by
      simp [System.dirFinish, hd]
  have hfwd := sum_off
    (fun d' => ∑ c, weigh (fun m => m.forwardWork + 1) (s.forwardNet d' c))
    (fun d' => ∑ c, weigh (fun m => m.forwardWork + 1)
      ((s.dirFinish d a x f).forwardNet d' c)) d fun d' hd => by
      simp [System.dirFinish, hd]
  have hresp := sum_off
    (fun src => ∑ dst, weigh (fun m => m.work + 1) (s.responseNet src dst))
    (fun src => ∑ dst, weigh (fun m => m.work + 1)
      ((s.dirFinish d a x f).responseNet src dst)) (.Directory d) fun src hsrc => by
      simp [System.dirFinish, hsrc]
  have hsent : (∑ c, weigh (fun m => m.forwardWork + 1) ((s.dirFinish d a x f).forwardNet d c)) +
      (∑ dst, weigh (fun m => m.work + 1) ((s.dirFinish d a x f).responseNet (.Directory d) dst)) +
        4 * x.memQueueOut.length =
      (∑ c, weigh (fun m => m.forwardWork + 1) (s.forwardNet d c)) +
      (∑ dst, weigh (fun m => m.work + 1) (s.responseNet (.Directory d) dst)) + x.sent := by
    simp only [System.dirFinish, Function.update_self, weigh_append, Finset.sum_add_distrib,
      Directory.Ctx.sent]
    omega
  have hl1 : (s.dirFinish d a x f).l1 = s.l1 := rfl
  have hreq : (s.dirFinish d a x f).requestNetWork = s.requestNetWork := rfl
  simp only [System.work, forwardNetWork, responseNetWork, hl1, hreq] at *
  omega

end System

/-! ### Steps -/

/-- A step that is not the issue of a request. -/
def Busy (s : System C D A n cfg) (l : Label C D A n cfg) (s' : System C D A n cfg) : Prop :=
  Step s l s' ∧ ∀ c r, l.1 ≠ .issue c r

variable {s s' : System C D A n cfg}

/-- An in port of a cache that takes more from its queue than the transition sends. -/
theorem work_l1Finish_lt {c : C} {a : A} {v : DataBlock n} {x x' : L1Cache.Ctx C D A n}
    {ev : L1Cache.Event} {f : Cache C D A n cfg → Cache C D A n cfg}
    (hf : ∀ k, (f k).tbes = k.tbes ∧ (f k).cacheMemory = k.cacheMemory)
    (hx : L1Cache.doTransition (s.l1Env c a v) ev x = .valid x')
    (he : x.cacheEntry = s.entry c a) (ht : x.tbe = (s.l1 c).tbes a)
    (h₁ : x.requestNetworkOut = []) (h₂ : x.responseNetworkOut = [])
    (hq : ((s.l1Finish c a x' f).l1 c).queueWork + ev.work (Fintype.card C) ≤
      (s.l1 c).queueWork) : (s.l1Finish c a x' f).work < s.work := by
  have hsends := L1Cache.doTransition_sends ⟨by simp [h₁], by simp [h₂], by simp_all⟩ hx
  have hwork := L1Cache.doTransition_work hx
  have hsent : x.sent = 0 := by simp [L1Cache.Ctx.sent, h₁, h₂]
  have hstate : L1Cache.getState x.tbe x.cacheEntry = s.state c a := by rw [he, ht]; rfl
  rw [he] at hsends
  have := System.work_l1Finish hf hsends
  rw [hsent, hstate] at hwork
  omega

theorem work_forward {c : C} {m : RequestMsg C D A n} {q : List (RequestMsg C D A n)}
    {x : L1Cache.Ctx C D A n} (hq : (s.l1 c).forwardToCache = m :: q)
    (hx : L1Cache.forwardRequestNetworkIn (s.l1Env c m.address default) (s.entry c m.address)
      ((s.l1 c).tbes m.address) m = .valid x) :
    (s.l1Finish c m.address x fun k =>
      { k with forwardToCache := System.popped x.forwardRequestNetworkIn k.forwardToCache }).work <
      s.work := by
  unfold L1Cache.forwardRequestNetworkIn at hx
  cases hev : L1Cache.forwardEvent m with
  | error f =>
      rw [hev] at hx
      cases hx
  | ok ev =>
      rw [hev] at hx
      obtain ⟨hpop, hwork⟩ := L1Cache.forwardEvent_work hev (Fintype.card C)
      have hnone : x.forwardRequestNetworkIn = none := L1Cache.doTransition_pop hpop hx
      refine work_l1Finish_lt (fun k => ⟨rfl, rfl⟩) hx rfl rfl rfl rfl ?_
      simp only [Cache.queueWork, System.l1Finish, Function.update_self, System.popped, hnone, hq,
        Option.isNone_none, if_true, List.tail_cons, weigh_cons, hwork]
      omega

theorem work_response {c : C} {v : DataBlock n} {m : ResponseMsg C D A n}
    {q : List (ResponseMsg C D A n)} {x : L1Cache.Ctx C D A n}
    (hq : (s.l1 c).responseToCache = m :: q)
    (hx : L1Cache.responseNetworkIn (s.l1Env c m.address v) (s.entry c m.address)
      ((s.l1 c).tbes m.address) m = .valid x) :
    (s.l1Finish c m.address x fun k =>
      { k with responseToCache := System.popped x.responseNetworkIn k.responseToCache }).work <
      s.work := by
  unfold L1Cache.responseNetworkIn at hx
  cases hev : L1Cache.responseEvent ((s.l1 c).tbes m.address) m with
  | error f =>
      rw [hev] at hx
      cases hx
  | ok ev =>
      rw [hev] at hx
      obtain ⟨hpop, hwork⟩ := L1Cache.responseEvent_work hev (Fintype.card C)
      have hnone : x.responseNetworkIn = none := L1Cache.doTransition_pop hpop hx
      refine work_l1Finish_lt (fun k => ⟨rfl, rfl⟩) hx rfl rfl rfl rfl ?_
      simp only [Cache.queueWork, System.l1Finish, Function.update_self, System.popped, hnone, hq,
        Option.isNone_none, if_true, List.tail_cons, weigh_cons, hwork]
      omega

/-- A replacement does not shorten the queue, but lowers the weight of a line. -/
theorem work_mandatory {c : C} {victim : Fin cfg.assoc} {v : DataBlock n}
    {rep : Option (Report C D A n)} (h : Step s (.mandatory c victim v, rep) s') :
    s'.work < s.work := by
  obtain ⟨r, q, a, x, hq, -, rfl, hx | ⟨-, hx⟩⟩ := h.mandatory_cases
  · refine work_l1Finish_lt (fun k => ⟨rfl, rfl⟩) hx rfl rfl rfl rfl ?_
    have hlen : (System.popped x.mandatoryQueueIn (r :: q)).length ≤ (r :: q).length := by
      unfold System.popped
      split <;> simp
    have := Nat.mul_le_mul_left (mandatoryWork (Fintype.card C)) hlen
    simp only [Cache.queueWork, System.l1Finish, Function.update_self, hq, L1Cache.Event.work]
    omega
  · unfold L1Cache.mandatoryQueueIn at hx
    cases hev : L1Cache.mandatoryRequestTypeToEvent r.type with
    | error f =>
        rw [hev] at hx
        cases hx
    | ok ev =>
        rw [hev] at hx
        obtain ⟨hpop, hwork⟩ := L1Cache.requestType_work hev (Fintype.card C)
        have hnone : x.mandatoryQueueIn = none := L1Cache.doTransition_pop hpop hx
        refine work_l1Finish_lt (fun k => ⟨rfl, rfl⟩) hx rfl rfl rfl rfl ?_
        simp only [Cache.queueWork, System.l1Finish, Function.update_self, System.popped, hnone, hq,
          Option.isNone_none, if_true, List.tail_cons, List.length_cons, hwork, Nat.mul_add_one]
        omega

/-- An in port of a directory that takes more from its queue than the transition sends. -/
theorem work_dirFinish_lt {d : D} {a : A} {x x' : Directory.Ctx C D A n} {ev : Directory.Event}
    {f : Dir C D A n → Dir C D A n}
    (hx : Directory.doTransition (s.dirEnv d a) ev x = .valid x')
    (h₁ : x.forwardNetworkOut = []) (h₂ : x.responseNetworkOut = []) (h₃ : x.memQueueOut = [])
    (hq : ((s.dirFinish d a x' f).dir d).work + ev.work (Fintype.card C) ≤
      (s.dir d).work + 4 * x'.memQueueOut.length) : (s.dirFinish d a x' f).work < s.work := by
  have hwork := Directory.doTransition_work hx
  have hsent : x.sent = 0 := by simp [Directory.Ctx.sent, h₁, h₂, h₃]
  have := System.work_dirFinish (s := s) (d := d) (a := a) (x := x') (f := f)
  rw [hsent] at hwork
  omega

theorem work_request {d : D} {m : RequestMsg C D A n} {q : List (RequestMsg C D A n)}
    {x : Directory.Ctx C D A n} (hq : (s.dir d).requestToDir = m :: q)
    (hx : Directory.requestQueueIn (s.dirEnv d m.address) ((s.dir d).directory m.address)
      ((s.dir d).tbes m.address) m = .valid x) :
    (s.dirFinish d m.address x fun k =>
      { k with requestToDir := System.popped x.requestQueueIn k.requestToDir }).work < s.work := by
  unfold Directory.requestQueueIn at hx
  cases hev : Directory.requestEvent ((s.dir d).directory m.address) m with
  | error f =>
      rw [hev] at hx
      cases hx
  | ok ev =>
      rw [hev] at hx
      obtain ⟨hpop, hwork⟩ := Directory.requestEvent_work hev (Fintype.card C)
      have hnone : x.requestQueueIn = none := by
        have := Directory.doTransition_pop hx
        rwa [hpop] at this
      refine work_dirFinish_lt hx rfl rfl rfl ?_
      simp only [Dir.work, System.dirFinish, Function.update_self, System.popped, hnone, hq,
        Option.isNone_none, if_true, List.tail_cons, List.length_append, weigh_cons, hwork]
      omega

theorem work_dirResponse {d : D} {m : ResponseMsg C D A n} {q : List (ResponseMsg C D A n)}
    {x : Directory.Ctx C D A n} (hq : (s.dir d).responseToDir = m :: q)
    (hx : Directory.responseQueueIn (s.dirEnv d m.address) ((s.dir d).directory m.address)
      ((s.dir d).tbes m.address) m = .valid x) :
    (s.dirFinish d m.address x fun k =>
      { k with responseToDir := System.popped x.responseQueueIn k.responseToDir }).work <
      s.work := by
  unfold Directory.responseQueueIn at hx
  cases hev : Directory.responseEvent m with
  | error f =>
      rw [hev] at hx
      cases hx
  | ok ev =>
      rw [hev] at hx
      obtain ⟨hpop, hwork⟩ := Directory.responseEvent_work hev (Fintype.card C)
      have hnone : x.responseQueueIn = none := by
        have := Directory.doTransition_pop hx
        rwa [hpop] at this
      refine work_dirFinish_lt hx rfl rfl rfl ?_
      simp only [Dir.work, System.dirFinish, Function.update_self, System.popped, hnone, hq,
        Option.isNone_none, if_true, List.tail_cons, List.length_append, weigh_cons, hwork]
      omega

theorem work_memory {d : D} {m : MemoryMsg C D A n} {q : List (MemoryMsg C D A n)}
    {x : Directory.Ctx C D A n} (hq : (s.dir d).memResponse = m :: q)
    (hx : Directory.memQueueIn (s.dirEnv d m.address) ((s.dir d).directory m.address)
      ((s.dir d).tbes m.address) m = .valid x) :
    (s.dirFinish d m.address x fun k =>
      { k with memResponse := System.popped x.memQueueIn k.memResponse }).work < s.work := by
  obtain ⟨hpop, hwork⟩ := Directory.memEvent_work m (Fintype.card C)
  have hnone : x.memQueueIn = none := by
    have := Directory.doTransition_pop hx
    rwa [hpop] at this
  refine work_dirFinish_lt hx rfl rfl rfl ?_
  simp only [Dir.work, System.dirFinish, Function.update_self, System.popped, hnone, hq,
    Option.isNone_none, if_true, List.tail_cons, List.length_append, List.length_cons, hwork]
  omega

omit [Fintype D] [DecidableEq D] [DecidableEq A] in
/-- A cache is replaced by one whose queues have more work. -/
theorem sum_work_update {c : C} {k : Cache C D A n cfg} {w : ℕ} (hk : k.work = (s.l1 c).work + w) :
    ∑ c', (Function.update s.l1 c k c').work = (∑ c', (s.l1 c').work) + w := by
  have hoff := sum_off (fun c' => (s.l1 c').work) (fun c' => (Function.update s.l1 c k c').work) c
    fun c' hc => by rw [Function.update_of_ne hc]
  simp only [Function.update_self, hk] at hoff
  omega

omit [Fintype A] [DecidableEq C] [DecidableEq A] in
/-- A directory is replaced by one whose queues have more work. -/
theorem sum_dirWork_update {d : D} {k : Dir C D A n} {w : ℕ} (hk : k.work = (s.dir d).work + w) :
    ∑ d', (Function.update s.dir d k d').work = (∑ d', (s.dir d').work) + w := by
  have hoff := sum_off (fun d' => (s.dir d').work) (fun d' => (Function.update s.dir d k d').work) d
    fun d' hd => by rw [Function.update_of_ne hd]
  simp only [Function.update_self, hk] at hoff
  omega

/-- **Every step but the issue of a request lowers the work.** -/
theorem Busy.work_lt {l : Label C D A n cfg} (h : Busy s l s') : s'.work < s.work := by
  obtain ⟨mv, rep⟩ := l
  obtain ⟨hs, hno⟩ := h
  by_cases hmand : ∃ c victim v, mv = .mandatory c victim v
  · obtain ⟨c, victim, v, rfl⟩ := hmand
    exact work_mandatory hs
  cases hs.carried with
  | issue c r => exact absurd rfl (hno c r)
  | replacement c victim v => exact absurd ⟨c, victim, v, rfl⟩ hmand
  | mandatory c victim v => exact absurd ⟨c, victim, v, rfl⟩ hmand
  | forward c m q x hq hx => exact work_forward hq hx
  | response c v m q x hq hx => exact work_response hq hx
  | request d m q x hq hx => exact work_request hq hx
  | dirResponse d m q x hq hx => exact work_dirResponse hq hx
  | memory d m q x hq hx => exact work_memory hq hx
  | memAnswer d i m hm =>
      have hlen : ((s.dir d).memInput.eraseIdx i).length + 1 = (s.dir d).memInput.length := by
        have hi : i < (s.dir d).memInput.length := (List.getElem?_eq_some_iff.1 hm).1
        rw [List.length_eraseIdx_of_lt hi]
        omega
      have hoff := sum_off (fun d' => (s.dir d').work) (fun d' => (Function.update s.dir d
        { s.dir d with
          memInput := (s.dir d).memInput.eraseIdx i
          memResponse := (s.dir d).memResponse ++ [m] } d').work) d fun d' hd => by
          rw [Function.update_of_ne hd]
      simp only [Function.update_self, Dir.work, List.length_append, List.length_singleton] at hoff
      simp only [System.work, Dir.work, System.requestNetWork, System.forwardNetWork,
        System.responseNetWork]
      omega
  | deliverRequest c d m q hq =>
      have hnet := sum_handover (fun m => m.requestWork (Fintype.card C) + 1) s.requestNet hq
      simp only [System.work, System.requestNetWork, System.forwardNetWork, System.responseNetWork]
      rw [sum_dirWork_update (w := m.requestWork (Fintype.card C))]
      · omega
      · simp only [Dir.work, weigh_append, weigh_cons, weigh_nil]
        omega
  | deliverForward d c m q hq =>
      have hnet := sum_handover (fun m => m.forwardWork + 1) s.forwardNet hq
      simp only [System.work, System.requestNetWork, System.forwardNetWork, System.responseNetWork]
      rw [sum_work_update (w := m.forwardWork)]
      · omega
      · simp only [Cache.work, Cache.queueWork, weigh_append, weigh_cons, weigh_nil]
        omega
  | deliverToCache src c m q hq =>
      have hnet := sum_handover (fun m => m.work + 1) s.responseNet hq
      simp only [System.work, System.requestNetWork, System.forwardNetWork, System.responseNetWork]
      rw [sum_work_update (w := m.work)]
      · omega
      · simp only [Cache.work, Cache.queueWork, weigh_append, weigh_cons, weigh_nil]
        omega
  | deliverToDir src d m q hq =>
      have hnet := sum_handover (fun m => m.work + 1) s.responseNet hq
      simp only [System.work, System.requestNetWork, System.forwardNetWork, System.responseNetWork]
      rw [sum_dirWork_update (w := m.work)]
      · omega
      · simp only [Dir.work, weigh_append, weigh_cons, weigh_nil]
        omega

/-- **A run without new requests uses up the work it finds**, one unit for each step at least. -/
theorem length_add_work_le {ls : List (Label C D A n cfg)} (h : Lts.Run (· = s) Busy ls s') :
    ls.length + s'.work ≤ s.work :=
  h.length_add_le fun _ _ _ hs => hs.work_lt

end System

/-- The small system takes a store up and carries it out. -/
theorem length_add_work_le_demo : ∃ ls s',
    Lts.Run (· = (after [(.issue 1 ⟨0, .ST⟩ : DemoMove)]).2) Busy ls s' ∧
      ls.length + s'.work ≤ (after [(.issue 1 ⟨0, .ST⟩ : DemoMove)]).2.work := by
  have hplay : ((after [(.issue 1 ⟨0, .ST⟩ : DemoMove)]).2.play
      ((ask 1 0 .ST).tail ++ fetch 1 0)).isSome = true := by decide +kernel
  obtain ⟨⟨ls, s'⟩, hp⟩ := Option.isSome_iff_exists.1 hplay
  have hrun : Lts.Run (· = (after [(.issue 1 ⟨0, .ST⟩ : DemoMove)]).2) Busy ([] ++ ls) s' :=
    System.play_run (P := fun mv => ∀ c r, mv ≠ .issue c r) (by simp [ask, fetch]) (.start rfl) hp
  exact ⟨ls, s', hrun, length_add_work_le hrun⟩

end Msi
