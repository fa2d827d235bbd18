/-
**What a controller transition sends.**

Every message a transition sends is about the block of the transition and carries the name of the
controller that sends it; and a cache adds a line only where the cache memory has room for it.  This
is a property of each single action, so that it holds for every row of the transition tables.

Main results:

* `Msi.L1Cache.trigger_sends` — for the cache controller;
* `Msi.Directory.trigger_sends` — for the directory controller.
-/

import ArchLab.MsiDirectory
import ArchLab.Refine

set_option relaxedAutoImplicit false
set_option autoImplicit false

namespace Msi

namespace L1Cache

theorem need_bind_eq_ok {α β : Type} {o : Option α} {f : α → Except Fault β} {b : β} :
    (need o >>= f) = .ok b ↔ ∃ a, o = some a ∧ f a = .ok b := by
  cases o with
  | none =>
      refine ⟨fun h => ?_, fun ⟨a, h, _⟩ => ?_⟩
      · cases h
      · cases h
  | some a =>
      refine ⟨fun h => ⟨a, rfl, h⟩, fun ⟨a', h, h'⟩ => ?_⟩
      cases h
      exact h'

variable {C D A : Type} {n : ℕ} {env : Env C D A n}

/-- What a transition that started from the line `e` has sent so far is about the block of the
transition and in the name of the cache, and a line is only added where there is room. -/
structure Sends (env : Env C D A n) (e : Option (Entry n)) (x : Ctx C D A n) : Prop where
  request : ∀ m ∈ x.requestNetworkOut,
    m.address = env.address ∧ m.requestor = .L1Cache env.machineID
  response : ∀ m ∈ x.responseNetworkOut,
    m.address = env.address ∧ m.sender = .L1Cache env.machineID
  room : e = none → x.cacheEntry.isSome → env.cacheAvail = true

theorem Sends.sendRequest {e : Option (Entry n)} {x : Ctx C D A n} (h : Sends env e x)
    (type : CoherenceRequestType) (d : DataBlock n) :
    Sends env e (x.sendRequest (env.request type d)) where
  request m hm := by
    rcases List.mem_append.1 hm with hm | hm
    · exact h.request m hm
    · rw [List.mem_singleton.1 hm]
      exact ⟨rfl, rfl⟩
  response := h.response
  room := h.room

theorem Sends.sendResponse {e : Option (Entry n)} {x : Ctx C D A n} (h : Sends env e x)
    (type : CoherenceResponseType) (dest : MachineID C D) (d : DataBlock n) (k : ℤ) :
    Sends env e (x.sendResponse (env.response type dest d k)) where
  request := h.request
  response m hm := by
    rcases List.mem_append.1 hm with hm | hm
    · exact h.response m hm
    · rw [List.mem_singleton.1 hm]
      exact ⟨rfl, rfl⟩
  room := h.room

theorem Action.exec_sends {e : Option (Entry n)} (x : Ctx C D A n) (act : Action) (x' : Ctx C D A n)
    (h : Sends env e x) (hx : act.exec env x = .ok x') : Sends env e x' := by
  cases act with
  | asIssueGetS | amIssueGetM =>
      cases hx
      exact h.sendRequest _ _
  | bsIssuePUTS | bmIssuePUTM =>
      obtain ⟨_, -, hx⟩ := need_bind_eq_ok.1 hx
      cases hx
      exact h.sendRequest _ _
  | deSendDataFromCacheToDir | deeSendDataFromTBEToDir | fiSendInvAck =>
      obtain ⟨_, -, hx⟩ := need_bind_eq_ok.1 hx
      cases hx
      exact h.sendResponse _ _ _ _
  | eSendDataFromCacheToRequestor | eeSendDataFromTBEToRequestor =>
      obtain ⟨_, -, hx⟩ := need_bind_eq_ok.1 hx
      obtain ⟨_, -, hx⟩ := need_bind_eq_ok.1 hx
      cases hx
      exact h.sendResponse _ _ _ _
  | iAllocateL1CacheBlock =>
      simp only [Action.exec] at hx
      split at hx
      · split at hx
        · cases hx
        · cases hx
          exact h
      · split at hx
        · next hav =>
            cases hx
            exact ⟨h.request, h.response, fun _ _ => hav⟩
        · cases hx
  | hDeallocateL1CacheBlock =>
      cases hx
      exact ⟨h.request, h.response, by simp⟩
  | sStoreHit =>
      obtain ⟨_, he, hx⟩ := need_bind_eq_ok.1 hx
      cases hx
      exact ⟨h.request, h.response, fun hn _ => h.room hn (by simp [he])⟩
  | sxStoreHit | uWriteDataToCache =>
      obtain ⟨_, -, hx⟩ := need_bind_eq_ok.1 hx
      obtain ⟨_, he, hx⟩ := need_bind_eq_ok.1 hx
      cases hx
      exact ⟨h.request, h.response, fun hn _ => h.room hn (by simp [he])⟩
  | rxLoadHit | qUpdateAckCount | xCopyDataFromCacheToTBE =>
      obtain ⟨_, -, hx⟩ := need_bind_eq_ok.1 hx
      obtain ⟨_, -, hx⟩ := need_bind_eq_ok.1 hx
      cases hx
      exact ⟨h.request, h.response, h.room⟩
  | forwardEvictionToCpu =>
      cases hx
      split
      · exact ⟨h.request, h.response, h.room⟩
      · exact h
  | vAllocateTBE =>
      simp only [Action.exec] at hx
      split at hx
      · cases hx
      · cases hx
        exact ⟨h.request, h.response, h.room⟩
  | zStall =>
      cases hx
      exact h
  | mPopMandatoryQueue | nPopResponseQueue | oPopForwardedRequestQueue | pProfileMiss | rLoadHit
  | wDeallocateTBE =>
      obtain ⟨_, -, hx⟩ := need_bind_eq_ok.1 hx
      cases hx
      exact ⟨h.request, h.response, h.room⟩

/-- **What a cache transition sends** is about its own block and in its own name. -/
theorem doTransition_sends {ev : Event} {x x' : Ctx C D A n} (h : Sends env x.cacheEntry x)
    (hx : doTransition env ev x = .valid x') : Sends env x.cacheEntry x' := by
  unfold doTransition at hx
  split at hx
  · cases hx
  · split at hx
    · cases hx
    · split at hx
      · cases hx
      · next y hy =>
          cases hx
          have hs := Refine.foldlM_ok (P := Sends env x.cacheEntry)
            (fun act _ y y' => Action.exec_sends y act y') h hy
          exact ⟨hs.request, hs.response, fun hn hsome => hs.room hn (by
            simpa [setState] using hsome)⟩

/-- The same for an in port, which starts with nothing sent. -/
theorem trigger_sends {ev : Except Fault Event} {x x' : Ctx C D A n}
    (h₁ : x.requestNetworkOut = []) (h₂ : x.responseNetworkOut = [])
    (hx : trigger env x ev = .valid x') : Sends env x.cacheEntry x' := by
  cases ev with
  | error f => cases hx
  | ok ev =>
      refine doTransition_sends ⟨by simp [h₁], by simp [h₂], ?_⟩ hx
      intro hn hsome
      simp [hn] at hsome

end L1Cache

namespace Directory

open L1Cache (need_bind_eq_ok)

variable {C D A : Type} [DecidableEq C] [DecidableEq D] {n : ℕ} {env : Env D A}

/-- What a transition has sent so far is about the block of the transition and in the name of the
directory, and a forwarded request carries the time of the transition. -/
structure Sends (env : Env D A) (x : Ctx C D A n) : Prop where
  forward : ∀ m ∈ x.forwardNetworkOut, m.address = env.address ∧ m.time = env.time
  response : ∀ m ∈ x.responseNetworkOut,
    m.address = env.address ∧ m.sender = .Directory env.machineID
  memory : ∀ m ∈ x.memQueueOut, m.address = env.address

omit [DecidableEq C] [DecidableEq D] in
theorem Sends.sendForward {x : Ctx C D A n} (h : Sends env x) (type : CoherenceRequestType)
    (requestor : MachineID C D) (dest : NetDest C D) :
    Sends env (x.sendForward (env.forward type requestor dest)) where
  forward m hm := by
    rcases List.mem_append.1 hm with hm | hm
    · exact h.forward m hm
    · rw [List.mem_singleton.1 hm]
      exact ⟨rfl, rfl⟩
  response := h.response
  memory := h.memory

omit [DecidableEq C] [DecidableEq D] in
theorem Sends.sendResponse {x : Ctx C D A n} (h : Sends env x) (dest : MachineID C D)
    (d : DataBlock n) (k : ℤ) : Sends env (x.sendResponse (env.data dest d k)) where
  forward := h.forward
  response m hm := by
    rcases List.mem_append.1 hm with hm | hm
    · exact h.response m hm
    · rw [List.mem_singleton.1 hm]
      exact ⟨rfl, rfl⟩
  memory := h.memory

omit [DecidableEq C] [DecidableEq D] in
theorem Sends.sendMemory {x : Ctx C D A n} (h : Sends env x) (type : MemoryRequestType)
    (requestor : MachineID C D) (d : DataBlock n) :
    Sends env (x.sendMemory (env.memory type requestor d)) where
  forward := h.forward
  response := h.response
  memory m hm := by
    rcases List.mem_append.1 hm with hm | hm
    · exact h.memory m hm
    · rw [List.mem_singleton.1 hm]
      rfl

theorem Action.exec_sends (x : Ctx C D A n) (act : Action) (x' : Ctx C D A n)
    (h : Sends env x) (hx : act.exec env x = .ok x') : Sends env x' := by
  cases act with
  | cClearOwner | csClearSharers | zStall =>
      cases hx
      exact ⟨h.forward, h.response, h.memory⟩
  | aSendWriteBackAck | laSendWriteBackAck | fForwardRequest
  | fwmSendFwdInvToSharersMinusRequestor =>
      obtain ⟨_, -, hx⟩ := need_bind_eq_ok.1 hx
      cases hx
      exact h.sendForward _ _ _
  | dSendData | dsSendSharedData | ds2SendSharedData =>
      obtain ⟨_, -, hx⟩ := need_bind_eq_ok.1 hx
      cases hx
      exact h.sendResponse _ _ _
  | qfQueueMemoryFetchRequest | lqQueueMemoryWBRequest | lq2QueueMemoryWBRequest =>
      obtain ⟨_, -, hx⟩ := need_bind_eq_ok.1 hx
      cases hx
      exact h.sendMemory _ _ _
  | qwtQueueMemoryWBRequestPartialTBE =>
      obtain ⟨_, -, hx⟩ := need_bind_eq_ok.1 hx
      obtain ⟨_, -, hx⟩ := need_bind_eq_ok.1 hx
      cases hx
      exact h.sendMemory _ _ _
  | vvAllocateTBEFromRequestNet =>
      obtain ⟨_, -, hx⟩ := need_bind_eq_ok.1 hx
      split at hx
      · cases hx
      · cases hx
        exact ⟨h.forward, h.response, h.memory⟩
  | kkRemoveRequestSharer | ars1AddRequestorToSharers | ars2AddRequestorToSharers
  | aosAddOwnertoSharers | eOwnerIsRequestor | iPopIncomingRequestQueue
  | prPopIncomingResponseQueue | plWriteDataToDirectory | pl2WriteDataToDirectory
  | wDeallocateTBE | qmPopMemQueue | wWriteDataToDirectoryFromTBE =>
      obtain ⟨_, -, hx⟩ := need_bind_eq_ok.1 hx
      cases hx
      exact ⟨h.forward, h.response, h.memory⟩

/-- **What a directory transition sends** is about its own block and in its own name. -/
theorem doTransition_sends {ev : Event} {x x' : Ctx C D A n} (h : Sends env x)
    (hx : doTransition env ev x = .valid x') : Sends env x' := by
  unfold doTransition at hx
  split at hx
  · cases hx
  · next actions next ht =>
      split at hx
      · cases hx
      · split at hx
        · cases hx
        · next y hy =>
            cases hx
            cases hz : actions.foldlM (Action.exec env) x with
            | error f =>
                rw [hz] at hy
                cases hy
            | ok z =>
                rw [hz] at hy
                have hs := Refine.foldlM_ok (P := Sends env)
                  (fun act _ y y' => Action.exec_sends y act y') h hz
                change setState next z = .ok x' at hy
                unfold setState at hy
                split at hy
                · cases hy
                · cases hy
                  exact ⟨hs.forward, hs.response, hs.memory⟩

/-- The same for an in port, which starts with nothing sent. -/
theorem trigger_sends {ev : Except Fault Event} {x x' : Ctx C D A n}
    (h₁ : x.forwardNetworkOut = []) (h₂ : x.responseNetworkOut = []) (h₃ : x.memQueueOut = [])
    (hx : trigger env x ev = .valid x') : Sends env x' := by
  cases ev with
  | error f => cases hx
  | ok ev => exact doTransition_sends ⟨by simp [h₁], by simp [h₂], by simp [h₃]⟩ hx

end Directory

end Msi
