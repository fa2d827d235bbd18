/-
**What a cache transition does, action by action.**

A transition of the L1 controller runs a list of actions.  Each action touches little, so that what
a transition does as a whole can be read off its list: which queue it shortens, whether the line and
the transient entry are there in the end, and what it reports to the sequencer.  The facts about the
transition table are checked entry by entry; the facts about actions go through the loop that runs
them.

Main definitions:

* `Msi.L1Cache.Event.pop` — the action that dequeues the message behind an event;
* `Msi.L1Cache.Access` — loads and stores, as requests, events, pending misses and callbacks.

Main results:

* `Msi.L1Cache.doTransition_eq_valid` — the parts of a transition that is carried out;
* `Msi.L1Cache.doTransition_pop` — **the message that triggered a transition is dequeued**;
* `Msi.L1Cache.doTransition_state` — the state afterwards is the next state of the table;
* `Msi.L1Cache.doTransition_access` — **a transition answers what it takes up**: requests that enter
  it and misses that were pending are those that it answers and those that are pending afterwards;
* `Msi.L1Cache.doTransition_calls` — a transition calls the sequencer at most once;
* `Msi.Step.mandatory_cases` — what a move of the mandatory queue does;
* `Msi.Step.transacts` — a step that reports something is a transition of a cache.
-/

import ArchLab.MsiSends
import ArchLab.MsiSystem
import ArchLab.Potential

set_option relaxedAutoImplicit false
set_option autoImplicit false

namespace Msi.L1Cache

variable {C D A : Type} {n : ℕ} {env : Env C D A n} {x x' : Ctx C D A n}

/-- The parts of a transition that is carried out. -/
theorem doTransition_eq_valid {ev : Event} (hx : doTransition env ev x = .valid x') :
    ∃ actions next y, transition (getState x.tbe x.cacheEntry) ev = some (actions, next) ∧
      .zStall ∉ actions ∧ actions.foldlM (Action.exec env) x = .ok y ∧ x' = setState next y := by
  unfold doTransition at hx
  split at hx
  · cases hx
  · next actions next htr =>
      split at hx
      · cases hx
      · next hz =>
          split at hx
          · cases hx
          · next y hy =>
              cases hx
              exact ⟨actions, next, y, htr, hz, hy, rfl⟩

/-! ### The queues -/

/-- The action that dequeues the message behind an event.  A replacement has none: the request that
needs the room stays where it is. -/
def Event.pop : Event → Option Action
  | .Load | .Ifetch | .Store => some .mPopMandatoryQueue
  | .Replacement => none
  | .Fwd_GetS | .Fwd_GetM | .Inv | .WB_Ack => some .oPopForwardedRequestQueue
  | .Inv_Ack | .Inv_Ack_all | .Data_from_Dir_No_Acks | .Data_from_Dir_Ack_Cnt
  | .Data_from_Dir_Ack_Cnt_Last | .Data_from_Owner => some .nPopResponseQueue

/-- Every transition that does not stall has that action. -/
theorem pop_mem {st next : State} {ev : Event} {actions : List Action} {act : Action}
    (h : transition st ev = some (actions, next)) (hz : .zStall ∉ actions)
    (hp : ev.pop = some act) : act ∈ actions := by
  cases ev <;> cases hp <;> cases st <;> cases h <;> first | decide | exact absurd (by decide) hz

/-- The slot that a dequeue empties is empty. -/
def Ctx.Popped (x : Ctx C D A n) : Action → Prop
  | .mPopMandatoryQueue => x.mandatoryQueueIn = none
  | .nPopResponseQueue => x.responseNetworkIn = none
  | .oPopForwardedRequestQueue => x.forwardRequestNetworkIn = none
  | _ => True

/-- What an action leaves in the slots: what was there, unless it is the dequeue of the slot. -/
theorem Action.exec_slots {act : Action} (hx : act.exec env x = .ok x') :
    (x'.mandatoryQueueIn =
        if act = .mPopMandatoryQueue then none else x.mandatoryQueueIn) ∧
      (x'.responseNetworkIn = if act = .nPopResponseQueue then none else x.responseNetworkIn) ∧
      (x'.forwardRequestNetworkIn =
        if act = .oPopForwardedRequestQueue then none else x.forwardRequestNetworkIn) := by
  cases act with
  | asIssueGetS | amIssueGetM | hDeallocateL1CacheBlock | zStall =>
      cases hx
      exact ⟨rfl, rfl, rfl⟩
  | forwardEvictionToCpu =>
      cases hx
      split <;> exact ⟨rfl, rfl, rfl⟩
  | bsIssuePUTS | bmIssuePUTM | deSendDataFromCacheToDir | deeSendDataFromTBEToDir | fiSendInvAck
  | pProfileMiss | rLoadHit | sStoreHit | wDeallocateTBE | mPopMandatoryQueue | nPopResponseQueue
  | oPopForwardedRequestQueue =>
      obtain ⟨_, -, hx⟩ := need_bind_eq_ok.1 hx
      cases hx
      exact ⟨rfl, rfl, rfl⟩
  | eSendDataFromCacheToRequestor | eeSendDataFromTBEToRequestor | rxLoadHit | sxStoreHit
  | uWriteDataToCache | qUpdateAckCount | xCopyDataFromCacheToTBE =>
      obtain ⟨_, -, hx⟩ := need_bind_eq_ok.1 hx
      obtain ⟨_, -, hx⟩ := need_bind_eq_ok.1 hx
      cases hx
      exact ⟨rfl, rfl, rfl⟩
  | iAllocateL1CacheBlock | vAllocateTBE =>
      simp only [Action.exec] at hx
      repeat' split at hx
      all_goals cases hx
      all_goals exact ⟨rfl, rfl, rfl⟩

theorem Action.exec_popped {act : Action} (hx : act.exec env x = .ok x') : x'.Popped act := by
  obtain ⟨hm, hr, hf⟩ := Action.exec_slots hx
  cases act with
  | mPopMandatoryQueue => exact hm
  | nPopResponseQueue => exact hr
  | oPopForwardedRequestQueue => exact hf
  | _ => trivial

theorem Ctx.Popped.exec {act act' : Action} (h : x.Popped act) (hx : act'.exec env x = .ok x') :
    x'.Popped act := by
  obtain ⟨hm, hr, hf⟩ := Action.exec_slots hx
  cases act with
  | mPopMandatoryQueue =>
      rw [h, ite_self] at hm
      exact hm
  | nPopResponseQueue =>
      rw [h, ite_self] at hr
      exact hr
  | oPopForwardedRequestQueue =>
      rw [h, ite_self] at hf
      exact hf
  | _ => trivial

/-- **The message that triggered a transition is dequeued.** -/
theorem doTransition_pop {ev : Event} {act : Action} (hp : ev.pop = some act)
    (hx : doTransition env ev x = .valid x') : x'.Popped act := by
  obtain ⟨actions, next, y, ht, hz, hy, rfl⟩ := doTransition_eq_valid hx
  have hall : ∀ act ∈ actions, y.Popped act :=
    Refine.foldlM_each (I := fun _ => True) (P := fun act (x : Ctx C D A n) => x.Popped act)
      (fun act _ a a' _ ha => ⟨trivial, Action.exec_popped ha⟩)
      (fun act _ act' _ a a' _ h ha => h.exec ha) trivial hy
  have hact := hall act (pop_mem ht hz hp)
  cases act with
  | mPopMandatoryQueue | nPopResponseQueue | oPopForwardedRequestQueue => exact hact
  | _ => trivial

/-- **A replacement leaves the request that needs the room in its queue.** -/
theorem replacement_slot (hx : doTransition env .Replacement x = .valid x') :
    x'.mandatoryQueueIn = x.mandatoryQueueIn := by
  obtain ⟨actions, next, y, ht, hz, hy, rfl⟩ := doTransition_eq_valid hx
  have hno : .mPopMandatoryQueue ∉ actions := by
    cases hst : getState x.tbe x.cacheEntry <;> rw [hst] at ht <;> cases ht <;> decide
  have hkeep : ∀ act ∈ actions, ∀ a a' : Ctx C D A n, a.mandatoryQueueIn = x.mandatoryQueueIn →
      act.exec env a = .ok a' → a'.mandatoryQueueIn = x.mandatoryQueueIn := by
    intro act hact a a' ha hx
    have hne : act ≠ .mPopMandatoryQueue := fun h => hno (h ▸ hact)
    rw [(Action.exec_slots hx).1, if_neg hne]
    exact ha
  change y.mandatoryQueueIn = _
  exact Refine.foldlM_ok (P := fun a : Ctx C D A n => a.mandatoryQueueIn = x.mandatoryQueueIn)
    hkeep rfl hy

/-! ### The line and the transient entry -/

/-- The actions after which the line is there. -/
def Action.needsLine : Action → Bool
  | .bsIssuePUTS | .bmIssuePUTM | .eSendDataFromCacheToRequestor | .deSendDataFromCacheToDir
  | .iAllocateL1CacheBlock | .rLoadHit | .rxLoadHit | .sStoreHit | .sxStoreHit | .uWriteDataToCache
  | .xCopyDataFromCacheToTBE => true
  | _ => false

/-- The actions after which the transient entry is there. -/
def Action.needsTBE : Action → Bool
  | .eeSendDataFromTBEToRequestor | .deeSendDataFromTBEToDir | .qUpdateAckCount | .vAllocateTBE
  | .xCopyDataFromCacheToTBE => true
  | _ => false

/-- An action keeps the line and the transient entry, unless it removes them, and has them in the
end if it uses or adds them. -/
theorem Action.exec_present {act : Action} (hx : act.exec env x = .ok x') :
    (act ≠ .hDeallocateL1CacheBlock → x.cacheEntry.isSome → x'.cacheEntry.isSome) ∧
      (act ≠ .wDeallocateTBE → x.tbe.isSome → x'.tbe.isSome) ∧
      (act.needsLine = true → x'.cacheEntry.isSome) ∧ (act.needsTBE = true → x'.tbe.isSome) := by
  -- an action that neither uses nor adds
  have hno : ∀ {P : Prop}, false = true → P := fun h => Bool.noConfusion h
  cases act with
  | asIssueGetS | amIssueGetM | zStall =>
      cases hx
      exact ⟨fun _ h => h, fun _ h => h, hno, hno⟩
  | hDeallocateL1CacheBlock =>
      cases hx
      exact ⟨fun h => absurd rfl h, fun _ h => h, hno, hno⟩
  | wDeallocateTBE =>
      obtain ⟨_, -, hx⟩ := need_bind_eq_ok.1 hx
      cases hx
      exact ⟨fun _ h => h, fun h => absurd rfl h, hno, hno⟩
  | forwardEvictionToCpu =>
      cases hx
      split <;> exact ⟨fun _ h => h, fun _ h => h, hno, hno⟩
  | bsIssuePUTS | bmIssuePUTM | deSendDataFromCacheToDir | rLoadHit | sStoreHit =>
      obtain ⟨_, he, hx⟩ := need_bind_eq_ok.1 hx
      cases hx
      exact ⟨fun _ _ => by simp_all [Ctx.call, Ctx.sendRequest, Ctx.sendResponse], fun _ h => h,
        fun _ => by simp_all [Ctx.call, Ctx.sendRequest, Ctx.sendResponse], hno⟩
  | deeSendDataFromTBEToDir =>
      obtain ⟨_, ht, hx⟩ := need_bind_eq_ok.1 hx
      cases hx
      exact ⟨fun _ h => h, fun _ h => h, hno, fun _ => by simp [Ctx.sendResponse, ht]⟩
  | fiSendInvAck | pProfileMiss | mPopMandatoryQueue | nPopResponseQueue
  | oPopForwardedRequestQueue =>
      obtain ⟨_, -, hx⟩ := need_bind_eq_ok.1 hx
      cases hx
      exact ⟨fun _ h => h, fun _ h => h, hno, hno⟩
  | eSendDataFromCacheToRequestor | rxLoadHit | sxStoreHit | uWriteDataToCache =>
      obtain ⟨_, -, hx⟩ := need_bind_eq_ok.1 hx
      obtain ⟨_, he, hx⟩ := need_bind_eq_ok.1 hx
      cases hx
      exact ⟨fun _ _ => by simp_all [Ctx.call, Ctx.sendResponse], fun _ h => h,
        fun _ => by simp_all [Ctx.call, Ctx.sendResponse], hno⟩
  | eeSendDataFromTBEToRequestor | qUpdateAckCount =>
      obtain ⟨_, -, hx⟩ := need_bind_eq_ok.1 hx
      obtain ⟨_, ht, hx⟩ := need_bind_eq_ok.1 hx
      cases hx
      exact ⟨fun _ h => h, fun _ _ => by simp_all [Ctx.sendResponse], hno,
        fun _ => by simp_all [Ctx.sendResponse]⟩
  | xCopyDataFromCacheToTBE =>
      obtain ⟨_, he, hx⟩ := need_bind_eq_ok.1 hx
      obtain ⟨_, ht, hx⟩ := need_bind_eq_ok.1 hx
      cases hx
      exact ⟨fun _ h => h, fun _ _ => rfl, fun _ => by simp [he], fun _ => rfl⟩
  | iAllocateL1CacheBlock =>
      simp only [Action.exec] at hx
      split at hx
      · next he =>
          split at hx
          · cases hx
          · cases hx
            exact ⟨fun _ h => h, fun _ h => h, fun _ => by simp [he], hno⟩
      · split at hx
        · cases hx
          exact ⟨fun _ _ => rfl, fun _ h => h, fun _ => rfl, hno⟩
        · cases hx
  | vAllocateTBE =>
      simp only [Action.exec] at hx
      split at hx
      · cases hx
      · cases hx
        exact ⟨fun _ h => h, fun _ _ => rfl, hno, fun _ => rfl⟩

/-- A transition to a state other than `I` leaves the line or the transient entry: it uses or adds
one that it does not remove, or it starts from such a state and removes neither. -/
theorem present_of_transition {st next : State} {ev : Event} {actions : List Action}
    (h : transition st ev = some (actions, next)) (hz : .zStall ∉ actions) (hn : next ≠ .I) :
    (.hDeallocateL1CacheBlock ∉ actions ∧ ∃ act ∈ actions, act.needsLine = true) ∨
      (.wDeallocateTBE ∉ actions ∧ ∃ act ∈ actions, act.needsTBE = true) ∨
      (st ≠ .I ∧ .hDeallocateL1CacheBlock ∉ actions ∧ .wDeallocateTBE ∉ actions) := by
  cases st <;> cases ev <;> cases h <;>
    first | exact absurd (by decide) hz | exact absurd rfl hn | decide

/-- A state other than `I` is recorded somewhere. -/
theorem present_of_getState {tbe : Option (TBE n)} {e : Option (Entry n)}
    (h : getState tbe e ≠ .I) : e.isSome ∨ tbe.isSome := by
  cases tbe with
  | some t => exact .inr rfl
  | none =>
      cases e with
      | some e => exact .inl rfl
      | none => exact absurd rfl h

theorem foldlM_present {actions : List Action} {y : Ctx C D A n}
    (hy : actions.foldlM (Action.exec env) x = .ok y) :
    (.hDeallocateL1CacheBlock ∉ actions →
      (x.cacheEntry.isSome ∨ ∃ act ∈ actions, act.needsLine = true) → y.cacheEntry.isSome) ∧
    (.wDeallocateTBE ∉ actions →
      (x.tbe.isSome ∨ ∃ act ∈ actions, act.needsTBE = true) → y.tbe.isSome) := by
  constructor
  · intro hd hor
    rcases hor with hsome | ⟨act, hmem, hneed⟩
    · refine Refine.foldlM_ok (P := fun x : Ctx C D A n => x.cacheEntry.isSome) ?_ hsome hy
      intro act hact a a' ha hx
      exact (Action.exec_present hx).1 (fun h => hd (h ▸ hact)) ha
    · refine Refine.foldlM_each (I := fun _ => True)
        (P := fun act (x : Ctx C D A n) => act.needsLine = true → x.cacheEntry.isSome)
        (fun act _ a a' _ hx => ⟨trivial, (Action.exec_present hx).2.2.1⟩) ?_ trivial hy act hmem
        hneed
      intro act _ act' hact' a a' _ h hx hneed
      exact (Action.exec_present hx).1 (fun h => hd (h ▸ hact')) (h hneed)
  · intro hd hor
    rcases hor with hsome | ⟨act, hmem, hneed⟩
    · refine Refine.foldlM_ok (P := fun x : Ctx C D A n => x.tbe.isSome) ?_ hsome hy
      intro act hact a a' ha hx
      exact (Action.exec_present hx).2.1 (fun h => hd (h ▸ hact)) ha
    · refine Refine.foldlM_each (I := fun _ => True)
        (P := fun act (x : Ctx C D A n) => act.needsTBE = true → x.tbe.isSome)
        (fun act _ a a' _ hx => ⟨trivial, (Action.exec_present hx).2.2.2⟩) ?_ trivial hy act hmem
        hneed
      intro act _ act' hact' a a' _ h hx hneed
      exact (Action.exec_present hx).2.1 (fun h => hd (h ▸ hact')) (h hneed)

theorem getState_setState {next : State} {y : Ctx C D A n}
    (h : y.cacheEntry.isSome ∨ y.tbe.isSome) :
    getState (setState next y).tbe (setState next y).cacheEntry = next := by
  unfold setState getState
  cases hT : y.tbe with
  | some t => rfl
  | none =>
      cases hE : y.cacheEntry with
      | some e => rfl
      | none => simp [hT, hE] at h

/-- **The state after a transition is the next state of the table.** -/
theorem doTransition_state {ev : Event} (hx : doTransition env ev x = .valid x') :
    ∃ actions, transition (getState x.tbe x.cacheEntry) ev =
        some (actions, getState x'.tbe x'.cacheEntry) ∧ .zStall ∉ actions ∧
      ∃ y, actions.foldlM (Action.exec env) x = .ok y ∧
        x' = setState (getState x'.tbe x'.cacheEntry) y := by
  obtain ⟨actions, next, y, ht, hz, hy, rfl⟩ := doTransition_eq_valid hx
  have hstate : getState (setState next y).tbe (setState next y).cacheEntry = next := by
    by_cases hp : y.cacheEntry.isSome ∨ y.tbe.isSome
    · exact getState_setState hp
    -- with neither of the two the state is `I`, and the transition leads there
    have hI : getState (setState next y).tbe (setState next y).cacheEntry = .I := by
      rw [not_or] at hp
      simp only [Option.not_isSome_iff_eq_none] at hp
      simp [setState, getState, hp.1, hp.2]
    rw [hI]
    by_contra hn
    obtain ⟨hline, htbe⟩ := foldlM_present hy
    refine hp ?_
    rcases present_of_transition ht hz (Ne.symm hn) with ⟨hd, hneed⟩ | ⟨hd, hneed⟩ | ⟨hst, hd, hd'⟩
    · exact .inl (hline hd (.inr hneed))
    · exact .inr (htbe hd (.inr hneed))
    · rcases present_of_getState hst with h | h
      · exact .inl (hline hd (.inl h))
      · exact .inr (htbe hd' (.inl h))
  rw [hstate]
  exact ⟨actions, ht, hz, y, hy, rfl⟩

/-! ### Loads and stores -/

/-- The two kinds of accesses. -/
inductive Access where
  | load | store
  deriving DecidableEq

/-- The kind of a request. -/
def Access.ofType : RubyRequestType → Option Access
  | .LD | .IFETCH => some .load
  | .ST | .ATOMIC => some .store
  | _ => none

/-- The kind of an event. -/
def Event.access : Event → Option Access
  | .Load | .Ifetch => some .load
  | .Store => some .store
  | _ => none

/-- The kind of the miss that is pending in a state. -/
def State.awaits : State → Option Access
  | .IS_D => some .load
  | .IM_AD | .IM_A | .SM_AD | .SM_A => some .store
  | .I | .S | .M | .MI_A | .SI_A | .II_A => none

/-- The kind of access that an action answers. -/
def Action.access : Action → Option Access
  | .rLoadHit | .rxLoadHit => some .load
  | .sStoreHit | .sxStoreHit => some .store
  | _ => none

/-- The kind of access that a callback answers. -/
def Callback.access : Callback n → Option Access
  | .read _ => some .load
  | .write _ => some .store
  | .eviction => none

theorem access_of_requestType {t : RubyRequestType} {ev : Event}
    (h : mandatoryRequestTypeToEvent t = .ok ev) : ev.access = Access.ofType t := by
  cases t <;> cases h <;> rfl

/-- One if the two kinds agree. -/
def Access.one (k : Access) (o : Option Access) : ℕ := if o = some k then 1 else 0

/-- The number of accesses of one kind that a list of callbacks answers. -/
def Access.answers (k : Access) (l : List (Callback n)) : ℕ := l.countP fun b => b.access = some k

@[simp] theorem Access.answers_nil (k : Access) : k.answers ([] : List (Callback n)) = 0 := rfl

@[simp] theorem Access.answers_append (k : Access) (l l' : List (Callback n)) :
    k.answers (l ++ l') = k.answers l + k.answers l' := List.countP_append

/-- **The table takes up and answers accesses one for one.** -/
theorem access_of_transition {st next : State} {ev : Event} {actions : List Action}
    (h : transition st ev = some (actions, next)) (hz : .zStall ∉ actions) (k : Access) :
    k.one ev.access + k.one st.awaits =
      actions.countP (fun act => act.access = some k) + k.one next.awaits := by
  cases st <;> cases ev <;> cases h <;>
    first | exact absurd (by decide) hz | (cases k <;> decide)

theorem Action.exec_callbacks {act : Action} (hx : act.exec env x = .ok x') (k : Access) :
    k.answers x'.callbacks = k.answers x.callbacks + k.one act.access := by
  cases act with
  | asIssueGetS | amIssueGetM | hDeallocateL1CacheBlock | zStall =>
      cases hx
      rfl
  | forwardEvictionToCpu =>
      cases hx
      split
      · rw [Ctx.call, Access.answers_append]
        rfl
      · rfl
  | rLoadHit | sStoreHit =>
      obtain ⟨_, -, hx⟩ := need_bind_eq_ok.1 hx
      cases hx
      rw [Ctx.call, Access.answers_append]
      cases k <;> rfl
  | rxLoadHit | sxStoreHit =>
      obtain ⟨_, -, hx⟩ := need_bind_eq_ok.1 hx
      obtain ⟨_, -, hx⟩ := need_bind_eq_ok.1 hx
      cases hx
      rw [Ctx.call, Access.answers_append]
      cases k <;> rfl
  | bsIssuePUTS | bmIssuePUTM | deSendDataFromCacheToDir | deeSendDataFromTBEToDir | fiSendInvAck
  | pProfileMiss | wDeallocateTBE | mPopMandatoryQueue | nPopResponseQueue
  | oPopForwardedRequestQueue =>
      obtain ⟨_, -, hx⟩ := need_bind_eq_ok.1 hx
      cases hx
      rfl
  | eSendDataFromCacheToRequestor | eeSendDataFromTBEToRequestor | uWriteDataToCache
  | qUpdateAckCount | xCopyDataFromCacheToTBE =>
      obtain ⟨_, -, hx⟩ := need_bind_eq_ok.1 hx
      obtain ⟨_, -, hx⟩ := need_bind_eq_ok.1 hx
      cases hx
      rfl
  | iAllocateL1CacheBlock | vAllocateTBE =>
      simp only [Action.exec] at hx
      repeat' split at hx
      all_goals cases hx
      all_goals rfl

theorem foldlM_callbacks {actions : List Action} {y : Ctx C D A n}
    (hy : actions.foldlM (Action.exec env) x = .ok y) (k : Access) :
    k.answers y.callbacks =
      k.answers x.callbacks + actions.countP (fun act => act.access = some k) := by
  induction actions generalizing x with
  | nil =>
      cases hy
      rfl
  | cons act actions ih =>
      rw [List.foldlM_cons] at hy
      obtain ⟨x₁, h₁, h₂⟩ := Refine.bind_ok.1 hy
      rw [ih h₂, Action.exec_callbacks h₁, List.countP_cons, Access.one]
      simp only [decide_eq_true_eq]
      omega

/-- **A transition answers what it takes up**: the access that enters it and the miss that was
pending before are answered by its callbacks or pending afterwards. -/
theorem doTransition_access {ev : Event} (hx : doTransition env ev x = .valid x') (k : Access) :
    k.one ev.access + k.one (getState x.tbe x.cacheEntry).awaits + k.answers x.callbacks =
      k.answers x'.callbacks + k.one (getState x'.tbe x'.cacheEntry).awaits := by
  obtain ⟨actions, ht, hz, y, hy, hxy⟩ := doTransition_state hx
  have htable := access_of_transition ht hz k
  have hcalls := foldlM_callbacks hy k
  have hsame : x'.callbacks = y.callbacks := by
    rw [hxy]
    rfl
  rw [hsame]
  omega

/-! ### Callbacks -/

/-- The actions that call the sequencer. -/
def Action.calls : Action → Bool
  | .forwardEvictionToCpu | .rLoadHit | .rxLoadHit | .sStoreHit | .sxStoreHit => true
  | _ => false

/-- No transition calls the sequencer twice. -/
theorem calls_of_transition {st next : State} {ev : Event} {actions : List Action}
    (h : transition st ev = some (actions, next)) : actions.countP Action.calls ≤ 1 := by
  cases st <;> cases ev <;> cases h <;> decide

/-- The stores of the table: a hit, data that needs no further acknowledgements, or the last
acknowledgement. -/
theorem store_of_transition {st next : State} {ev : Event} {actions : List Action}
    (h : transition st ev = some (actions, next))
    (hs : 0 < actions.countP fun act => act.access = some .store) :
    st = .M ∧ ev = .Store ∨
      ev ∈ [.Data_from_Dir_No_Acks, .Data_from_Dir_Ack_Cnt_Last, .Data_from_Owner] ∨
      (st = .IM_A ∨ st = .SM_A) ∧ ev = .Inv_Ack_all := by
  cases st <;> cases ev <;> cases h <;> first | decide | exact absurd hs (by decide)

theorem doTransition_store {ev : Event} (hx : doTransition env ev x = .valid x')
    (hk : Access.store.answers x.callbacks < Access.store.answers x'.callbacks) :
    getState x.tbe x.cacheEntry = .M ∧ ev = .Store ∨
      ev ∈ [.Data_from_Dir_No_Acks, .Data_from_Dir_Ack_Cnt_Last, .Data_from_Owner] ∨
      (getState x.tbe x.cacheEntry = .IM_A ∨ getState x.tbe x.cacheEntry = .SM_A) ∧
        ev = .Inv_Ack_all := by
  obtain ⟨actions, next, y, ht, hz, hy, rfl⟩ := doTransition_eq_valid hx
  have hcalls := foldlM_callbacks hy .store
  have hsame : Access.store.answers (setState next y).callbacks =
    Access.store.answers y.callbacks := rfl
  exact store_of_transition ht (by omega)

/-- What a callback can say in an environment. -/
def Callback.From (env : Env C D A n) (b : Callback n) : Prop :=
  ∀ v, b = .write v → v = env.storeData

theorem Action.exec_calls {act : Action} (hx : act.exec env x = .ok x') :
    ∃ l, x'.callbacks = x.callbacks ++ l ∧ l.length ≤ (if act.calls then 1 else 0) ∧
      ∀ b ∈ l, b.From env := by
  have hnone : x'.callbacks = x.callbacks → ∃ l, x'.callbacks = x.callbacks ++ l ∧
      l.length ≤ (if act.calls then 1 else 0) ∧ ∀ b ∈ l, b.From env :=
    fun h => ⟨[], by simp [h], by simp, by simp⟩
  cases act with
  | asIssueGetS | amIssueGetM | hDeallocateL1CacheBlock | zStall =>
      cases hx
      exact hnone rfl
  | forwardEvictionToCpu =>
      cases hx
      by_cases hsend : env.sendEvictions = true
      · rw [if_pos hsend]
        exact ⟨[.eviction], rfl, le_rfl, by simp [Callback.From]⟩
      · rw [if_neg hsend] at hnone ⊢
        exact hnone rfl
  | rLoadHit =>
      obtain ⟨_, -, hx⟩ := need_bind_eq_ok.1 hx
      cases hx
      exact ⟨[_], rfl, le_rfl, by simp [Callback.From]⟩
  | sStoreHit =>
      obtain ⟨_, -, hx⟩ := need_bind_eq_ok.1 hx
      cases hx
      exact ⟨[_], rfl, le_rfl, by simp [Callback.From]⟩
  | rxLoadHit | sxStoreHit =>
      obtain ⟨_, -, hx⟩ := need_bind_eq_ok.1 hx
      obtain ⟨_, -, hx⟩ := need_bind_eq_ok.1 hx
      cases hx
      exact ⟨[_], rfl, le_rfl, by simp [Callback.From]⟩
  | bsIssuePUTS | bmIssuePUTM | deSendDataFromCacheToDir | deeSendDataFromTBEToDir | fiSendInvAck
  | pProfileMiss | wDeallocateTBE | mPopMandatoryQueue | nPopResponseQueue
  | oPopForwardedRequestQueue =>
      obtain ⟨_, -, hx⟩ := need_bind_eq_ok.1 hx
      cases hx
      exact hnone rfl
  | eSendDataFromCacheToRequestor | eeSendDataFromTBEToRequestor | uWriteDataToCache
  | qUpdateAckCount | xCopyDataFromCacheToTBE =>
      obtain ⟨_, -, hx⟩ := need_bind_eq_ok.1 hx
      obtain ⟨_, -, hx⟩ := need_bind_eq_ok.1 hx
      cases hx
      exact hnone rfl
  | iAllocateL1CacheBlock | vAllocateTBE =>
      simp only [Action.exec] at hx
      repeat' split at hx
      all_goals cases hx
      all_goals exact hnone rfl

theorem foldlM_calls {actions : List Action} {y : Ctx C D A n}
    (hy : actions.foldlM (Action.exec env) x = .ok y) :
    ∃ l, y.callbacks = x.callbacks ++ l ∧ l.length ≤ actions.countP Action.calls ∧
      ∀ b ∈ l, b.From env := by
  induction actions generalizing x with
  | nil =>
      cases hy
      exact ⟨[], by simp, by simp, by simp⟩
  | cons act actions ih =>
      rw [List.foldlM_cons] at hy
      obtain ⟨x₁, h₁, h₂⟩ := Refine.bind_ok.1 hy
      obtain ⟨l₁, e₁, hlen₁, hfrom₁⟩ := Action.exec_calls h₁
      obtain ⟨l₂, e₂, hlen₂, hfrom₂⟩ := ih h₂
      refine ⟨l₁ ++ l₂, by rw [e₂, e₁, List.append_assoc], ?_, ?_⟩
      · rw [List.length_append, List.countP_cons]
        omega
      · intro b hb
        rcases List.mem_append.1 hb with hb | hb
        · exact hfrom₁ b hb
        · exact hfrom₂ b hb

/-- **A transition calls the sequencer at most once**, and a store is the one of the environment. -/
theorem doTransition_calls {ev : Event} (hx : doTransition env ev x = .valid x')
    (h₀ : x.callbacks = []) :
    x'.callbacks = [] ∨ ∃ b, x'.callbacks = [b] ∧ b.From env := by
  obtain ⟨actions, next, y, ht, hz, hy, rfl⟩ := doTransition_eq_valid hx
  obtain ⟨l, e, hlen, hfrom⟩ := foldlM_calls hy
  have hone := hlen.trans (calls_of_transition ht)
  have e : (setState next y).callbacks = l := by
    rw [h₀, List.nil_append] at e
    exact e
  rw [e]
  match l, hone, hfrom with
  | [], _, _ => exact .inl rfl
  | [b], _, hfrom => exact .inr ⟨b, rfl, hfrom b (by simp)⟩

/-- A transition that answers something keeps its line. -/
theorem line_of_answer {ev : Event} (hx : doTransition env ev x = .valid x') {k : Access}
    (hk : k.answers x.callbacks < k.answers x'.callbacks) : x'.cacheEntry.isSome := by
  obtain ⟨actions, next, y, ht, hz, hy, rfl⟩ := doTransition_eq_valid hx
  have hcalls := foldlM_callbacks hy k
  have hsome : 0 < actions.countP (fun act => act.access = some k) := by
    have : k.answers (setState next y).callbacks = k.answers y.callbacks := rfl
    omega
  obtain ⟨act, hmem, hact⟩ := List.countP_pos_iff.1 hsome
  have hact : act.access = some k := of_decide_eq_true hact
  have hkeep : .hDeallocateL1CacheBlock ∉ actions := by
    cases hst : getState x.tbe x.cacheEntry <;> rw [hst] at ht <;> cases ev <;> cases ht <;>
      first | decide | (exact absurd hsome (by cases k <;> decide))
  have hneed : act.needsLine = true := by
    cases act <;> first | rfl | cases hact
  have := (foldlM_present hy).1 hkeep (.inr ⟨act, hmem, hneed⟩)
  simpa [setState] using this

end Msi.L1Cache

/-! ### Steps of the system -/

namespace Msi

variable {C D A : Type} [DecidableEq C] [DecidableEq D] [DecidableEq A] {n : ℕ} {cfg : Config D A}
  {s s' : System C D A n cfg}

/-- **A move of the mandatory queue**: it shows the head of the queue to the in port, and either the
block of the request is transacted, or that of a victim that has to make room for it. -/
theorem Step.mandatory_cases {c : C} {victim : Fin cfg.assoc} {v : DataBlock n}
    {rep : Option (Report C D A n)} (h : Step s (.mandatory c victim v, rep) s') :
    ∃ r q a x, (s.l1 c).mandatoryQueue = r :: q ∧ rep = some ⟨c, a, none, s.state c a, x⟩ ∧
      s' = (s.l1Finish c a x fun k =>
        { k with mandatoryQueue := System.popped x.mandatoryQueueIn k.mandatoryQueue }) ∧
      (L1Cache.mandatoryQueueInReplacement (s.l1Env c a v) (s.entry c a) ((s.l1 c).tbes a) r =
          .valid x ∨
        a = r.lineAddress ∧
          L1Cache.mandatoryQueueIn (s.l1Env c a v) (s.entry c a) ((s.l1 c).tbes a) r =
            .valid x) := by
  simp only [Step, System.exec] at h
  split at h
  · cases h
  · next r q hq =>
      split at h
      · split at h
        · cases h
        · next a ha =>
            obtain ⟨x, hx, e⟩ := Outcome.map_eq_valid.1 h
            cases e
            exact ⟨r, q, a, x, hq, rfl, rfl, .inl hx⟩
      · obtain ⟨x, hx, e⟩ := Outcome.map_eq_valid.1 h
        cases e
        exact ⟨r, q, _, x, hq, rfl, rfl, .inr ⟨rfl, hx⟩⟩

open L1Cache

/-- A transition of a cache, from the line and the transient entry of its block in the system. -/
structure Transacts (s : System C D A n cfg) (rep : Report C D A n) (v : DataBlock n) (ev : Event)
    (x : Ctx C D A n) : Prop where
  valid : doTransition (s.l1Env rep.cache rep.address v) ev x = .valid rep.result
  cacheEntry : x.cacheEntry = s.entry rep.cache rep.address
  tbe : x.tbe = (s.l1 rep.cache).tbes rep.address
  requestNetworkOut : x.requestNetworkOut = []
  responseNetworkOut : x.responseNetworkOut = []
  callbacks : x.callbacks = []
  state : rep.state = s.state rep.cache rep.address
  trigger : ev = .Inv → rep.trigger.isSome = true

omit [DecidableEq C] [DecidableEq D] in
theorem Transacts.getState_eq {rep : Report C D A n} {v : DataBlock n} {ev : Event}
    {x : Ctx C D A n} (h : Transacts s rep v ev x) : getState x.tbe x.cacheEntry = rep.state := by
  rw [h.tbe, h.cacheEntry, h.state]
  rfl

omit [DecidableEq C] [DecidableEq D] in
theorem Transacts.sends {rep : Report C D A n} {v : DataBlock n} {ev : Event} {x : Ctx C D A n}
    (h : Transacts s rep v ev x) :
    Sends (s.l1Env rep.cache rep.address v) (s.entry rep.cache rep.address) rep.result := by
  rw [← h.cacheEntry]
  refine doTransition_sends ⟨?_, ?_, ?_⟩ h.valid
  · simp [h.requestNetworkOut]
  · simp [h.responseNetworkOut]
  · intro hn hsome
    simp [hn] at hsome

/-- What a store of a move leaves in its line. -/
def Move.storeData : Move C D A n cfg → DataBlock n
  | .mandatory _ _ v => v
  | .response _ v => v
  | _ => default

/-- **A step that reports something** is a transition of a cache. -/
theorem Step.transacts {mv : Move C D A n cfg} {rep : Report C D A n}
    (h : Step s (mv, some rep) s') :
    ∃ ev x f, Transacts s rep mv.storeData ev x ∧
      s' = s.l1Finish rep.cache rep.address rep.result f ∧
      ∀ k, (f k).tbes = k.tbes ∧ (f k).cacheMemory = k.cacheMemory := by
  cases h.carried with
  | replacement c victim v r a x hfull ha hx =>
      refine ⟨.Replacement, _, _, ⟨hx, rfl, rfl, rfl, rfl, rfl, rfl, nofun⟩, rfl, ?_⟩
      exact fun _ => ⟨rfl, rfl⟩
  | mandatory c victim v r x hroom hx =>
      unfold mandatoryQueueIn at hx
      cases hev : mandatoryRequestTypeToEvent r.type with
      | error f =>
          rw [hev] at hx
          cases hx
      | ok ev =>
          rw [hev] at hx
          have hne : ev ≠ .Inv := by
            rintro rfl
            cases hr : r.type <;> rw [hr] at hev <;> cases hev
          refine ⟨ev, _, _, ⟨hx, rfl, rfl, rfl, rfl, rfl, rfl, fun h => absurd h hne⟩, rfl, ?_⟩
          exact fun _ => ⟨rfl, rfl⟩
  | forward c m q x hq hx =>
      unfold forwardRequestNetworkIn at hx
      cases hev : forwardEvent m with
      | error f =>
          rw [hev] at hx
          cases hx
      | ok ev =>
          rw [hev] at hx
          refine ⟨ev, _, _, ⟨hx, rfl, rfl, rfl, rfl, rfl, rfl, fun _ => rfl⟩, rfl, ?_⟩
          exact fun _ => ⟨rfl, rfl⟩
  | response c v m q x hq hx =>
      unfold responseNetworkIn at hx
      cases hev : responseEvent ((s.l1 c).tbes m.address) m with
      | error f =>
          rw [hev] at hx
          cases hx
      | ok ev =>
          rw [hev] at hx
          have hne : ev ≠ .Inv := by
            rintro rfl
            unfold responseEvent at hev
            split at hev
            · split at hev
              · cases hev
              · obtain ⟨_, -, hev⟩ := need_bind_eq_ok.1 hev
                split at hev <;> cases hev
            · cases hev
            · obtain ⟨_, -, hev⟩ := need_bind_eq_ok.1 hev
              split at hev <;> cases hev
            · cases hev
          refine ⟨ev, _, _, ⟨hx, rfl, rfl, rfl, rfl, rfl, rfl, fun h => absurd h hne⟩, rfl, ?_⟩
          exact fun _ => ⟨rfl, rfl⟩

end Msi
