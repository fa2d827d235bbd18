/-
**Every request is answered, once.**

The processors see the protocol through the mandatory queues, into which they put their requests,
and through the callbacks, which tell them that a load or a store has been done.  This module counts
both.  At any moment the requests of a kind that a processor has issued for a block are those that
have been answered, those that are still in the queue, and the one that the controller is working
on, if the block is in the transient state of such a miss.

With one directory, the system can always move while something is in flight or in a queue
(`ArchLab/MsiDeadlock.lean`), and it cannot move forever (`ArchLab/MsiWork.lean`).  So whatever the
order in which queues are looked at and messages are handed over, the system comes to rest, and when
it does all requests have been answered, each exactly once.

Main definitions:

* `Msi.issued`, `Msi.answered` — the requests of a kind for a block in a run, and the answers;
* `Msi.System.queued`, `Msi.System.pending` — the requests in the queue, and the pending miss;
* `Msi.System.Drained` — nothing is in flight, and no request is waiting.

Main results:

* `Msi.Step.balance` — a step keeps the balance;
* `Msi.Coherent.drained` — **a state from which only new requests lead is drained**;
* `Msi.requests_answered` — **every request is answered exactly once**.
-/

import ArchLab.MsiDeadlock
import ArchLab.MsiWork

set_option relaxedAutoImplicit false
set_option autoImplicit false

namespace Msi

open Potential L1Cache

variable {C D A : Type} [DecidableEq C] [DecidableEq D] [DecidableEq A] {n : ℕ} {cfg : Config D A}

/-! ### Counting -/

/-- The requests of a kind for a block that a step issues. -/
def Label.issues (k : Access) (c : C) (a : A) (l : Label C D A n cfg) : ℕ :=
  match l.1 with
  | .issue c' r => if c' = c ∧ r.lineAddress = a then k.one (Access.ofType r.type) else 0
  | _ => 0

/-- The answers to requests of a kind for a block in a step. -/
def Label.answers (k : Access) (c : C) (a : A) (l : Label C D A n cfg) : ℕ :=
  match l.2 with
  | some rep => if rep.cache = c ∧ rep.address = a then k.answers rep.result.callbacks else 0
  | none => 0

/-- The requests of a kind for a block that a run issues. -/
def issued (k : Access) (c : C) (a : A) (ls : List (Label C D A n cfg)) : ℕ :=
  weigh (Label.issues k c a) ls

/-- The answers to requests of a kind for a block in a run. -/
def answered (k : Access) (c : C) (a : A) (ls : List (Label C D A n cfg)) : ℕ :=
  weigh (Label.answers k c a) ls

namespace System

/-- The requests of a kind for a block in the mandatory queue of a cache. -/
def queued (s : System C D A n cfg) (k : Access) (c : C) (a : A) : ℕ :=
  (s.l1 c).mandatoryQueue.countP fun r =>
    r.lineAddress = a ∧ Access.ofType r.type = some k

/-- The miss of a kind that is pending for a block. -/
def pending (s : System C D A n cfg) (k : Access) (c : C) (a : A) : ℕ :=
  k.one (s.state c a).awaits

/-- Nothing is in flight, and no request is waiting. -/
structure Drained (s : System C D A n cfg) : Prop where
  quiescent : ∀ a, s.Quiescent a
  mandatoryQueue : ∀ c, (s.l1 c).mandatoryQueue = []

end System

variable {s s' : System C D A n cfg}

/-! ### The balance of a step -/

omit [DecidableEq C] [DecidableEq D] [DecidableEq A] in
/-- The events of the forward network and of the response network are no accesses. -/
theorem L1Cache.forwardEvent_access {m : RequestMsg C D A n} {ev : Event}
    (h : forwardEvent m = .ok ev) : ev.access = none := by
  have := (forwardEvent_work h 0).1
  cases ev <;> first | rfl | cases this

omit [DecidableEq C] [DecidableEq D] [DecidableEq A] in
theorem L1Cache.responseEvent_access {tbe : Option (TBE n)} {m : ResponseMsg C D A n} {ev : Event}
    (h : responseEvent tbe m = .ok ev) : ev.access = none := by
  have := (responseEvent_work h 0).1
  cases ev <;> first | rfl | cases this

/-- **A transition of a cache keeps the balance of its block**, and does not touch the others. -/
theorem balance_l1Finish {c : C} {a : A} {v : DataBlock n} {x x' : Ctx C D A n} {ev : Event}
    {f : Cache C D A n cfg → Cache C D A n cfg}
    (hf : ∀ k, (f k).tbes = k.tbes ∧ (f k).cacheMemory = k.cacheMemory)
    (hx : doTransition (s.l1Env c a v) ev x = .valid x')
    (he : x.cacheEntry = s.entry c a) (ht : x.tbe = (s.l1 c).tbes a)
    (h₁ : x.requestNetworkOut = []) (h₂ : x.responseNetworkOut = []) (h₃ : x.callbacks = [])
    (k : Access) (c' : C) (a' : A) :
    (if c = c' ∧ a = a' then k.one ev.access else 0) + s.pending k c' a' =
      (if c = c' ∧ a = a' then k.answers x'.callbacks else 0) +
        (s.l1Finish c a x' f).pending k c' a' := by
  have hsends := doTransition_sends ⟨by simp [h₁], by simp [h₂], by simp_all⟩ hx
  have hstate : getState x.tbe x.cacheEntry = s.state c a := by rw [he, ht]; rfl
  have hacc := doTransition_access hx k
  rw [he] at hsends
  rw [hstate, h₃, Access.answers_nil] at hacc
  unfold System.pending
  by_cases hc : c = c'
  · subst hc
    rw [System.state_l1Finish hf hsends]
    by_cases ha : a = a'
    · subst ha
      simp only [Function.update_self, and_self, if_true]
      omega
    · simp [ha, Function.update_of_ne (Ne.symm ha)]
  · have hother : (s.l1Finish c a x' f).state c' a' = s.state c' a' := by
      simp [System.state, System.entry, System.l1Finish, Function.update_of_ne (Ne.symm hc)]
    simp [hc, hother]

/-- A cache transition that leaves the mandatory queue alone. -/
theorem queued_l1Finish {c : C} {a : A} {x : Ctx C D A n}
    {f : Cache C D A n cfg → Cache C D A n cfg}
    (hf : ∀ k, (f k).mandatoryQueue = k.mandatoryQueue) (k : Access) (c' : C) (a' : A) :
    (s.l1Finish c a x f).queued k c' a' = s.queued k c' a' := by
  unfold System.queued
  by_cases hc : c' = c
  · subst hc
    simp [System.l1Finish, hf]
  · simp [System.l1Finish, hc]

theorem queued_mandatory {c : C} {a : A} {x : Ctx C D A n} {r : RubyRequest A}
    {q : List (RubyRequest A)} (hq : (s.l1 c).mandatoryQueue = r :: q) (k : Access) (c' : C)
    (a' : A) :
    (s.l1Finish c a x fun k =>
        { k with mandatoryQueue := System.popped x.mandatoryQueueIn k.mandatoryQueue }).queued
          k c' a' +
      (if x.mandatoryQueueIn = none ∧ c = c' ∧ r.lineAddress = a'
        then k.one (Access.ofType r.type) else 0) = s.queued k c' a' := by
  unfold System.queued
  by_cases hc : c = c'
  · subst hc
    cases x.mandatoryQueueIn with
    | some r' => simp [System.l1Finish, System.popped]
    | none =>
        simp only [System.l1Finish, Function.update_self, System.popped, Option.isNone_none,
          if_true, hq, List.tail_cons, List.countP_cons, true_and, Access.one, decide_eq_true_eq]
        by_cases ha : r.lineAddress = a' <;> simp [ha]
  · simp [System.l1Finish, hc, Function.update_of_ne (Ne.symm hc)]

omit [DecidableEq C] [DecidableEq D] in
/-- A step that leaves the lines, the transient entries and the mandatory queues alone. -/
theorem balance_of_same (hl : ∀ c, (s'.l1 c).mandatoryQueue = (s.l1 c).mandatoryQueue ∧
      (s'.l1 c).tbes = (s.l1 c).tbes ∧ (s'.l1 c).cacheMemory = (s.l1 c).cacheMemory)
    (k : Access) (c : C) (a : A) :
    s'.queued k c a = s.queued k c a ∧ s'.pending k c a = s.pending k c a := by
  obtain ⟨hq, ht, hm⟩ := hl c
  simp only [System.queued, System.pending, System.state, System.entry, hq, ht, hm, and_self]

/-- A move of the mandatory queue takes up the request at its head, or replaces a line. -/
theorem Step.balance_mandatory {c : C} {victim : Fin cfg.assoc} {v : DataBlock n}
    {rep : Option (Report C D A n)} (h : Step s (.mandatory c victim v, rep) s') (k : Access)
    (c' : C) (a' : A) :
    s.queued k c' a' + s.pending k c' a' =
      Label.answers k c' a' ((.mandatory c victim v, rep) : Label C D A n cfg) +
        (s'.queued k c' a' + s'.pending k c' a') := by
  obtain ⟨r, q, a, x, hq, rfl, rfl, hx | ⟨rfl, hx⟩⟩ := h.mandatory_cases
  · -- a replacement answers nothing, and leaves the request where it is
    have hslot : x.mandatoryQueueIn = some r := replacement_slot hx
    have hb := balance_l1Finish (f := fun k =>
      { k with mandatoryQueue := System.popped x.mandatoryQueueIn k.mandatoryQueue })
      (fun _ => ⟨rfl, rfl⟩) hx rfl rfl rfl rfl rfl k c' a'
    have hqueue := queued_mandatory (x := x) (a := a) hq k c' a'
    have hev : k.one Event.Replacement.access = 0 := rfl
    simp only [hslot, reduceCtorEq, false_and, if_false, hev, ite_self, Label.answers] at *
    omega
  · unfold mandatoryQueueIn at hx
    cases hev : mandatoryRequestTypeToEvent r.type with
    | error f =>
        rw [hev] at hx
        cases hx
    | ok ev =>
        rw [hev] at hx
        have hpop : ev.pop = some .mPopMandatoryQueue := (requestType_work hev 0).1
        have hslot : x.mandatoryQueueIn = none := doTransition_pop hpop hx
        have hb := balance_l1Finish (f := fun k =>
          { k with mandatoryQueue := System.popped x.mandatoryQueueIn k.mandatoryQueue })
          (fun _ => ⟨rfl, rfl⟩) hx rfl rfl rfl rfl rfl k c' a'
        have hqueue := queued_mandatory (x := x) (a := r.lineAddress) hq k c' a'
        simp only [hslot, true_and, access_of_requestType hev, Label.answers] at *
        omega

/-- A transition that a message of a network triggers leaves the mandatory queue alone. -/
theorem balance_network {c : C} {a : A} {v : DataBlock n} {x x' : Ctx C D A n} {ev : Event}
    {f : Cache C D A n cfg → Cache C D A n cfg} {t : Option (RequestMsg C D A n)}
    {mv : Move C D A n cfg} (hf : ∀ k, (f k).tbes = k.tbes ∧ (f k).cacheMemory = k.cacheMemory)
    (hf' : ∀ k, (f k).mandatoryQueue = k.mandatoryQueue) (hev : ev.access = none)
    (hx : doTransition (s.l1Env c a v) ev x = .valid x')
    (he : x.cacheEntry = s.entry c a) (ht : x.tbe = (s.l1 c).tbes a)
    (h₁ : x.requestNetworkOut = []) (h₂ : x.responseNetworkOut = []) (h₃ : x.callbacks = [])
    (k : Access) (c' : C) (a' : A) :
    s.queued k c' a' + s.pending k c' a' =
      Label.answers k c' a' ((mv, some ⟨c, a, t, s.state c a, x'⟩) : Label C D A n cfg) +
        ((s.l1Finish c a x' f).queued k c' a' + (s.l1Finish c a x' f).pending k c' a') := by
  have hb := balance_l1Finish hf hx he ht h₁ h₂ h₃ k c' a'
  have hzero : k.one none = 0 := rfl
  rw [hev, hzero, ite_self] at hb
  simp only [queued_l1Finish hf', Label.answers]
  omega

/-- **A step keeps the balance**: what it issues and what was waiting is answered by it or waits
afterwards. -/
theorem Step.balance {l : Label C D A n cfg} (h : Step s l s') (k : Access) (c : C) (a : A) :
    l.issues k c a + (s.queued k c a + s.pending k c a) =
      l.answers k c a + (s'.queued k c a + s'.pending k c a) := by
  obtain ⟨mv, rep⟩ := l
  -- the steps that report nothing and touch no line and no mandatory queue
  have hquiet : (∀ c, (s'.l1 c).mandatoryQueue = (s.l1 c).mandatoryQueue ∧
      (s'.l1 c).tbes = (s.l1 c).tbes ∧ (s'.l1 c).cacheMemory = (s.l1 c).cacheMemory) →
      rep = none → 0 + (s.queued k c a + s.pending k c a) =
        Label.answers k c a ((mv, rep) : Label C D A n cfg) +
          (s'.queued k c a + s'.pending k c a) := by
    intro hl hrep
    obtain ⟨hq, hp⟩ := balance_of_same hl k c a
    rw [hq, hp, hrep]
    rfl
  by_cases hmand : ∃ c victim v, mv = .mandatory c victim v
  · obtain ⟨c', victim, v, rfl⟩ := hmand
    have := h.balance_mandatory k c a
    simp only [Label.issues, Nat.zero_add]
    exact this
  cases h.carried with
  | issue c' r =>
      have hp : System.pending { s with
          l1 := Function.update s.l1 c'
            { s.l1 c' with mandatoryQueue := (s.l1 c').mandatoryQueue ++ [r] }
          time := s.time + 1 } k c a = s.pending k c a := by
        by_cases hc : c = c'
        · subst hc
          simp [System.pending, System.state, System.entry]
        · simp [System.pending, System.state, System.entry, hc]
      rw [hp]
      by_cases hc : c' = c
      · subst hc
        by_cases ha : r.lineAddress = a
        · simp [Label.issues, Label.answers, System.queued, Access.one, ha]
          omega
        · simp [Label.issues, Label.answers, System.queued, ha]
      · simp [Label.issues, Label.answers, System.queued, hc, Function.update_of_ne (Ne.symm hc)]
  | replacement c victim v => exact absurd ⟨c, victim, v, rfl⟩ hmand
  | mandatory c victim v => exact absurd ⟨c, victim, v, rfl⟩ hmand
  | forward c' m q x hq hx =>
      unfold forwardRequestNetworkIn at hx
      cases hev : forwardEvent m with
      | error f =>
          rw [hev] at hx
          cases hx
      | ok ev =>
          rw [hev] at hx
          simp only [Label.issues, Nat.zero_add]
          refine balance_network ?_ ?_ (forwardEvent_access hev) hx rfl rfl rfl rfl rfl k c a
          · exact fun _ => ⟨rfl, rfl⟩
          · exact fun _ => rfl
  | response c' v m q x hq hx =>
      unfold responseNetworkIn at hx
      cases hev : responseEvent ((s.l1 c').tbes m.address) m with
      | error f =>
          rw [hev] at hx
          cases hx
      | ok ev =>
          rw [hev] at hx
          simp only [Label.issues, Nat.zero_add]
          refine balance_network ?_ ?_ (responseEvent_access hev) hx rfl rfl rfl rfl rfl k c a
          · exact fun _ => ⟨rfl, rfl⟩
          · exact fun _ => rfl
  | request | dirResponse | memory | memAnswer | deliverRequest | deliverToDir =>
      exact hquiet (fun _ => ⟨rfl, rfl, rfl⟩) rfl
  | deliverForward d c' | deliverToCache src c' =>
      refine hquiet (fun c => ?_) rfl
      by_cases hc : c = c'
      · subst hc
        simp
      · simp [hc]

/-- **The balance of a run.** -/
theorem Run.balance {mem : A → DataBlock n} {ls : List (Label C D A n cfg)} (h : Run mem ls s)
    (k : Access) (c : C) (a : A) :
    issued k c a ls = answered k c a ls + (s.queued k c a + s.pending k c a) := by
  induction h with
  | start hs =>
      subst hs
      simp [issued, answered, System.queued, System.pending, System.state, System.entry,
        System.init, getState, State.awaits, Access.one]
  | snoc _ hs ih =>
      have hstep := hs.balance k c a
      simp only [issued, answered, weigh_append, weigh_cons, weigh_nil] at ih ⊢
      omega

/-! ### Coming to rest -/

omit [DecidableEq C] [DecidableEq D] [DecidableEq A] in
/-- Only transient states stall. -/
theorem L1Cache.doTransition_stall {env : Env C D A n} {ev : Event} {x : Ctx C D A n}
    (h : doTransition env ev x = .stall) : getState x.tbe x.cacheEntry ∉ [.I, .S, .M] := by
  unfold doTransition at h
  split at h
  · cases h
  · next actions next ht =>
      split at h
      · next hz =>
          cases hst : getState x.tbe x.cacheEntry <;> rw [hst] at ht <;> cases ev <;> cases ht <;>
            first | decide | exact absurd hz (by decide)
      · split at h <;> cases h

/-- A mandatory queue stalls for a block that is in a transient state. -/
theorem System.exec_mandatory_stall {c : C} {victim : Fin cfg.assoc} {v : DataBlock n}
    (h : s.exec (.mandatory c victim v) = .stall) : ∃ a, s.state c a ∉ [.I, .S, .M] := by
  have hmap : ∀ {α β : Type} {f : α → β} {o : Outcome α}, o.map f = .stall → o = .stall := by
    intro α β f o ho
    cases o <;> first | rfl | cases ho
  simp only [System.exec] at h
  split at h
  · cases h
  · next r q hq =>
      split at h
      · split at h
        · cases h
        · next a ha => exact ⟨a, doTransition_stall (hmap h)⟩
      · have hst := hmap h
        unfold mandatoryQueueIn at hst
        cases hev : mandatoryRequestTypeToEvent r.type with
        | error f =>
            rw [hev] at hst
            cases hst
        | ok ev =>
            rw [hev] at hst
            exact ⟨r.lineAddress, doTransition_stall hst⟩

/-- **A state from which only new requests lead is drained.** -/
theorem Coherent.drained {value : A → DataBlock n} (h : Coherent value s) (hsort : s.Sorted)
    (htype : ∀ c, ∀ r ∈ (s.l1 c).mandatoryQueue,
      (r.type = .LD ∨ r.type = .IFETCH) ∨ r.type = .ST ∨ r.type = .ATOMIC)
    (hassoc : 0 < cfg.assoc) (hstuck : ∀ l s', ¬ Busy s l s') : s.Drained := by
  have hquiet : ∀ a, s.Quiescent a := by
    intro a
    by_contra ha
    rcases h.progresses hsort ha with ⟨mv, out, hmv, hx⟩ | ⟨mv, s₁, hmv, -, hx, -⟩
    · refine hstuck (mv, out.2) out.1 ⟨hx, ?_⟩
      rintro c r rfl
      cases hmv
    · refine hstuck (mv, none) s₁ ⟨hx, ?_⟩
      rintro c r rfl
      cases hmv
  refine ⟨hquiet, fun c => ?_⟩
  cases hq : (s.l1 c).mandatoryQueue with
  | nil => rfl
  | cons r q =>
      -- all lines are in stable states, so that the head of the queue can be taken up
      rcases h.exec_mandatory hq (htype c r (by simp [hq])) ⟨0, hassoc⟩ default with hst | ⟨out, hx⟩
      · obtain ⟨a, ha⟩ := System.exec_mandatory_stall hst
        exact absurd (((hquiet a).stable h).1 c).1 ha
      · exact absurd ⟨hx, nofun⟩ (hstuck (_, out.2) out.1)

/-- The runs in which the processors issue supported requests only. -/
abbrev SupportedRun (mem : A → DataBlock n) :
    List (Label C D A n cfg) → System C D A n cfg → Prop :=
  Lts.Run (· = System.init cfg mem) fun s l s' => Step s l s' ∧ l.1.Supported

omit [DecidableEq C] [DecidableEq D] [DecidableEq A] in
theorem Move.supported_of_ne_issue {mv : Move C D A n cfg} (h : ∀ c r, mv ≠ .issue c r) :
    mv.Supported := by
  cases mv with
  | issue c r => exact absurd rfl (h c r)
  | _ => trivial

/-- **Every request is answered exactly once**, with one directory.  At any moment the requests of a
kind that a processor has issued for a block are those that have been answered, those in its queue,
and the pending miss; and once no step but a new request is possible, nothing is in flight, the
queues are empty, and there are as many answers as requests. -/
theorem requests_answered [Subsingleton D] (hassoc : 0 < cfg.assoc) {mem : A → DataBlock n}
    {ls : List (Label C D A n cfg)} (h : SupportedRun mem ls s) :
    (∀ k c a, issued k c a ls = answered k c a ls + (s.queued k c a + s.pending k c a)) ∧
      ((∀ l s', ¬ Busy s l s') →
        s.Drained ∧ ∀ k c a, answered k c a ls = issued k c a ls) := by
  have hrun : Run mem ls s := h.mono fun _ _ _ hs => hs.1
  refine ⟨hrun.balance, fun hstuck => ?_⟩
  obtain ⟨value, hcoh⟩ := Reachable.coherent ⟨ls, hrun⟩
  have hdrained := hcoh.drained (Reachable.sorted ⟨ls, hrun⟩)
    (SupportedReachable.type ⟨ls, h⟩) hassoc hstuck
  refine ⟨hdrained, fun k c a => ?_⟩
  have hstate : s.state c a ∈ [.I, .S, .M] := (((hdrained.quiescent a).stable hcoh).1 c).1
  have hq : s.queued k c a = 0 := by simp [System.queued, hdrained.mandatoryQueue c]
  have hp : s.pending k c a = 0 := by
    unfold System.pending
    simp only [List.mem_cons, List.not_mem_nil, or_false] at hstate
    rcases hstate with e | e | e <;> rw [e] <;> rfl
  rw [hrun.balance k c a, hq, hp, Nat.add_zero]

/-- The small system with one directory comes to rest after a store has been issued. -/
theorem requests_answered_single : ∃ ls s',
    SupportedRun (fun _ => default) ((after singleAsk).1 ++ ls) s' ∧ s'.Drained ∧
      ∀ k c a, answered k c a ((after singleAsk).1 ++ ls) =
        issued k c a ((after singleAsk).1 ++ ls) := by
  have hlt : ∀ (s : System (Fin 4) Unit (Fin 2) 1 single) l s', Busy s l s' → s'.work < s.work :=
    fun _ _ _ hs => hs.work_lt
  obtain ⟨ls, s', hr, hstuck⟩ := Lts.exists_stuck hlt (after singleAsk).2
  have h₀ : SupportedRun (fun _ => default) (after singleAsk).1 (after singleAsk).2 :=
    play_after (by simp [singleAsk, Move.Supported]) (by decide +kernel)
  have hrun := h₀.append (hr.mono fun _ _ _ hs => ⟨hs.1, Move.supported_of_ne_issue hs.2⟩)
  exact ⟨ls, s', hrun, (requests_answered (by decide) hrun).2 hstuck⟩

end Msi
