/-
**Notices of evictions.**

An out-of-order core has to learn when a block it has loaded goes to another core, so that it can
replay loads that have become stale; the cache tells it with `forward_eviction_to_cpu`.  This module
compares the two: the transitions by which a cache gives a block up, and those that tell the core.

A cache gives a block up from `S`, `SM_AD` and `SI_A`, by acknowledging an invalidation, and from
`M` and `MI_A`, by answering a forwarded `GETM`.  The transitions from `S` and `M` tell the core,
the others do not.  For `SI_A` and `MI_A` the notice comes with the acknowledgement of the
writeback, which is later; for `SM_AD` it never comes, as the cache goes on to `IM_AD` and to `M`.

Main definitions:

* `Msi.Report.GivesUp` — a transition gives its block up to another core;
* `Msi.loadedSince` — a load of a block has completed since the last notice;
* `Msi.Notified` — if a block that was loaded is given up, the core is told.

Main results:

* `Msi.notified_iff` — the core is told unless the block is given up from `SM_AD`, `SI_A` or `MI_A`;
* `Msi.eviction_missed` — a run in which the core is not told.
-/

import ArchLab.MsiSafety

set_option relaxedAutoImplicit false
set_option autoImplicit false

namespace Msi

open L1Cache (Callback)

/-! ### Giving a block up -/

section Notices

variable {C D A : Type} [DecidableEq C] [DecidableEq A] {n : ℕ} {cfg : Config D A}

/-- The transition acknowledges an invalidation, or supplies the block in answer to `GETM`. -/
def Report.GivesUp (rep : Report C D A n) : Prop :=
  (∃ m ∈ rep.result.responseNetworkOut, m.type = .ACK) ∨
    rep.trigger.map RequestMsg.type = some .GETM ∧
      ∃ m ∈ rep.result.responseNetworkOut, m.type = .DATA_FROM_OWNER

instance (rep : Report C D A n) : Decidable rep.GivesUp := inferInstanceAs (Decidable (_ ∨ _))

/-- What a step tells one sequencer about a block. -/
def noticesOf (c : C) (a : A) (rep : Option (Report C D A n)) : List (Callback n) :=
  ((rep.filter fun r => r.cache = c ∧ r.address = a).map fun r => r.result.callbacks).getD []

/-- Whether a load has completed since the last notice of an eviction. -/
def Callback.loaded (b : Bool) : Callback n → Bool
  | .read _ => true
  | .write _ => b
  | .eviction => false

/-- Whether the core of a cache has completed a load of a block since it was last told about its
eviction. -/
def loadedSince (ls : List (Label C D A n cfg)) (c : C) (a : A) : Bool :=
  (ls.flatMap fun l => noticesOf c a l.2).foldl Callback.loaded false

/-- If the transition gives up a block that was loaded since the last notice, it tells the core. -/
def Notified (ls : List (Label C D A n cfg)) (rep : Report C D A n) : Prop :=
  rep.GivesUp → loadedSince ls rep.cache rep.address = true → .eviction ∈ rep.result.callbacks

end Notices

/-! ### Which transitions give a block up -/

namespace L1Cache

/-- Invalidations are acknowledged when they arrive only. -/
theorem event_of_fiSendInvAck {st next : State} {ev : Event} {actions : List Action}
    (h : transition st ev = some (actions, next)) (ha : .fiSendInvAck ∈ actions) : ev = .Inv := by
  cases ev with
  | Inv => rfl
  | _ =>
      exfalso
      cases st <;> cases h <;> simp at ha

variable {C D A : Type} {n : ℕ} {env : Env C D A n}

/-- Among the actions only one sends an acknowledgement. -/
theorem Action.exec_ack {act : Action} {x x' : Ctx C D A n} (hx : act.exec env x = .ok x')
    {m : ResponseMsg C D A n} (hm : m ∈ x'.responseNetworkOut) (ht : m.type = .ACK) :
    m ∈ x.responseNetworkOut ∨ act = .fiSendInvAck := by
  have hsend : ∀ {type : CoherenceResponseType} {dest : MachineID C D} {d : DataBlock n} {k : ℤ},
      m ∈ (x.sendResponse (env.response type dest d k)).responseNetworkOut → type ≠ .ACK →
      m ∈ x.responseNetworkOut := by
    intro type dest d k hm hne
    rcases List.mem_append.1 hm with hm | hm
    · exact hm
    · rw [List.mem_singleton.1 hm] at ht
      exact absurd ht hne
  cases act with
  | fiSendInvAck => exact .inr rfl
  | asIssueGetS | amIssueGetM | hDeallocateL1CacheBlock | zStall =>
      cases hx
      exact .inl hm
  | deSendDataFromCacheToDir | deeSendDataFromTBEToDir =>
      obtain ⟨_, -, hx⟩ := need_bind_eq_ok.1 hx
      cases hx
      exact .inl (hsend hm nofun)
  | eSendDataFromCacheToRequestor | eeSendDataFromTBEToRequestor =>
      obtain ⟨_, -, hx⟩ := need_bind_eq_ok.1 hx
      obtain ⟨_, -, hx⟩ := need_bind_eq_ok.1 hx
      cases hx
      exact .inl (hsend hm nofun)
  | iAllocateL1CacheBlock =>
      simp only [Action.exec] at hx
      split at hx <;> split at hx <;> cases hx <;> exact .inl hm
  | vAllocateTBE =>
      simp only [Action.exec] at hx
      split at hx <;> cases hx
      exact .inl hm
  | forwardEvictionToCpu =>
      cases hx
      split at hm <;> exact .inl hm
  | sxStoreHit | uWriteDataToCache | rxLoadHit | qUpdateAckCount | xCopyDataFromCacheToTBE =>
      obtain ⟨_, -, hx⟩ := need_bind_eq_ok.1 hx
      obtain ⟨_, -, hx⟩ := need_bind_eq_ok.1 hx
      cases hx
      exact .inl hm
  | bsIssuePUTS | bmIssuePUTM | sStoreHit | mPopMandatoryQueue | nPopResponseQueue
  | oPopForwardedRequestQueue | pProfileMiss | rLoadHit | wDeallocateTBE =>
      obtain ⟨_, -, hx⟩ := need_bind_eq_ok.1 hx
      cases hx
      exact .inl hm

/-- A transition sends an acknowledgement when an invalidation arrives only. -/
theorem trigger_ack {ev : Except Fault Event} {x x' : Ctx C D A n} (h₀ : x.responseNetworkOut = [])
    (hx : trigger env x ev = .valid x') {m : ResponseMsg C D A n} (hm : m ∈ x'.responseNetworkOut)
    (ht : m.type = .ACK) : ev = .ok .Inv := by
  cases ev with
  | error f => cases hx
  | ok ev =>
      change doTransition env ev x = .valid x' at hx
      unfold doTransition at hx
      split at hx
      · cases hx
      · next actions next htr =>
          split at hx
          · cases hx
          · split at hx
            · cases hx
            · next y hy =>
                cases hx
                -- whatever the actions so far have sent, an acknowledgement is due to one of them
                have hsent : ∀ m ∈ y.responseNetworkOut, m.type = .ACK →
                  .fiSendInvAck ∈ actions := by
                  refine Refine.foldlM_ok (P := fun z : Ctx C D A n =>
                    ∀ m ∈ z.responseNetworkOut, m.type = .ACK → .fiSendInvAck ∈ actions) ?_ ?_ hy
                  · intro act hact z z' hz hexec m hm ht
                    rcases Action.exec_ack hexec hm ht with hm | rfl
                    · exact hz m hm ht
                    · exact hact
                  · simp [h₀]
                rw [event_of_fiSendInvAck htr (hsent m hm ht)]

/-- The event of a processor request is no invalidation. -/
theorem mandatoryRequestTypeToEvent_ne_inv (type : RubyRequestType) :
    mandatoryRequestTypeToEvent type ≠ .ok .Inv := by
  cases type <;> exact nofun

/-- The event of a response is no invalidation. -/
theorem responseEvent_ne_inv (tbe : Option (TBE n)) (m : ResponseMsg C D A n) :
    responseEvent tbe m ≠ .ok .Inv := by
  unfold responseEvent
  split
  · split
    · rintro ⟨⟩
    · cases tbe with
      | none => rintro ⟨⟩
      | some t =>
          simp only [need, bind, Except.bind, pure, Except.pure]
          split <;> rintro ⟨⟩
  · rintro ⟨⟩
  · cases tbe with
    | none => rintro ⟨⟩
    | some t =>
        simp only [need, bind, Except.bind, pure, Except.pure]
        split <;> rintro ⟨⟩
  · rintro ⟨⟩

/-- An invalidation on the forward network. -/
theorem forwardEvent_eq_inv {m : RequestMsg C D A n} (h : forwardEvent m = .ok .Inv) :
    m.type = .INV := by
  unfold forwardEvent at h
  split at h
  · cases h
  · cases h
  · assumption
  · cases h
  · cases h

end L1Cache

section Steps

variable {C D A : Type} [DecidableEq C] [DecidableEq D] [DecidableEq A] {n : ℕ} {cfg : Config D A}
  {s s' : System C D A n cfg}

/-- **A block is given up** when a cache processes an invalidation or a `GETM` that was forwarded to
it. -/
theorem Step.givesUp {mv : Move C D A n cfg} {rep : Report C D A n} (h : Step s (mv, some rep) s')
    (hg : rep.GivesUp) :
    ∃ m q, (s.l1 rep.cache).forwardToCache = m :: q ∧ (m.type = .INV ∨ m.type = .GETM) ∧
      rep.address = m.address ∧ rep.state = s.state rep.cache m.address ∧
      L1Cache.forwardRequestNetworkIn (s.l1Env rep.cache m.address default)
        (s.entry rep.cache m.address) ((s.l1 rep.cache).tbes m.address) m = .valid rep.result := by
  cases h.carried with
  | replacement c victim v r a x hfull ha hx =>
      obtain ⟨m, hm, ht⟩ | ⟨e, -⟩ := hg
      · cases L1Cache.trigger_ack rfl hx hm ht
      · cases e
  | mandatory c victim v r x hroom hx =>
      obtain ⟨m, hm, ht⟩ | ⟨e, -⟩ := hg
      · exact absurd (L1Cache.trigger_ack rfl hx hm ht)
          (L1Cache.mandatoryRequestTypeToEvent_ne_inv _)
      · cases e
  | response c v m q x hq hx =>
      obtain ⟨m', hm, ht⟩ | ⟨e, -⟩ := hg
      · exact absurd (L1Cache.trigger_ack rfl hx hm ht) (L1Cache.responseEvent_ne_inv _ _)
      · cases e
  | forward c m q x hq hx =>
      refine ⟨m, q, hq, ?_, rfl, rfl, hx⟩
      obtain ⟨m', hm, ht⟩ | ⟨e, -⟩ := hg
      · exact .inl (L1Cache.forwardEvent_eq_inv (L1Cache.trigger_ack rfl hx hm ht))
      · exact .inr (Option.some.inj e)

omit [DecidableEq C] in
/-- The states from which a cache acknowledges an invalidation. -/
theorem Phase.st_of_inv {V : Type} {p : Phase C V} {i : C × ℕ} (hi : p.inv = some i)
    (hl : p.loading = false) : p.st ∈ [.S, .SM_AD, .SI_A] := by
  cases p with
  | shared | upgradeSent | upgradeFwd | evictS | evictSAcked => simp
  | loadWait => cases hl
  | _ => cases hi

omit [DecidableEq C] in
/-- The states from which an owner hands its block over. -/
theorem Phase.st_of_serving {V : Type} {p : Phase C V} (hs : p.serving = true) :
    p.st ∈ [.M, .MI_A] := by
  cases p with
  | modified | evictM | evictAcked => simp
  | _ => cases hs

omit [DecidableEq A] in
/-- **What the core is told** when an invalidation or a forwarded `GETM` is processed. -/
theorem Rel.forward_callbacks {home : D} {b : Block C D A n} {t : Abs C (DataBlock n)}
    (h : Rel home b t) {g : DataBlock n} (hinv : t.Inv g) {env : L1Cache.Env C D A n} {c : C}
    {m : RequestMsg C D A n} {q : List (RequestMsg C D A n)} {x : L1Cache.Ctx C D A n}
    (hq : b.fwd c = m :: q) (hm : m.type = .INV ∨ m.type = .GETM)
    (hx : L1Cache.forwardRequestNetworkIn env (b.entry c) (b.tbe c) m = .valid x) :
    (t.ph c).st ∈ [.S, .M] ∧ x.callbacks = env.evictions ∨
      (t.ph c).st ∈ [.SM_AD, .SI_A, .MI_A] ∧ x.callbacks = [] := by
  cases hi : (t.ph c).inv with
  | some i =>
      obtain ⟨r, k⟩ := i
      cases hl : (t.ph c).loading with
      | true =>
          exfalso
          obtain ⟨fs, hfs⟩ := Phase.fwds_of_inv hi
          obtain ⟨⟨hm, -⟩, -⟩ := h.fwd_pop hq hfs
          rw [h.entry, h.tbe, L1Cache.forward_inv_stall hm hl] at hx
          cases hx
      | false =>
          obtain ⟨x', -, hx', -, hk, -⟩ := h.inv_sim env hinv hq hi hl
          obtain rfl := Outcome.valid.inj (hx'.symm.trans hx)
          have hst := Phase.st_of_inv hi hl
          generalize (t.ph c).st = st at hk hst
          rw [hk]
          simp only [List.mem_cons, List.not_mem_nil, or_false] at hst
          rcases hst with rfl | rfl | rfl <;> simp
  | none =>
      cases ho : (t.ph c).own with
      | some o =>
          obtain ⟨k, r, time⟩ := o
          obtain ⟨fs, hfs⟩ := Phase.fwds_of_own hi ho
          obtain ⟨⟨hk, -⟩, -⟩ := h.fwd_pop hq hfs
          cases hs : (t.ph c).serving with
          | false =>
              exfalso
              rw [h.entry, h.tbe, L1Cache.forward_own_stall (o := (k, r, time)) hk ho hs] at hx
              cases hx
          | true =>
              cases k with
              | GETS => rcases hm with hm | hm <;> rw [hm] at hk <;> cases hk
              | GETM =>
                  obtain ⟨x', -, hx', -, hk, -⟩ := h.getM_sim env hinv hq ho hs
                  obtain rfl := Outcome.valid.inj (hx'.symm.trans hx)
                  have hst := Phase.st_of_serving hs
                  generalize (t.ph c).st = st at hk hst
                  rw [hk]
                  simp only [List.mem_cons, List.not_mem_nil, or_false] at hst
                  rcases hst with rfl | rfl <;> simp
      | none =>
          -- the message is the acknowledgement of a writeback
          exfalso
          have ha : (t.ph c).acked = true := by
            refine Phase.acked_of_fwds hi ho fun e => ?_
            have := h.fwd c
            rw [hq, e] at this
            cases this
          have hfs : (t.ph c).fwds = [.wbAck] := by
            unfold Phase.fwds
            rw [hi, ho, ha]
            rfl
          obtain ⟨hk, -⟩ := h.fwd_pop hq hfs
          rcases hm with hm | hm <;> rw [show m.type = _ from hk] at hm <;> cases hm

/-- **When the core is told.** With `send_evictions`, a transition that gives up a block its core
has loaded tells the core exactly if it does not start from `SM_AD`, `SI_A` or `MI_A`. -/
theorem notified_iff (hev : cfg.sendEvictions = true) {mem : A → DataBlock n}
    {ls : List (Label C D A n cfg)} (h : Run mem ls s) {mv : Move C D A n cfg}
    {rep : Report C D A n} (hs : Step s (mv, some rep) s') :
    Notified ls rep ↔ (rep.GivesUp → loadedSince ls rep.cache rep.address = true →
      rep.state ∉ [.SM_AD, .SI_A, .MI_A]) := by
  unfold Notified
  refine forall_congr' fun hg => imp_congr_right fun _ => ?_
  obtain ⟨m, q, hq, hm, -, hst, hx⟩ := hs.givesUp hg
  obtain ⟨t, hr, hi⟩ := (Run.coherent h).block m.address
  obtain ⟨l, hl, -⟩ := System.block_popForward_self (h := none) hq rfl
  have hstate : rep.state = (t.ph rep.cache).st := hst.trans (hr.state rep.cache)
  have hevict : (s.l1Env rep.cache m.address default).evictions = [.eviction] := by
    simp [L1Cache.Env.evictions, System.l1Env, hev]
  rcases hr.forward_callbacks hi hl hm hx with ⟨hmem, hk⟩ | ⟨hmem, hk⟩
  · rw [hk, hevict, hstate]
    generalize (t.ph rep.cache).st = st at hmem
    simp only [List.mem_cons, List.not_mem_nil, or_false] at hmem
    rcases hmem with rfl | rfl <;> simp
  · rw [hk, hstate]
    exact ⟨fun hnil => (List.not_mem_nil hnil).elim, fun hn => (hn hmem).elim⟩

end Steps

/-- One cache loads a block, and another one stores to it. -/
def loadThenStore : List DemoMove :=
  ask 0 0 .LD ++ fetch 0 0 ++ ask 1 0 .ST ++ [.deliverForward 0 0]

theorem notified_demo :
    ∃ rep s', Step (after loadThenStore).2 (.forward 0, some rep) s' ∧ rep.GivesUp ∧
      loadedSince (after loadThenStore).1 rep.cache rep.address = true ∧
      .eviction ∈ rep.result.callbacks := by
  have h : ((after loadThenStore).2.exec (.forward 0)).holds (fun out => match out.2 with
      | some rep => decide (rep.state = .S ∧ rep.GivesUp ∧
          loadedSince (after loadThenStore).1 rep.cache rep.address = true)
      | none => false) = true := by decide +kernel
  obtain ⟨⟨s', rep⟩, hx, hp⟩ := Outcome.holds_iff.1 h
  cases rep with
  | none => cases hp
  | some rep =>
      obtain ⟨hst, hg, hl⟩ := of_decide_eq_true hp
      have hiff := notified_iff rfl (run_after (by decide +kernel)) hx
      exact ⟨rep, s', hx, hg, hl, hiff.2 (fun _ _ => by rw [hst]; decide) hg hl⟩

/-! ### A notice that is missing -/

/-- Two caches load a block, and the first one hits it once more.  Both store to it, but the request
of the second one reaches the directory first, and its invalidation finds the first cache in
`SM_AD`. -/
def raceToStore : List DemoMove :=
  ask 0 0 .LD ++ fetch 0 0 ++ ask 1 0 .LD ++
    [.deliverResponse (.Directory 0) (.L1Cache 1), .response 1 default,
      .issue 0 ⟨0, .LD⟩, .mandatory 0 (0 : Fin 2) default] ++
    ask 1 0 .ST ++ [.issue 0 ⟨0, .ST⟩, .mandatory 0 (0 : Fin 2) default, .deliverForward 0 0]

/-- **A missing notice.** The first cache acknowledges the invalidation of a block it has loaded,
and does not tell its core. -/
theorem eviction_missed :
    demo.sendEvictions = true ∧ Run (fun _ => default) (after raceToStore).1 (after raceToStore).2 ∧
      ∃ rep s', Step (after raceToStore).2 (.forward 0, some rep) s' ∧ rep.GivesUp ∧
        loadedSince (after raceToStore).1 rep.cache rep.address = true ∧
        .eviction ∉ rep.result.callbacks := by
  refine ⟨rfl, run_after (by decide +kernel), ?_⟩
  have h : ((after raceToStore).2.exec (.forward 0)).holds (fun out => match out.2 with
      | some rep => decide (rep.GivesUp ∧
          loadedSince (after raceToStore).1 rep.cache rep.address = true ∧
          .eviction ∉ rep.result.callbacks)
      | none => false) = true := by decide +kernel
  obtain ⟨⟨s', rep⟩, hx, hp⟩ := Outcome.holds_iff.1 h
  cases rep with
  | none => cases hp
  | some rep => exact ⟨rep, s', hx, of_decide_eq_true hp⟩

end Msi
