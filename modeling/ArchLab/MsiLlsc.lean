/-
**Load-linked and store-conditional.**

A load-linked sets the lock of its line, and a store-conditional succeeds if it finds the lock set.
A processor that reads with the one and writes with the other relies on this: if the write succeeds,
nobody has written to the block in between.

This module says exactly when a store-conditional succeeds: the line has not left the cache since
some load-linked of the same processor for the block, and the processor has made no other store to
the block since.  It then compares this with what the processor relies on.  A cache that loses the
right to read a block gives up its line, with one exception: a line in `SM_AD` that is invalidated
moves to `IM_AD` and stays.  There the lock survives the store of another processor, and when the
data of that store arrives, the store-conditional goes on to succeed.  So a successful
store-conditional either is as it should be, or its cache has been invalidated in `SM_AD` since the
load-linked; and the second case occurs.

Main definitions:

* `Msi.RubyLabel.links`, `Msi.RubyLabel.stores`, `Msi.RubyLabel.loses`, `Msi.RubyLabel.bypasses` —
  what a step does to a block;
* `Msi.LockCase` — what a step does to the lock of a line;
* `Msi.LockOk` — what a lock that is set says about the past.

Main results:

* `Msi.LockOk.step`, `Msi.RubyRun.lockOk` — a step, and a run, keep this;
* `Msi.storeConditional_iff` — **when a store-conditional succeeds**;
* `Msi.storeConditional_sound` — **what its success means**, and
  `Msi.storeConditional_sound_bypass`, a run in which it does not mean what it should.
-/

import ArchLab.MsiHistory
import ArchLab.Since

set_option relaxedAutoImplicit false
set_option autoImplicit false

namespace Msi

open L1Cache

/-! ### What a step does to a block -/

section Labels

variable {C D A : Type} {n : ℕ} {cfg : Config D A}

namespace RubyLabel

/-- A load-linked of a processor for a block is answered. -/
def links (c : C) (a : A) (l : RubyLabel C D A n cfg) : Prop :=
  ∃ d ∈ l.done, d.cache = c ∧ d.address = a ∧ d.type = .Load_Linked

/-- A store of some processor to a block is answered. -/
def stores (a : A) (l : RubyLabel C D A n cfg) : Prop :=
  ∃ d ∈ l.done, d.address = a ∧ d.type ∉ loadTypes

/-- A store of a processor to a block is answered. -/
def storesOf (c : C) (a : A) (l : RubyLabel C D A n cfg) : Prop :=
  ∃ d ∈ l.done, d.cache = c ∧ d.address = a ∧ d.type ∉ loadTypes

/-- A cache gives a line up. -/
def loses (c : C) (a : A) (l : RubyLabel C D A n cfg) : Prop :=
  ∃ mv rep, l.step = some (mv, some rep) ∧ rep.cache = c ∧ rep.address = a ∧
    rep.result.cacheEntry = none

/-- A cache serves a forwarded request for a block in `SM_AD`, which is an invalidation, and keeps
its line. -/
def bypasses (c : C) (a : A) (l : RubyLabel C D A n cfg) : Prop :=
  ∃ mv rep, l.step = some (mv, some rep) ∧ rep.cache = c ∧ rep.address = a ∧ rep.state = .SM_AD ∧
    rep.trigger.isSome = true

end RubyLabel

/-! ### Transitions -/

/-- A store is done on the way to `M`. -/
theorem L1Cache.states_of_store {st next : State} {ev : Event} {actions : List Action}
    (h : transition st ev = some (actions, next))
    (hs : 0 < actions.countP fun act => act.access = some .store) :
    st ∈ [.M, .IM_AD, .SM_AD, .IM_A, .SM_A] ∧ next = .M := by
  cases st <;> cases ev <;> cases h <;> first | decide | exact absurd hs (by decide)

/-- A transition that does no store leads to a readable state from a readable one or from `IS_D`, to
`IM_AD` and `IM_A` from these two, from `I`, or by an invalidation from `SM_AD`, and to `IS_D` from
`I`. -/
theorem L1Cache.states_of_transition {st next : State} {ev : Event} {actions : List Action}
    (h : transition st ev = some (actions, next)) (hz : .zStall ∉ actions)
    (hs : actions.countP (fun act => act.access = some .store) = 0) :
    (next ∈ [.S, .M, .SM_AD, .SM_A] → st ∈ [.S, .M, .SM_AD, .SM_A] ∨ st = .IS_D) ∧
      (next ∈ [.IM_AD, .IM_A] → st ∈ [.IM_AD, .IM_A] ∨ st = .I ∨ st = .SM_AD ∧ ev = .Inv) ∧
      (next = .IS_D → st = .I) := by
  cases st <;> cases ev <;> cases h <;>
    first | decide | exact absurd (by decide) hz | exact absurd hs (by decide)

end Labels

variable {C D A : Type} [DecidableEq C] [DecidableEq D] [DecidableEq A] {n : ℕ} {cfg : Config D A}

/-- A step that reports nothing leaves all lines and transient entries alone. -/
theorem Step.quiet_l1 {s s' : System C D A n cfg} {mv : Move C D A n cfg}
    (h : Step s (mv, none) s') (c : C) :
    (s'.l1 c).tbes = (s.l1 c).tbes ∧ (s'.l1 c).cacheMemory = (s.l1 c).cacheMemory := by
  cases h.carried with
  | issue c' r =>
      by_cases hc : c = c'
      · subst hc
        simp
      · simp [hc]
  | request | dirResponse | memory | memAnswer | deliverRequest | deliverToDir => exact ⟨rfl, rfl⟩
  | deliverForward d c' | deliverToCache src c' =>
      by_cases hc : c = c'
      · subst hc
        simp
      · simp [hc]

/-- **A step leaves the line and the state of a block alone**, unless it reports a transition on
it. -/
theorem Step.frame {s s' : System C D A n cfg} {mv : Move C D A n cfg}
    {rep : Option (Report C D A n)} (h : Step s (mv, rep) s') (c : C) (a : A)
    (hne : ∀ r, rep = some r → ¬ (r.cache = c ∧ r.address = a)) :
    s'.entry c a = s.entry c a ∧ s'.state c a = s.state c a := by
  cases rep with
  | none =>
      obtain ⟨ht, hm⟩ := h.quiet_l1 c
      simp only [System.state, System.entry, ht, hm, and_self]
  | some r =>
      obtain ⟨ev, x, f, htr, rfl, hf⟩ := h.transacts
      by_cases hc : r.cache = c
      · subst hc
        have ha : a ≠ r.address := fun e => hne r rfl ⟨rfl, e.symm⟩
        have hentry : (s.l1Finish r.cache r.address r.result f).entry r.cache a =
            s.entry r.cache a := by
          simp only [System.entry, System.l1Finish, Function.update_self, hf]
          exact CacheMemory.lookup_assign_of_ne _ _ ha
        refine ⟨hentry, ?_⟩
        rw [System.state_l1Finish hf htr.sends, Function.update_of_ne ha]
      · simp [System.state, System.entry, System.l1Finish, Function.update_of_ne (Ne.symm hc)]

/-- The line and the state of the block that a step reports a transition on. -/
theorem Step.own {s s' : System C D A n cfg} {mv : Move C D A n cfg} {rep : Report C D A n}
    (h : Step s (mv, some rep) s') :
    s'.entry rep.cache rep.address = rep.result.cacheEntry ∧
      s'.state rep.cache rep.address = getState rep.result.tbe rep.result.cacheEntry := by
  obtain ⟨ev, x, f, htr, rfl, hf⟩ := h.transacts
  constructor
  · simp only [System.entry, System.l1Finish, Function.update_self, hf]
    exact CacheMemory.lookup_assign_self _ _ _ htr.sends.room
  · rw [System.state_l1Finish hf htr.sends, Function.update_self]

/-- A line is there exactly if its state is not `I`. -/
theorem Coherent.entry_isSome {s : System C D A n cfg} {value : A → DataBlock n}
    (h : Coherent value s) (c : C) (a : A) : (s.entry c a).isSome ↔ s.state c a ≠ .I := by
  obtain ⟨t, hrel, -⟩ := h.block a
  have hstate : s.state c a = (t.ph c).st := hrel.state c
  have hentry : s.entry c a = (t.cell c).entry := hrel.entry c
  rw [hstate, hentry, Cell.entry_eq]
  change (if (t.ph c).st = .I then none else some _ : Option (Entry n)).isSome ↔ _
  by_cases he : (t.ph c).st = .I <;> simp [he, -Phase.st]

/-- While a block is in `M` in one cache, no other cache has a line from which it could be read. -/
theorem Coherent.not_readable {s : System C D A n cfg} {value : A → DataBlock n}
    (h : Coherent value s) {c c' : C} {a : A} (hc' : s.state c' a = .M) (hne : c ≠ c') :
    s.state c a ∉ [.S, .M, .SM_AD, .SM_A] := by
  intro hc
  obtain ⟨t, hrel, hinv⟩ := h.block a
  have hst : ∀ y, s.state y a = (t.ph y).st := hrel.state
  rw [hst] at hc hc'
  obtain ⟨o, ho⟩ : ∃ o, t.ph c' = .modified o := by
    generalize t.ph c' = p at hc'
    cases p with
    | modified o => exact ⟨o, rfl⟩
    | _ => cases hc'
  have hcopy := (hinv.exclusive (by rw [ho]; rfl) (hinv.ackOk ho) hne).1
  have hread : (t.ph c).copy = true := by
    generalize t.ph c = p at hc
    cases p <;> first | rfl | simp at hc
  rw [hread] at hcopy
  cases hcopy

/-! ### What a step does to a lock -/

variable {w w' : Ruby C D A n cfg} {max : ℤ}

/-- **What a step does to the lock of a line.** -/
inductive LockCase (w : Ruby C D A n cfg) (l : RubyLabel C D A n cfg) (w' : Ruby C D A n cfg)
    (c : C) (a : A) : Prop
  /-- The step is about another line.  If it completes a store to the block, another cache has the
  block in `M` now. -/
  | other (hlock : w'.locked c a = w.locked c a) (hentry : w'.sys.entry c a = w.sys.entry c a)
      (hstate : w'.sys.state c a = w.sys.state c a) (hlinks : ¬ l.links c a)
      (hloses : ¬ l.loses c a) (hof : ¬ l.storesOf c a) (hbypass : ¬ l.bypasses c a)
      (hstores : l.stores a → ∃ c', c ≠ c' ∧ w'.sys.state c' a = .M)
  /-- A transition on the line without a store. -/
  | move (ev : Event) (actions : List Action)
      (ht : transition (w.sys.state c a) ev = some (actions, w'.sys.state c a))
      (hz : .zStall ∉ actions)
      (hs : actions.countP (fun act => act.access = some .store) = 0)
      (hlock : w'.locked c a =
        ((w.sys.entry c a).isSome && w.locked c a && (w'.sys.entry c a).isSome))
      (hlinks : ¬ l.links c a) (hstores : ¬ l.stores a)
      (hloses : l.loses c a ↔ w'.sys.entry c a = none)
      (hinv : w.sys.state c a = .SM_AD → ev = .Inv → l.bypasses c a)
  /-- A load-linked. -/
  | link (hstate : w'.sys.state c a = .M) (hlock : w'.locked c a = true) (hlinks : l.links c a)
      (hentry : (w'.sys.entry c a).isSome = true)
      (honly : ∀ d ∈ l.done, d.type = .Load_Linked)
  /-- Another store.  A store-conditional succeeds if the lock is set. -/
  | store (hst : w.sys.state c a ∈ [.M, .IM_AD, .SM_AD, .IM_A, .SM_A])
      (hlock : w'.locked c a = false) (hlinks : ¬ l.links c a) (hof : l.storesOf c a)
      (hsc : ∀ d ∈ l.done, d.cache = c → d.address = a → d.type = .Store_Conditional →
        d.success = ((w.sys.entry c a).isSome && w.locked c a))

omit [DecidableEq C] [DecidableEq D] [DecidableEq A] in
/-- The lock after a transition, if the line has a permission. -/
theorem Ruby.keepLock_eq {rep : Report C D A n} {locked : Bool}
    (h : rep.result.cacheEntry.isSome ↔ getState rep.result.tbe rep.result.cacheEntry ≠ .I) :
    keepLock rep locked = (locked && rep.result.cacheEntry.isSome) := by
  unfold keepLock
  cases he : rep.result.cacheEntry with
  | none => simp
  | some e =>
      rw [he] at h
      have hne := h.1 rfl
      have hperm : getAccessPermission rep.result.tbe (some e) ≠ .Invalid := by
        unfold getAccessPermission getState at *
        cases ht : rep.result.tbe with
        | none =>
            rw [ht] at hne
            cases hq : e.cacheState <;> simp_all [State.toPermission]
        | some t =>
            rw [ht] at hne
            cases hq : t.tbeState <;> simp_all [State.toPermission]
      simp [hperm]

/-- The lock after a store. -/
theorem Sequencer.handleLlsc_eq {type : RubyRequestType} {locked success locked' : Bool}
    (h : handleLlsc type true locked = .ok (success, locked')) :
    locked' = decide (type = .Load_Linked) ∧ (type = .Store_Conditional → success = locked) := by
  unfold handleLlsc at h
  cases type <;> cases locked <;> cases h <;> decide

omit [DecidableEq C] [DecidableEq D] [DecidableEq A] in
theorem L1Cache.Access.loadTypes_of_load {type : RubyRequestType} (h : type ∈ Access.load.types) :
    type ∈ loadTypes := by
  cases type <;> first | decide | exact absurd h (by decide)

theorem L1Cache.Access.not_loadTypes_of_store {type : RubyRequestType}
    (h : type ∈ Access.store.types) (hne : type ≠ .Load_Linked) : type ∉ loadTypes := by
  cases type <;> first | decide | exact absurd h (by decide) | exact absurd rfl hne

/-- The entry of the table behind a step that reports something, and its stores. -/
theorem Step.entry_of_report {s s' : System C D A n cfg} {mv : Move C D A n cfg}
    {rep : Report C D A n} (h : Step s (mv, some rep) s') :
    ∃ ev actions, transition (s.state rep.cache rep.address) ev =
        some (actions, s'.state rep.cache rep.address) ∧ .zStall ∉ actions ∧
      actions.countP (fun act => act.access = some .store) =
        Access.store.answers rep.result.callbacks ∧
      (0 < Access.store.answers rep.result.callbacks → rep.result.cacheEntry.isSome = true) ∧
      (ev = .Inv → rep.trigger.isSome = true) ∧ rep.state = s.state rep.cache rep.address := by
  obtain ⟨ev, x, f, htr, -, -⟩ := h.transacts
  obtain ⟨actions, ht, hz, y, hy, hxy⟩ := doTransition_state htr.valid
  rw [htr.getState_eq, htr.state, ← h.own.2] at ht
  refine ⟨ev, actions, ht, hz, ?_, fun hpos => ?_, htr.trigger, htr.state⟩
  · have hcalls := foldlM_callbacks hy .store
    rw [htr.callbacks, Access.answers_nil, Nat.zero_add] at hcalls
    rw [← hcalls, hxy]
    rfl
  · refine line_of_answer htr.valid (k := .store) ?_
    rwa [htr.callbacks, Access.answers_nil]

namespace Ruby

variable {value : A → DataBlock n} {mv : Move C D A n cfg} {rmv : RubyMove C D A n cfg}
  {rep : Report C D A n} {data : DataBlock n} {q : Sequencer A n} {locked : Bool}
  {done : List (Done C A n)} {s' : System C D A n cfg}

/-- The state after the callbacks of a transition. -/
def calledState (w : Ruby C D A n cfg) (s' : System C D A n cfg) (rep : Report C D A n)
    (q : Sequencer A n) (locked : Bool) : Ruby C D A n cfg where
  sys := s'
  sequencer := Function.update w.sequencer rep.cache q
  locked := Function.update w.locked rep.cache
    (Function.update (w.locked rep.cache) rep.address (keepLock rep locked))

omit [DecidableEq D] in
theorem calledState_locked : (w.calledState s' rep q locked).locked rep.cache rep.address =
    keepLock rep locked := by
  simp [calledState]

/-- A transition without a store, as a case for its own line. -/
theorem lockCase_move (hcoh : Coherent value s') (hs : Step w.sys (mv, some rep) s')
    (hzero : Access.store.answers rep.result.callbacks = 0)
    (htypes : ∀ d ∈ done, d.type ∈ Access.load.types) :
    LockCase w ⟨rmv, some (mv, some rep), done⟩ (w.calledState s' rep q (w.lockOf rep))
      rep.cache rep.address := by
  obtain ⟨hentry, hstate⟩ := hs.own
  obtain ⟨ev, actions, ht, hz, hcount, -, hinv, hst⟩ := hs.entry_of_report
  have hkeep : keepLock rep (w.lockOf rep) =
      (w.lockOf rep && rep.result.cacheEntry.isSome) := by
    refine keepLock_eq ?_
    have := hcoh.entry_isSome rep.cache rep.address
    rwa [hentry, hstate] at this
  refine .move ev actions ht hz (hcount.trans hzero) ?_ ?_ ?_ ?_ ?_
  · rw [calledState_locked, hkeep, ← hentry]
    rfl
  · rintro ⟨d, hd, -, -, e⟩
    have := htypes d hd
    rw [e] at this
    exact absurd this (by decide)
  · rintro ⟨d, hd, -, e⟩
    exact e (Access.loadTypes_of_load (htypes d hd))
  · change _ ↔ s'.entry rep.cache rep.address = none
    rw [hentry]
    constructor
    · rintro ⟨mv', rep', e, -, -, hnone⟩
      cases e
      exact hnone
    · exact fun hnone => ⟨mv, rep, rfl, rfl, rfl, hnone⟩
  · exact fun hsm hev => ⟨mv, rep, rfl, rfl, rfl, hst.trans hsm, hinv hev⟩

/-- The callbacks of a transition, as a case for its own line. -/
theorem Called.lockCase_own (hsound : w.Sound max) (hcoh : Coherent value s')
    (hs : Step w.sys (mv, some rep) s') (hcalled : Called w rep data q locked done) :
    LockCase w ⟨rmv, some (mv, some rep), done⟩ (w.calledState s' rep q locked)
      rep.cache rep.address := by
  cases hcalled with
  | none hcb =>
      refine lockCase_move hcoh hs ?_ (by simp)
      rcases hcb with e | e <;> rw [e] <;> rfl
  | read d r pkt hcb hr hhit =>
      refine lockCase_move hcoh hs (by rw [hcb]; rfl) fun d' hd' => ?_
      rw [List.mem_singleton.1 hd']
      exact (hsound.ok rep.cache).type .load rep.address r hr
  | write v r d' pkt success locked hcb hr hlock hhit =>
      obtain ⟨hentry, hstate⟩ := hs.own
      obtain ⟨ev, actions, ht, hz, hcount, hline, -, -⟩ := hs.entry_of_report
      have hone : 0 < Access.store.answers rep.result.callbacks := by
        rw [hcb]
        exact Nat.one_pos
      obtain ⟨hfrom, hto⟩ := states_of_store ht (by rwa [hcount])
      obtain ⟨hlocked, hsuccess⟩ := Sequencer.handleLlsc_eq hlock
      have hkeep : keepLock rep locked = locked := by
        rw [keepLock_eq, hline hone, Bool.and_true]
        rw [← hstate, hto]
        simp [hline hone]
      by_cases hll : r.type = .Load_Linked
      · refine .link hto ?_ ⟨_, List.mem_singleton_self _, rfl, rfl, hll⟩ ?_ (by simp [hll])
        · rw [calledState_locked, hkeep, hlocked, hll]
          rfl
        · change (s'.entry rep.cache rep.address).isSome = true
          rw [hentry]
          exact hline hone
      · have htype := (hsound.ok rep.cache).type .store rep.address r hr
        refine .store hfrom ?_ ?_ ⟨_, List.mem_singleton_self _, rfl, rfl,
          Access.not_loadTypes_of_store htype hll⟩ ?_
        · rw [calledState_locked, hkeep, hlocked]
          exact decide_eq_false hll
        · rintro ⟨d, hd, -, -, e⟩
          rw [List.mem_singleton.1 hd] at e
          exact hll e
        · intro d hd _ _ e
          rw [List.mem_singleton.1 hd] at e ⊢
          exact hsuccess e

/-- The callbacks of a transition, as a case for all other lines. -/
theorem Called.lockCase_other (hsound : w.Sound max) (hs : Step w.sys (mv, some rep) s')
    (hcalled : Called w rep data q locked done) {c : C} {a : A}
    (hown : ¬ (rep.cache = c ∧ rep.address = a)) :
    LockCase w ⟨rmv, some (mv, some rep), done⟩ (w.calledState s' rep q locked) c a := by
  obtain ⟨hentry, hstate⟩ := hs.frame c a fun r e => by
    cases e
    exact hown
  have hdone : ∀ d ∈ done, d.cache = rep.cache ∧ d.address = rep.address := by
    intro d hd
    cases hcalled with
    | none => cases hd
    | read | write =>
        rw [List.mem_singleton.1 hd]
        exact ⟨rfl, rfl⟩
  refine .other ?_ hentry hstate ?_ ?_ ?_ ?_ ?_
  · by_cases hc : c = rep.cache
    · subst hc
      have ha : a ≠ rep.address := fun e => hown ⟨rfl, e.symm⟩
      simp [calledState, ha]
    · simp [calledState, hc]
  · rintro ⟨d, hd, hc, ha, -⟩
    exact hown ⟨(hdone d hd).1 ▸ hc, (hdone d hd).2 ▸ ha⟩
  · rintro ⟨mv', rep', e, hc, ha, -⟩
    cases e
    exact hown ⟨hc, ha⟩
  · rintro ⟨d, hd, hc, ha, -⟩
    exact hown ⟨(hdone d hd).1 ▸ hc, (hdone d hd).2 ▸ ha⟩
  · rintro ⟨mv', rep', e, hc, ha, -⟩
    cases e
    exact hown ⟨hc, ha⟩
  · rintro ⟨d, hd, ha, hstore⟩
    obtain rfl : rep.address = a := (hdone d hd).2 ▸ ha
    refine ⟨rep.cache, fun e => hown ⟨e.symm, rfl⟩, ?_⟩
    -- the packet is that of a store, and a store leads to `M`
    obtain ⟨ev, actions, ht, -, hcount, -⟩ := hs.entry_of_report
    have hone : 0 < Access.store.answers rep.result.callbacks := by
      cases hcalled with
      | none => cases hd
      | read d' r pkt hcb hr hhit =>
          rw [List.mem_singleton.1 hd] at hstore
          have htype := (hsound.ok rep.cache).type .load rep.address r hr
          exact absurd (Access.loadTypes_of_load htype) hstore
      | write v r d' pkt success locked hcb hr hlock hhit =>
          rw [hcb]
          exact Nat.one_pos
    exact (states_of_store ht (by rwa [hcount])).2

/-- A move of the protocol, as a case. -/
theorem Ran.lockCase (hsound : w.Sound max) (hcoh : Coherent value w'.sys)
    {l : RubyLabel C D A n cfg} (hr : Ran w mv data w' l.step l.done) (c : C) (a : A) :
    LockCase w l w' c a := by
  obtain ⟨rmv, step, done⟩ := l
  cases hr with
  | quiet s' hs =>
      obtain ⟨hentry, hstate⟩ := hs.frame c a (fun r h => by cases h)
      exact .other rfl hentry hstate (by simp [RubyLabel.links]) (by simp [RubyLabel.loses])
        (by simp [RubyLabel.storesOf]) (by simp [RubyLabel.bypasses])
        (by simp [RubyLabel.stores])
  | calls s' rep q locked done hs hcalls =>
      obtain ⟨_, _, _, hy, hcalled⟩ := hsound.calls_ok hs data
      cases hcalls.symm.trans hy
      by_cases hown : rep.cache = c ∧ rep.address = a
      · obtain ⟨rfl, rfl⟩ := hown
        exact hcalled.lockCase_own hsound hcoh hs
      · exact hcalled.lockCase_other hsound hs hown

end Ruby

/-- **Every step is one of these cases**, for every line. -/
theorem RubyStep.lockCase (hsound : w.Sound max) {value : A → DataBlock n}
    (hcoh : Coherent value w'.sys) {l : RubyLabel C D A n cfg} (hs : RubyStep max w l w') (c : C)
    (a : A) : LockCase w l w' c a := by
  have hstep := hs.carried
  obtain ⟨mv, step, done⟩ := l
  cases hstep with
  | refused =>
      exact .other rfl rfl rfl (by simp [RubyLabel.links]) (by simp [RubyLabel.loses])
        (by simp [RubyLabel.storesOf]) (by simp [RubyLabel.bypasses])
        (by simp [RubyLabel.stores])
  | issued c' pkt q status r s' hq hs' =>
      obtain ⟨hentry, hstate⟩ := hs'.frame c a (fun r h => by cases h)
      exact .other rfl hentry hstate (by simp [RubyLabel.links]) (by simp [RubyLabel.loses])
        (by simp [RubyLabel.storesOf]) (by simp [RubyLabel.bypasses])
        (by simp [RubyLabel.stores])
  | mandatory c' victim r rest _ _ _ hq hr => exact hr.lockCase hsound hcoh c a
  | response c' m rest _ _ _ hq hr => exact hr.lockCase hsound hcoh c a
  | network mv' _ _ _ hmv hr => exact hr.lockCase hsound hcoh c a

/-! ### What a lock says about the past -/

/-- The line of a load-linked has stayed, and its processor has made no other store to it. -/
def Kept (c : C) (a : A) (ls : List (RubyLabel C D A n cfg)) : Prop :=
  Since (RubyLabel.links c a) (fun l => ¬ l.loses c a ∧ ¬ l.storesOf c a) ls

/-- Nobody has stored to the block since a load-linked. -/
def Linked (c : C) (a : A) (ls : List (RubyLabel C D A n cfg)) : Prop :=
  Since (RubyLabel.links c a) (fun l => ¬ l.stores a) ls

/-- The cache has been invalidated in `SM_AD`, and has not answered a load-linked since. -/
def Bypassed (c : C) (a : A) (ls : List (RubyLabel C D A n cfg)) : Prop :=
  Since (RubyLabel.bypasses c a) (fun l => ¬ l.links c a) ls

/-- **What the lock of a line says about the past.**  It is set exactly if the line has been kept
since a load-linked.  If it is set in a state in which the line can be read, nobody has stored to
the block since, or the cache was invalidated in `SM_AD`; in `IM_AD` and `IM_A` it was; and the lock
is not set while a load waits for its data.  What it says in the states in which a line is replaced
does not matter: no store completes there. -/
structure LockOk (ls : List (RubyLabel C D A n cfg)) (w : Ruby C D A n cfg) (c : C) (a : A) :
    Prop where
  present : w.locked c a = true → (w.sys.entry c a).isSome = true
  kept : w.locked c a = true ↔ Kept c a ls
  readable : w.locked c a = true → w.sys.state c a ∈ [.S, .M, .SM_AD, .SM_A] →
    Linked c a ls ∨ Bypassed c a ls
  invalid : w.locked c a = true → w.sys.state c a ∈ [.IM_AD, .IM_A] → Bypassed c a ls
  loading : w.locked c a = true → w.sys.state c a ≠ .IS_D

omit [DecidableEq C] [DecidableEq D] [DecidableEq A] in
theorem LockOk.init (mem : A → DataBlock n) (c : C) (a : A) :
    LockOk [] (Ruby.init cfg mem : Ruby C D A n cfg) c a where
  present h := by cases h
  kept := ⟨fun h => (by cases h), fun h => absurd h not_since_nil⟩
  readable h := by cases h
  invalid h := by cases h
  loading h := by cases h

/-- **A step keeps what the locks say.** -/
theorem LockOk.step {ls : List (RubyLabel C D A n cfg)} {l : RubyLabel C D A n cfg} {c : C} {a : A}
    (h : LockOk ls w c a) {value value' : A → DataBlock n} (hcoh : Coherent value w.sys)
    (hcoh' : Coherent value' w'.sys) (hcase : LockCase w l w' c a) :
    LockOk (ls ++ [l]) w' c a := by
  cases hcase with
  | other hlock hentry hstate hlinks hloses hof hbypass hstores =>
      -- a store of another cache leaves this one in none of the readable states
      have hlinked : w'.sys.state c a ∈ [.S, .M, .SM_AD, .SM_A] → ¬ l.stores a := by
        intro hread hst
        obtain ⟨c', hne, hM⟩ := hstores hst
        exact hcoh'.not_readable hM hne hread
      refine ⟨?_, ?_, ?_, ?_, ?_⟩
      · rw [hlock, hentry]
        exact h.present
      · rw [hlock, Kept, since_append_singleton, h.kept]
        simp [hlinks, hloses, hof, Kept]
      · intro hl hread
        have hno := hlinked hread
        rw [hlock] at hl
        rw [hstate] at hread
        rcases h.readable hl hread with hk | hk
        · exact .inl (since_append_singleton.2 (.inr ⟨hno, hk⟩))
        · exact .inr (since_append_singleton.2 (.inr ⟨hlinks, hk⟩))
      · intro hl hinv
        rw [hlock] at hl
        rw [hstate] at hinv
        exact since_append_singleton.2 (.inr ⟨hlinks, h.invalid hl hinv⟩)
      · rw [hlock, hstate]
        exact h.loading
  | move ev actions ht hz hs hlock hlinks hstores hloses hinv =>
      have hof : ¬ l.storesOf c a := fun ⟨d, hd, _, ha, hst⟩ => hstores ⟨d, hd, ha, hst⟩
      obtain ⟨hread, hwrite, hload⟩ := states_of_transition ht hz hs
      -- a lock that is set was set before, in a line that was there
      have hbefore : w'.locked c a = true →
          w.locked c a = true ∧ w.sys.state c a ≠ .I ∧ (w'.sys.entry c a).isSome = true := by
        intro hl
        rw [hlock, Bool.and_eq_true, Bool.and_eq_true] at hl
        exact ⟨hl.1.2, (hcoh.entry_isSome c a).1 hl.1.1, hl.2⟩
      refine ⟨fun hl => (hbefore hl).2.2, ?_, fun hl hr => ?_, fun hl hi => ?_, fun hl hd => ?_⟩
      · rw [Kept, since_append_singleton, hloses]
        simp only [hlinks, hof, false_or, not_false_eq_true, and_true]
        constructor
        · intro hl
          obtain ⟨h₁, -, h₃⟩ := hbefore hl
          exact ⟨Option.isSome_iff_ne_none.1 h₃, h.kept.1 h₁⟩
        · rintro ⟨h₁, h₂⟩
          have hl := h.kept.2 h₂
          rw [hlock, h.present hl, hl, Option.isSome_iff_ne_none.2 h₁]
          rfl
      · obtain ⟨hl', -, -⟩ := hbefore hl
        rcases hread hr with hr' | hd
        · rcases h.readable hl' hr' with hk | hk
          · exact .inl (since_append_singleton.2 (.inr ⟨hstores, hk⟩))
          · exact .inr (since_append_singleton.2 (.inr ⟨hlinks, hk⟩))
        · exact absurd hd (h.loading hl')
      · obtain ⟨hl', hI, -⟩ := hbefore hl
        rcases hwrite hi with hi' | hI' | ⟨hsm, hev⟩
        · exact since_append_singleton.2 (.inr ⟨hlinks, h.invalid hl' hi'⟩)
        · exact absurd hI' hI
        · exact since_append_singleton.2 (.inl (hinv hsm hev))
      · exact (hbefore hl).2.1 (hload hd)
  | link hstate hlock hlinks hentry honly =>
      refine ⟨fun _ => hentry, ⟨fun _ => ?_, fun _ => hlock⟩, fun _ _ => .inl ?_,
        fun _ hi => ?_, ?_⟩
      · exact since_append_singleton.2 (.inl hlinks)
      · exact since_append_singleton.2 (.inl hlinks)
      · rw [hstate] at hi
        exact absurd hi (by decide)
      · rw [hstate]
        exact fun _ => by decide
  | store hst hlock hlinks hof hsc =>
      have hno : w'.locked c a ≠ true := by rw [hlock]; decide
      refine ⟨fun hl => absurd hl hno, ⟨fun hl => absurd hl hno, fun hk => ?_⟩,
        fun hl => absurd hl hno, fun hl => absurd hl hno, fun hl => absurd hl hno⟩
      rcases since_append_singleton.1 hk with hk | ⟨⟨-, hk⟩, -⟩
      · exact absurd hk hlinks
      · exact absurd hof hk

/-- Along every run the locks say this. -/
theorem RubyRun.lockOk (hmax : 0 < max) {mem : A → DataBlock n}
    {ls : List (RubyLabel C D A n cfg)} (h : RubyRun max mem ls w) (c : C) (a : A) :
    LockOk ls w c a := by
  induction h with
  | start hw =>
      subst hw
      exact LockOk.init mem c a
  | snoc hr hs ih =>
      have hsound := RubyRun.sound hmax hr
      obtain ⟨value, hcoh, -⟩ := RubyRun.applies hmax hr
      obtain ⟨value', hcoh', -⟩ := hsound.applies hcoh hs.1
      exact ih.step hcoh hcoh' (hs.1.lockCase hsound hcoh' c a)

/-- A store-conditional that is answered succeeds exactly if the lock was set, and its line was on
its way to `M`. -/
theorem RubyRun.storeConditional (hmax : 0 < max) {mem : A → DataBlock n}
    {ls : List (RubyLabel C D A n cfg)} {l : RubyLabel C D A n cfg} (h : RubyRun max mem ls w)
    (hs : RubyStep max w l w') {d : Done C A n} (hd : d ∈ l.done)
    (ht : d.type = .Store_Conditional) :
    d.success = w.locked d.cache d.address ∧
      w.sys.state d.cache d.address ∈ [.M, .IM_AD, .SM_AD, .IM_A, .SM_A] := by
  have hsound := RubyRun.sound hmax h
  obtain ⟨value, hcoh, -⟩ := RubyRun.applies hmax h
  obtain ⟨value', hcoh', -⟩ := hsound.applies hcoh hs
  have hok := RubyRun.lockOk hmax h d.cache d.address
  have hstore : d.type ∉ loadTypes := by
    rw [ht]
    decide
  cases hs.lockCase hsound hcoh' d.cache d.address with
  | other _ _ _ _ _ hof => exact absurd ⟨d, hd, rfl, rfl, hstore⟩ hof
  | move _ _ _ _ _ _ _ hstores => exact absurd ⟨d, hd, rfl, hstore⟩ hstores
  | link _ _ _ _ honly =>
      have := honly d hd
      rw [ht] at this
      cases this
  | store hst hlock hlinks hof hsc =>
      refine ⟨?_, hst⟩
      rw [hsc d hd rfl rfl ht]
      cases hl : w.locked d.cache d.address with
      | false => simp
      | true => simp [hok.present hl]

/-- **When a store-conditional succeeds**: exactly if its cache has kept the line since some
load-linked of the same processor for the block, and the processor has made no other store to the
block since. -/
theorem storeConditional_iff (hmax : 0 < max) {mem : A → DataBlock n}
    {ls : List (RubyLabel C D A n cfg)} {l : RubyLabel C D A n cfg} (h : RubyRun max mem ls w)
    (hs : RubyStep max w l w') {d : Done C A n} (hd : d ∈ l.done)
    (ht : d.type = .Store_Conditional) :
    d.success = true ↔ Since (RubyLabel.links d.cache d.address)
      (fun l => ¬ l.loses d.cache d.address ∧ ¬ l.storesOf d.cache d.address) ls := by
  rw [(RubyRun.storeConditional hmax h hs hd ht).1]
  exact (RubyRun.lockOk hmax h d.cache d.address).kept

/-- **What the success of a store-conditional means**: nobody has stored to the block since a
load-linked of the same processor, or the cache was invalidated in `SM_AD`, and has answered no
load-linked for the block since. -/
theorem storeConditional_sound (hmax : 0 < max) {mem : A → DataBlock n}
    {ls : List (RubyLabel C D A n cfg)} {l : RubyLabel C D A n cfg} (h : RubyRun max mem ls w)
    (hs : RubyStep max w l w') {d : Done C A n} (hd : d ∈ l.done)
    (ht : d.type = .Store_Conditional) (hsuccess : d.success = true) :
    Since (RubyLabel.links d.cache d.address) (fun l => ¬ l.stores d.address) ls ∨
      Since (RubyLabel.bypasses d.cache d.address) (fun l => ¬ l.links d.cache d.address) ls := by
  obtain ⟨hlock, hst⟩ := RubyRun.storeConditional hmax h hs hd ht
  have hok := RubyRun.lockOk hmax h d.cache d.address
  rw [hlock] at hsuccess
  have hcases : w.sys.state d.cache d.address ∈ [.S, .M, .SM_AD, .SM_A] ∨
      w.sys.state d.cache d.address ∈ [.IM_AD, .IM_A] := by
    generalize w.sys.state d.cache d.address = st at hst
    cases st <;> first | decide | exact absurd hst (by decide)
  rcases hcases with hread | hinv
  · exact hok.readable hsuccess hread
  · exact .inr (hok.invalid hsuccess hinv)

/-! ### The two cases -/

/-- The last step of a run of the small system. -/
def rubyLast (ms : List (RubyMove (Fin 4) (Fin 2) (Fin 2) 1 demo))
    (mv : RubyMove (Fin 4) (Fin 2) (Fin 2) 1 demo) :
    RubyLabel (Fin 4) (Fin 2) (Fin 2) 1 demo × Ruby (Fin 4) (Fin 2) (Fin 2) 1 demo :=
  match (rubyAfter 2 ms).2.exec 2 mv with
  | .valid (w', step, done) => (⟨mv, step, done⟩, w')
  | _ => (⟨mv, none, []⟩, (rubyAfter 2 ms).2)

theorem step_rubyLast {ms : List (RubyMove (Fin 4) (Fin 2) (Fin 2) 1 demo)}
    {mv : RubyMove (Fin 4) (Fin 2) (Fin 2) 1 demo}
    (h : (rubyLast ms mv).1.step.isSome = true) :
    RubyStep 2 (rubyAfter 2 ms).2 (rubyLast ms mv).1 (rubyLast ms mv).2 := by
  unfold rubyLast RubyStep at *
  split at h
  · next w' step done he => rw [he]
  · cases h

/-- A processor makes a load-linked, and a second one loads the block. -/
def linkThenShare : List (RubyMove (Fin 4) (Fin 2) (Fin 2) 1 demo) :=
  rubyAsk 1 (bytePacket false true 0 0) ++ rubyFetch 1 0 ++
    rubyAsk 2 (bytePacket false false 0 0) ++
    [.network (.deliverForward 0 1), .network (.forward 1),
      .network (.deliverResponse (.L1Cache 1) (.L1Cache 2)), .response 2,
      .network (.deliverResponse (.L1Cache 1) (.Directory 0)), .network (.dirResponse 0),
      .network (.memAnswer 0 0), .network (.memory 0)]

/-- The first one makes a store-conditional; its request reaches the directory, and the data is on
its way back. -/
def conditional : List (RubyMove (Fin 4) (Fin 2) (Fin 2) 1 demo) :=
  linkThenShare ++ rubyAsk 1 (bytePacket true true 0 5) ++
    [.network (.deliverForward 0 2), .network (.forward 2),
      .network (.deliverResponse (.Directory 0) (.L1Cache 1)), .response 1,
      .network (.deliverResponse (.L1Cache 2) (.L1Cache 1))]

/-- The first one makes a store-conditional, but the store of a third one reaches the directory
first.  The first cache is invalidated in `SM_AD`, the store of the third one is done, and its data
is on its way to the first one. -/
def bypass : List (RubyMove (Fin 4) (Fin 2) (Fin 2) 1 demo) :=
  linkThenShare ++
    [.makeRequest 1 (bytePacket true true 0 5), .mandatory 1 (0 : Fin 2)] ++
    rubyAsk 3 (bytePacket true false 0 9) ++
    [.network (.deliverForward 0 1), .network (.forward 1), .network (.deliverForward 0 2),
      .network (.forward 2), .network (.deliverResponse (.Directory 0) (.L1Cache 3)), .response 3,
      .network (.deliverResponse (.L1Cache 1) (.L1Cache 3)), .response 3,
      .network (.deliverResponse (.L1Cache 2) (.L1Cache 3)), .response 3,
      .network (.deliverRequest 1 0), .network (.request 0), .network (.deliverForward 0 3),
      .network (.forward 3), .network (.deliverResponse (.L1Cache 3) (.L1Cache 1))]

theorem linkThenShare_supported : ∀ mv ∈ linkThenShare, mv.Supported := by
  simp [linkThenShare, rubyAsk, rubyFetch, RubyMove.Supported, Packet.Supported, bytePacket]

theorem conditional_supported : ∀ mv ∈ conditional, mv.Supported := by
  simp only [conditional, List.forall_mem_append]
  refine ⟨⟨linkThenShare_supported, ?_⟩, ?_⟩ <;>
    simp [rubyAsk, RubyMove.Supported, Packet.Supported, bytePacket]

theorem bypass_supported : ∀ mv ∈ bypass, mv.Supported := by
  simp only [bypass, List.forall_mem_append]
  refine ⟨⟨⟨linkThenShare_supported, ?_⟩, ?_⟩, ?_⟩ <;>
    simp [rubyAsk, RubyMove.Supported, Packet.Supported, bytePacket]

/-- Without interference the store-conditional succeeds, since the line has been kept. -/
theorem storeConditional_iff_demo :
    (rubyLast conditional (.response 1)).1.done.map
        (fun d => (d.cache, d.address, d.type, d.success)) =
          [(1, 0, .Store_Conditional, true)] ∧
      Since (RubyLabel.links 1 0) (fun l => ¬ l.loses 1 0 ∧ ¬ l.storesOf 1 0)
        (rubyAfter 2 conditional).1 := by
  have hdone : (rubyLast conditional (.response 1)).1.done.map
      (fun d => (d.cache, d.address, d.type, d.success)) =
        [(1, 0, .Store_Conditional, true)] := by decide +kernel
  obtain ⟨d, hd, e⟩ := List.mem_map.1 (hdone ▸ List.mem_singleton_self _)
  obtain ⟨d, c, a, type, success⟩ := d
  cases e
  have hrun := run_rubyAfter 2 conditional conditional_supported (by decide +kernel)
  have hstep : RubyStep 2 (rubyAfter 2 conditional).2 _ (rubyLast conditional (.response 1)).2 :=
    step_rubyLast (by decide +kernel)
  exact ⟨hdone, (storeConditional_iff (by decide) hrun hstep hd rfl).1 rfl⟩

/-- **A store-conditional that should have failed.**  Between the load-linked of processor 1 and its
store-conditional, which succeeds, processor 3 has stored to the block. -/
theorem storeConditional_sound_bypass :
    (dones (rubyAfter 2 bypass).1).map (fun d => (d.cache, d.address, d.type)) =
        [(1, 0, .Load_Linked), (2, 0, .LD), (3, 0, .ST)] ∧
      (rubyLast bypass (.response 1)).1.done.map
        (fun d => (d.cache, d.address, d.type, d.success)) =
          [(1, 0, .Store_Conditional, true)] ∧
      (Since (RubyLabel.links 1 0) (fun l => ¬ l.stores 0) (rubyAfter 2 bypass).1 ∨
        Since (RubyLabel.bypasses 1 0) (fun l => ¬ l.links 1 0) (rubyAfter 2 bypass).1) := by
  have hdone : (rubyLast bypass (.response 1)).1.done.map
      (fun d => (d.cache, d.address, d.type, d.success)) =
        [(1, 0, .Store_Conditional, true)] := by decide +kernel
  obtain ⟨d, hd, e⟩ := List.mem_map.1 (hdone ▸ List.mem_singleton_self _)
  obtain ⟨d, c, a, type, success⟩ := d
  cases e
  have hrun := run_rubyAfter 2 bypass bypass_supported (by decide +kernel)
  have hstep : RubyStep 2 (rubyAfter 2 bypass).2 _ (rubyLast bypass (.response 1)).2 :=
    step_rubyLast (by decide +kernel)
  exact ⟨by decide +kernel, hdone, storeConditional_sound (by decide) hrun hstep hd rfl rfl⟩

end Msi
