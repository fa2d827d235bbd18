/-
**Deadlock of the MSI protocol.**

A controller that stalls leaves the head of its queue in place, and with it everything behind it,
whatever block that is about.  This module asks whether the system can get stuck in this way.

The argument is a global ordering one.  Responses and answers of the memory controller never wait,
so consider a state in which all of them have been processed.  Then what is left waits for a
forwarded request or an invalidation at the head of some cache's queue, and that waits, if it
stalls, for one that a directory sent earlier (`Msi.Abs.Inv.waits_for_earlier`).  If forwarded
requests reach every cache in the order in which the directories sent them, the oldest one is at the
head of its queue, and waits for nothing.  With one directory its channels see to that.  With two
directories the channels do not, and four caches can get stuck: `Msi.deadlock_reached` is such a
run.

Main definitions:

* `Msi.Move.processes`, `Msi.Move.delivers` — moves that process a queue head, and moves that hand a
  message over;
* `Msi.System.Active` — something is in flight, or a controller is in a transient state;
* `Msi.System.Progresses` — some queue head can be processed;
* `Msi.System.InOrder` — a move hands forwarded requests over in the order of sending.

Main results:

* `Msi.deadlock_free` — there is no deadlock with one directory;
* `Msi.deadlock_reached` — a deadlock with two directories;
* `Msi.deadlock_free_inOrder` — there is none, for any number of directories, as long as forwarded
  requests reach every cache in the order of sending.
-/

import ArchLab.Fifo
import ArchLab.MsiSafety

set_option relaxedAutoImplicit false
set_option autoImplicit false

namespace Msi

/-! ### Progress -/

/-- The move processes the head of a queue, the mandatory queues apart. -/
def Move.processes {C D A : Type} {n : ℕ} {cfg : Config D A} : Move C D A n cfg → Bool
  | .forward _ | .response _ _ | .request _ | .dirResponse _ | .memory _ => true
  | _ => false

/-- The move hands a message over to the queue it is meant for. -/
def Move.delivers {C D A : Type} {n : ℕ} {cfg : Config D A} : Move C D A n cfg → Bool
  | .memAnswer _ _ | .deliverRequest _ _ | .deliverForward _ _ | .deliverResponse _ _ => true
  | _ => false

namespace System

variable {C D A : Type} [DecidableEq C] [DecidableEq D] [DecidableEq A] {n : ℕ} {cfg : Config D A}

/-- Something is in flight, or some controller is in a transient state. -/
def Active (s : System C D A n cfg) : Prop :=
  (∃ a, ¬ s.Quiescent a) ∨ (∃ c a, s.state c a ∉ [.I, .S, .M]) ∨ ∃ a, s.dirState a ∉ [.I, .S, .M]

/-- The head of some queue can be processed: its transition is declared and is not a stall. -/
def Processable (s : System C D A n cfg) : Prop :=
  ∃ mv out, mv.processes = true ∧ s.exec mv = .valid out

/-- The move does not hand a forwarded request over before one for the same cache that was sent
earlier. -/
def InOrder (s : System C D A n cfg) : Move C D A n cfg → Prop
  | .deliverForward d c => ∀ m, (s.forwardNet d c).head? = some m →
      ∀ d', ∀ m' ∈ s.forwardNet d' c, m.time ≤ m'.time
  | _ => True

/-- The head of some queue can be processed, or will be once one more message has been handed
over. -/
def Progresses (s : System C D A n cfg) : Prop :=
  s.Processable ∨
    ∃ mv s', mv.delivers = true ∧ s.InOrder mv ∧ s.exec mv = .valid (s', none) ∧ s'.Processable

/-- A forwarded request or an invalidation is on its way to a cache, or in its queue. -/
def Forward (s : System C D A n cfg) (c : C) (m : RequestMsg C D A n) : Prop :=
  m ∈ (s.l1 c).forwardToCache ∨ ∃ d, m ∈ s.forwardNet d c

/-- No response and no memory request is in flight. -/
structure Settled (s : System C D A n cfg) : Prop where
  responseQueue : ∀ dst, s.responseQueue dst = []
  responseNet : ∀ src dst, s.responseNet src dst = []
  memInput : ∀ d, (s.dir d).memInput = []
  memResponse : ∀ d, (s.dir d).memResponse = []

/-- The forwarded requests for each cache are in the order of sending. -/
def Sorted (s : System C D A n cfg) : Prop :=
  ∀ c, Fifo.Sorted RequestMsg.time s.time (s.l1 c).forwardToCache fun d => s.forwardNet d c

end System

/-! ### The order of forwarded requests -/

section Order

variable {C D A : Type} [DecidableEq C] [DecidableEq D] [DecidableEq A] {n : ℕ} {cfg : Config D A}
  {s s' : System C D A n cfg}

/-- Forwarded requests are taken from the heads of the queues, and new ones are sent. -/
structure System.Advances (s s' : System C D A n cfg) : Prop where
  time : s.time ≤ s'.time
  queue : ∀ c, (s'.l1 c).forwardToCache <:+ (s.l1 c).forwardToCache
  net : ∀ d c, ∃ ms, s'.forwardNet d c = s.forwardNet d c ++ ms ∧ ∀ m ∈ ms, m.time = s.time

omit [DecidableEq C] [DecidableEq D] [DecidableEq A] in
theorem System.Sorted.advance (h : s.Sorted) (ha : s.Advances s') : s'.Sorted := fun c =>
  (h c).advance (ha.queue c) (fun d => ha.net d c) ha.time

omit [DecidableEq D] [DecidableEq A] in
/-- What a step changes in one cache leaves the other queues alone. -/
theorem System.suffix_update {c : C} {k : Cache C D A n cfg}
    (hk : k.forwardToCache <:+ (s.l1 c).forwardToCache) (c' : C) :
    (Function.update s.l1 c k c').forwardToCache <:+ (s.l1 c').forwardToCache := by
  by_cases hc : c' = c
  · subst hc
    rwa [Function.update_self]
  · rw [Function.update_of_ne hc]

theorem System.popped_suffix {α : Type} (h : Option α) (q : List α) : popped h q <:+ q := by
  unfold popped
  split
  · exact List.tail_suffix q
  · exact List.suffix_rfl

/-- A cache transition takes at most the head of the forward queue. -/
theorem System.Advances.l1Finish {c : C} {a : A} {x : L1Cache.Ctx C D A n}
    {f : Cache C D A n cfg → Cache C D A n cfg}
    (hf : ∀ k, (f k).forwardToCache <:+ k.forwardToCache) : s.Advances (s.l1Finish c a x f) where
  time := Nat.le_succ _
  queue := System.suffix_update (hf _)
  net _ _ := ⟨[], (List.append_nil _).symm, by simp⟩

/-- A directory transition sends forwarded requests. -/
theorem System.Advances.dirFinish {d : D} {a : A} {x : Directory.Ctx C D A n}
    {f : Dir C D A n → Dir C D A n} (hs : Directory.Sends (s.dirEnv d a) x) :
    s.Advances (s.dirFinish d a x f) where
  time := Nat.le_succ _
  queue _ := List.suffix_rfl
  net d' c := by
    by_cases hd : d' = d
    · subst hd
      refine ⟨x.forwardNetworkOut.filter fun m => .L1Cache c ∈ m.destination, ?_, fun m hm => ?_⟩
      · simp only [System.dirFinish, Function.update_self]
      · exact (hs.forward m (List.mem_of_mem_filter hm)).2
    · refine ⟨[], ?_, by simp⟩
      simp only [System.dirFinish, Function.update_of_ne hd, List.append_nil]

omit [DecidableEq C] [DecidableEq D] [DecidableEq A] in
/-- A move that leaves the forward network alone. -/
theorem System.Advances.of_eq (ht : s'.time = s.time + 1)
    (hq : ∀ c, (s'.l1 c).forwardToCache <:+ (s.l1 c).forwardToCache)
    (hn : s'.forwardNet = s.forwardNet) : s.Advances s' where
  time := by omega
  queue := hq
  net d c := ⟨[], by rw [hn, List.append_nil], by simp⟩

/-- **What a step does to forwarded requests**: it takes and sends some, or hands one over. -/
theorem Step.forwards {l : Label C D A n cfg} (h : Step s l s') :
    s.Advances s' ∨ ∃ d c m q, l.1 = .deliverForward d c ∧ s.forwardNet d c = m :: q ∧
      s' = { s with
        l1 := Function.update s.l1 c
          { s.l1 c with forwardToCache := (s.l1 c).forwardToCache ++ [m] }
        forwardNet := Function.update s.forwardNet d (Function.update (s.forwardNet d) c q)
        time := s.time + 1 } := by
  obtain ⟨mv, rep⟩ := l
  cases h.carried with
  | issue | deliverToCache => exact .inl (.of_eq rfl (System.suffix_update List.suffix_rfl) rfl)
  | replacement | mandatory | response => exact .inl (.l1Finish fun _ => List.suffix_rfl)
  | forward => exact .inl (.l1Finish fun k => System.popped_suffix _ k.forwardToCache)
  | request _ _ _ _ _ hx | dirResponse _ _ _ _ _ hx | memory _ _ _ _ _ hx =>
      exact .inl (.dirFinish (Directory.trigger_sends rfl rfl rfl hx))
  | memAnswer | deliverRequest | deliverToDir =>
      exact .inl (.of_eq rfl (fun _ => List.suffix_rfl) rfl)
  | deliverForward d c m q hq => exact .inr ⟨d, c, m, q, rfl, hq, rfl⟩

/-- **The order is kept** by every step that hands forwarded requests over in their order. -/
theorem System.Sorted.step (h : s.Sorted) {l : Label C D A n cfg} (hs : Step s l s')
    (ho : s.InOrder l.1) : s'.Sorted := by
  rcases hs.forwards with ha | ⟨d, c, m, q, hl, hq, rfl⟩
  · exact h.advance ha
  rw [hl] at ho
  intro c'
  by_cases hc : c' = c
  · subst hc
    have hd := (h c').deliver hq (ho m (by simp [hq])) (Nat.le_succ s.time)
    have hchan : (fun d' => Function.update s.forwardNet d (Function.update (s.forwardNet d) c' q)
        d' c') = Function.update (fun d' => s.forwardNet d' c') d q := by
      funext d'
      by_cases hd' : d' = d
      · subst hd'
        simp
      · simp [hd']
    simpa only [Function.update_self, hchan] using hd
  · have hchan : (fun d' => Function.update s.forwardNet d (Function.update (s.forwardNet d) c q)
        d' c') = fun d' => s.forwardNet d' c' := by
      funext d'
      by_cases hd' : d' = d
      · subst hd'
        simp [hc]
      · simp [hd']
    have hk := (h c').advance List.suffix_rfl
      (fun d' => ⟨[], (List.append_nil _).symm, by simp⟩) (Nat.le_succ s.time)
    simpa only [Function.update_of_ne hc, hchan] using hk

omit [DecidableEq C] [DecidableEq D] [DecidableEq A] in
/-- With one directory there is one channel for each cache, so every move keeps the order. -/
theorem System.Sorted.inOrder [Subsingleton D] (h : s.Sorted) (mv : Move C D A n cfg) :
    s.InOrder mv := by
  cases mv with
  | deliverForward d c =>
      intro m hm d' m' hm'
      obtain rfl := Subsingleton.elim d' d
      obtain ⟨q, hq⟩ := List.head?_eq_some_iff.1 hm
      exact (h c).chan_head_le hq hm'
  | _ => trivial

omit [DecidableEq C] [DecidableEq D] [DecidableEq A] in
theorem System.Sorted.init (mem : A → DataBlock n) :
    (System.init cfg mem : System C D A n cfg).Sorted := fun _ => Fifo.Sorted.nil

/-- The states the system can reach while forwarded requests are handed over in their order. -/
def InOrderReachable (mem : A → DataBlock n) : System C D A n cfg → Prop :=
  Lts.Reachable (· = System.init cfg mem) fun s l s' => Step s l s' ∧ s.InOrder l.1

theorem InOrderReachable.reachable {mem : A → DataBlock n} (h : InOrderReachable mem s) :
    Reachable mem s := by
  obtain ⟨ls, hr⟩ := h
  exact ⟨ls, hr.mono fun _ _ _ hs => hs.1⟩

/-- Along such a run the order is kept. -/
theorem InOrderReachable.sorted {mem : A → DataBlock n} (h : InOrderReachable mem s) :
    s.Sorted := by
  refine Lts.Reachable.invariant ?_ ?_ h
  · rintro _ rfl
    exact System.Sorted.init mem
  · exact fun _ _ _ _ h hs => h.step hs.1 hs.2

/-- With one directory it is kept along every run. -/
theorem Reachable.sorted [Subsingleton D] {mem : A → DataBlock n} (h : Reachable mem s) :
    s.Sorted := by
  refine Lts.Reachable.invariant ?_ ?_ h
  · rintro _ rfl
    exact System.Sorted.init mem
  · exact fun _ _ _ _ h hs => h.step hs (h.inOrder _)

end Order

/-! ### The oldest forwarded request -/

section Oldest

variable {C D A : Type} [DecidableEq C] [DecidableEq D] [DecidableEq A] {n : ℕ} {cfg : Config D A}
  {s s' : System C D A n cfg} {value : A → DataBlock n} {a : A} {t : Abs C (DataBlock n)}

/-- The blocks of a settled system are settled. -/
theorem System.Settled.block (hs : s.Settled)
    (hr : Rel (cfg.mapAddressToDirectory a) (s.block a) t) :
    t.Settled (cfg.mapAddressToDirectory a) := by
  refine hr.settled (fun src dst => ?_) ?_
  · simp [System.block, hs.responseQueue, hs.responseNet]
  · simp [System.block, hs.memInput, hs.memResponse]

/-- The messages of a phase are messages of the system. -/
theorem Rel.exists_forward (hr : Rel (cfg.mapAddressToDirectory a) (s.block a) t) {c : C}
    {f : Fwd C} (hf : f ∈ (t.ph c).fwds) : ∃ m, s.Forward c m ∧ f.Matches m := by
  obtain ⟨m, hm, hmatch⟩ := Rel.exists_right_of_mem (hr.fwd c) hf
  refine ⟨m, ?_, hmatch⟩
  rcases List.mem_append.1 hm with hm | hm
  · exact .inl (List.mem_of_mem_filter hm)
  · exact .inr ⟨_, List.mem_of_mem_filter hm⟩

omit [DecidableEq C] [DecidableEq D] [DecidableEq A] in
/-- Among the forwarded requests there is an oldest one. -/
theorem System.exists_oldest (h : ∃ c m, s.Forward c m) :
    ∃ c m, s.Forward c m ∧ ∀ c' m', s.Forward c' m' → m.time ≤ m'.time := by
  classical
  have hex : ∃ t c m, s.Forward c m ∧ m.time = t := by
    obtain ⟨c, m, hm⟩ := h
    exact ⟨m.time, c, m, hm, rfl⟩
  obtain ⟨c, m, hm, ht⟩ := Nat.find_spec hex
  exact ⟨c, m, hm, fun c' m' hm' => ht ▸ Nat.find_min' hex ⟨c', m', hm', rfl⟩⟩

/-- **The oldest forwarded request waits for nothing**, once it is at the head of a queue. -/
theorem Coherent.oldest_processable (h : Coherent value s) (hs : s.Settled) {c : C}
    {m : RequestMsg C D A n} {q : List (RequestMsg C D A n)}
    (hq : (s.l1 c).forwardToCache = m :: q)
    (hmin : ∀ c' m', s.Forward c' m' → m.time ≤ m'.time) : s.Processable := by
  obtain ⟨t, hr, hi, ⟨-, hw⟩ | ⟨out, hx⟩⟩ := h.exec_forward hq
  · exfalso
    -- the message it waits for is still in flight, and older
    obtain ⟨f, k, fs, hfs, hf, c', f', k', hf', ht', hlt⟩ := hi.waits_for_earlier (hs.block hr) hw
    obtain ⟨m', hm', hmatch'⟩ := hr.exists_forward hf'
    have htime' : m'.time = k' := hmatch'.time ht'
    have htime : m.time = k := by
      obtain ⟨l, hl, -⟩ := System.block_popForward_self (h := none) hq rfl
      have hfwd := hr.fwd c
      rw [hfs, hl] at hfwd
      exact (List.forall₂_cons.1 hfwd).1.time hf
    have := hmin c' m' hm'
    omega
  · exact ⟨_, out, rfl, hx⟩

/-- The head of a channel is handed over. -/
theorem System.exec_deliverForward {d : D} {c : C} {m : RequestMsg C D A n}
    {q : List (RequestMsg C D A n)} (hq : s.forwardNet d c = m :: q) :
    ∃ s', s.exec (.deliverForward d c) = .valid (s', none) ∧
      (s'.l1 c).forwardToCache = (s.l1 c).forwardToCache ++ [m] ∧
      (s.Settled → s'.Settled) ∧ ∀ c' m', s'.Forward c' m' → s.Forward c' m' := by
  obtain ⟨s', hx⟩ : ∃ s', s.exec (.deliverForward d c) = .valid (s', none) :=
    ⟨_, by simp only [exec, hq]; rfl⟩
  refine ⟨s', hx, ?_⟩
  simp only [exec, hq, Outcome.valid.injEq, Prod.mk.injEq, and_true] at hx
  subst hx
  refine ⟨by simp, fun hs => ⟨?_, hs.responseNet, hs.memInput, hs.memResponse⟩, fun c' m' hm' => ?_⟩
  · rintro (c' | d')
    · by_cases hc : c' = c
      · subst hc
        simpa [responseQueue] using hs.responseQueue (.L1Cache c')
      · simpa [responseQueue, hc] using hs.responseQueue (.L1Cache c')
    · exact hs.responseQueue (.Directory d')
  · rcases hm' with hm' | ⟨d', hm'⟩
    · by_cases hc : c' = c
      · subst hc
        simp only [Function.update_self, List.mem_append, List.mem_singleton] at hm'
        rcases hm' with hm' | rfl
        · exact .inl hm'
        · exact .inr ⟨d, by simp [hq]⟩
      · simp only [Function.update_of_ne hc] at hm'
        exact .inl hm'
    · exact .inr ⟨d', mem_of_mem_deliver hq hm'⟩

/-- A message is handed over, and then a queue head can be processed. -/
theorem Coherent.progresses_deliver (h : Coherent value s) {mv : Move C D A n cfg}
    (hx : s.exec mv = .valid (s', none)) (hd : mv.delivers = true) (ho : s.InOrder mv)
    (hp : ∀ value', Coherent value' s' → s'.Processable) : s.Progresses :=
  .inr ⟨mv, s', hd, ho, hx, hp _ (h.step (l := (mv, none)) hx).2⟩

/-- **The oldest forwarded request can be processed**, perhaps after it has been handed over. -/
theorem Coherent.forward_progresses (h : Coherent value s) (hs : s.Settled) (hsort : s.Sorted)
    (hf : ∃ c m, s.Forward c m) : s.Progresses := by
  obtain ⟨c, m, hm, hmin⟩ := System.exists_oldest hf
  cases hq : (s.l1 c).forwardToCache with
  | cons m₀ q =>
      -- the head of the queue is as old
      refine .inl (h.oldest_processable hs hq fun c' m' hm' => ?_)
      exact ((hsort c).head_le hq hm).trans (hmin c' m' hm')
  | nil =>
      obtain hm | ⟨d, hm⟩ := hm
      · rw [hq] at hm
        cases hm
      obtain ⟨m₀, q, hnet⟩ := List.exists_cons_of_ne_nil (List.ne_nil_of_mem hm)
      have hold : ∀ c' m', s.Forward c' m' → m₀.time ≤ m'.time := fun c' m' hm' =>
        ((hsort c).chan_head_le hnet hm).trans (hmin c' m' hm')
      obtain ⟨s', hx, hq', hs', hsub⟩ := System.exec_deliverForward hnet
      rw [hq] at hq'
      refine h.progresses_deliver hx rfl (fun m₁ hm₁ d' m' hm' => ?_) fun _ h' => ?_
      · rw [hnet] at hm₁
        cases hm₁
        exact hold c m' (.inr ⟨d', hm'⟩)
      · exact h'.oldest_processable (hs' hs) hq' fun c' m' hm' => hold c' m' (hsub c' m' hm')

end Oldest

/-! ### Progress of everything else -/

section Progress

variable {C D A : Type} [DecidableEq C] [DecidableEq D] [DecidableEq A] {n : ℕ} {cfg : Config D A}
  {s s' : System C D A n cfg} {value : A → DataBlock n}

/-- Responses never wait. -/
theorem Coherent.response_processable (h : Coherent value s) {dst : MachineID C D}
    (hq : s.responseQueue dst ≠ []) : s.Processable := by
  cases dst with
  | L1Cache c =>
      obtain ⟨out, hx⟩ := h.exec_response hq default
      exact ⟨_, out, rfl, hx⟩
  | Directory d =>
      obtain ⟨out, hx⟩ := h.exec_dirResponse hq
      exact ⟨_, out, rfl, hx⟩

/-- Answers of the memory controller never wait. -/
theorem Coherent.memory_processable (h : Coherent value s) {d : D}
    (hq : (s.dir d).memResponse ≠ []) : s.Processable := by
  obtain ⟨out, hx⟩ := h.exec_memory hq
  exact ⟨_, out, rfl, hx⟩

theorem Coherent.responseNet_progresses (h : Coherent value s) {src dst : MachineID C D}
    (hq : s.responseNet src dst ≠ []) : s.Progresses := by
  obtain ⟨m, q, hq⟩ := List.exists_cons_of_ne_nil hq
  obtain ⟨s', hx, hne⟩ : ∃ s', s.exec (.deliverResponse src dst) = .valid (s', none) ∧
      s'.responseQueue dst ≠ [] := by
    cases dst with
    | L1Cache c =>
        simp only [System.exec, hq]
        exact ⟨_, rfl, by simp [System.responseQueue]⟩
    | Directory d =>
        simp only [System.exec, hq]
        exact ⟨_, rfl, by simp [System.responseQueue]⟩
  exact h.progresses_deliver hx rfl trivial fun _ h' => h'.response_processable hne

theorem Coherent.memInput_progresses (h : Coherent value s) {d : D}
    (hq : (s.dir d).memInput ≠ []) : s.Progresses := by
  obtain ⟨m, q, hq⟩ := List.exists_cons_of_ne_nil hq
  obtain ⟨s', hx, hne⟩ : ∃ s', s.exec (.memAnswer d 0) = .valid (s', none) ∧
      (s'.dir d).memResponse ≠ [] := by
    simp only [System.exec, hq, List.getElem?_cons_zero]
    exact ⟨_, rfl, by simp⟩
  exact h.progresses_deliver hx rfl trivial fun _ h' => h'.memory_processable hne

/-- A system that is not settled progresses. -/
theorem Coherent.settled_or_progresses (h : Coherent value s) : s.Settled ∨ s.Progresses := by
  by_contra hn
  rw [not_or] at hn
  obtain ⟨hs, hp⟩ := hn
  refine hs ⟨fun dst => ?_, fun src dst => ?_, fun d => ?_, fun d => ?_⟩ <;> by_contra hq
  · exact hp (.inl (h.response_processable hq))
  · exact hp (h.responseNet_progresses hq)
  · exact hp (h.memInput_progresses hq)
  · exact hp (.inl (h.memory_processable hq))

/-- The head of a request queue waits for a forwarded request only. -/
theorem Coherent.request_processable (h : Coherent value s) (hs : s.Settled) {d : D}
    (hq : (s.dir d).requestToDir ≠ []) : s.Processable ∨ ∃ c m, s.Forward c m := by
  obtain ⟨m, q, hq⟩ := List.exists_cons_of_ne_nil hq
  obtain ⟨t, hr, hi, ⟨-, hd⟩ | ⟨out, hx⟩⟩ := h.exec_request hq
  · obtain ⟨c, f, k, hf, -⟩ := hi.fwds_of_busy (hs.block hr) hd
    obtain ⟨m', hm', -⟩ := hr.exists_forward hf
    exact .inr ⟨c, m', hm'⟩
  · exact .inl ⟨_, out, rfl, hx⟩

theorem Coherent.requestNet_progresses (h : Coherent value s) (hs : s.Settled) {c : C} {d : D}
    (hq : s.requestNet c d ≠ []) : s.Progresses ∨ ∃ c m, s.Forward c m := by
  obtain ⟨m, q, hq⟩ := List.exists_cons_of_ne_nil hq
  obtain ⟨s', hx, hne, hs', hsub⟩ : ∃ s', s.exec (.deliverRequest c d) = .valid (s', none) ∧
      (s'.dir d).requestToDir ≠ [] ∧ s'.Settled ∧ ∀ c m, s'.Forward c m → s.Forward c m := by
    simp only [System.exec, hq]
    refine ⟨_, rfl, by simp, ⟨?_, hs.responseNet, ?_, ?_⟩, fun _ _ hm => hm⟩
    · rintro (c' | d')
      · exact hs.responseQueue (.L1Cache c')
      · by_cases hd : d' = d
        · subst hd
          simpa [System.responseQueue] using hs.responseQueue (.Directory d')
        · simpa [System.responseQueue, hd] using hs.responseQueue (.Directory d')
    · intro d'
      by_cases hd : d' = d
      · subst hd
        simpa using hs.memInput d'
      · simpa [hd] using hs.memInput d'
    · intro d'
      by_cases hd : d' = d
      · subst hd
        simpa using hs.memResponse d'
      · simpa [hd] using hs.memResponse d'
  by_cases hf : ∃ c m, s.Forward c m
  · exact .inr hf
  refine .inl (h.progresses_deliver hx rfl trivial fun _ h' => ?_)
  refine (h'.request_processable hs' hne).resolve_right ?_
  rintro ⟨c', m', hm'⟩
  exact hf ⟨c', m', hsub c' m' hm'⟩

/-- **Whatever is in flight, the system progresses**, as long as the forwarded requests are in
order. -/
theorem Coherent.progresses (h : Coherent value s) (hsort : s.Sorted) {a : A}
    (ha : ¬ s.Quiescent a) : s.Progresses := by
  rcases h.settled_or_progresses with hs | hp
  swap
  · exact hp
  by_cases hf : ∃ c m, s.Forward c m
  · exact h.forward_progresses hs hsort hf
  by_contra hp
  refine ha ⟨fun c d m hm => ?_, fun d m hm => ?_, fun d c m hm => ?_, fun c m hm => ?_,
    fun src dst m hm => ?_, fun c m hm => ?_, fun d m hm => ?_, fun d m hm => ?_, fun d m hm => ?_⟩
  · exact ((h.requestNet_progresses hs (List.ne_nil_of_mem hm)).elim hp hf).elim
  · exact ((h.request_processable hs (List.ne_nil_of_mem hm)).elim (hp <| .inl ·) hf).elim
  · exact (hf ⟨c, m, .inr ⟨d, hm⟩⟩).elim
  · exact (hf ⟨c, m, .inl hm⟩).elim
  · exact absurd hm (by simp [hs.responseNet])
  · exact absurd hm (by simp [show (s.l1 c).responseToCache = [] from hs.responseQueue
      (.L1Cache c)])
  · exact absurd hm (by
      simp [show (s.dir d).responseToDir = [] from hs.responseQueue (.Directory d)])
  · exact absurd hm (by simp [hs.memInput])
  · exact absurd hm (by simp [hs.memResponse])

/-- A controller is in a transient state only while something is in flight. -/
theorem Coherent.not_quiescent_of_active (h : Coherent value s) (ha : s.Active) :
    ∃ a, ¬ s.Quiescent a := by
  rcases ha with ha | ⟨c, a, hc⟩ | ⟨a, hd⟩
  · exact ha
  · exact ⟨a, fun hq => hc ((hq.stable h).1 c).1⟩
  · exact ⟨a, fun hq => hd (hq.stable h).2.2⟩

/-- **No deadlock with one directory.** While something is in flight or a controller is in a
transient state, some queue head can be processed, at once or after one more message has been handed
over. -/
theorem deadlock_free [Subsingleton D] {mem : A → DataBlock n} (h : Reachable mem s)
    (ha : s.Active) : s.Progresses := by
  obtain ⟨value, hcoh⟩ := Reachable.coherent h
  obtain ⟨a, hq⟩ := hcoh.not_quiescent_of_active ha
  exact hcoh.progresses (Reachable.sorted h) hq

end Progress

/-- A system with one directory. -/
def single : Config Unit (Fin 2) where
  mapAddressToDirectory _ := ()
  addressToCacheSet a := a
  assoc := 2

/-- A processor of this system asks for a block. -/
def singleAsk : List (Move (Fin 4) Unit (Fin 2) 1 single) :=
  [.issue 1 ⟨0, .ST⟩, .mandatory 1 (0 : Fin 2) default]

theorem deadlock_free_single : (after singleAsk).2.Progresses :=
  deadlock_free ⟨_, run_after (by decide +kernel)⟩ (.inr (.inl ⟨1, 0, by decide +kernel⟩))

/-! ### A deadlock -/

/-- Cache 1 owns block 0 and cache 0 owns block 1, each asks for the block of the other, and caches
2 and 3 ask for them as well.  The requests of the latter are forwarded to caches 0 and 1, which
wait for the blocks themselves; and they arrive before the requests that caches 0 and 1 would serve
at once. -/
def crossing : List DemoMove :=
  ask 1 0 .ST ++ fetch 1 0 ++ ask 0 1 .ST ++ fetch 0 1 ++
    ask 0 0 .ST ++ ask 2 0 .ST ++ ask 1 1 .ST ++ ask 3 1 .ST ++
    [.deliverForward 0 0, .deliverForward 1 0, .deliverForward 1 1, .deliverForward 0 1]

/-- **A deadlock with two directories.** The run leads to a state in which four requests are
pending, no queue head can be processed, and nothing is left to be handed over. -/
theorem deadlock_reached :
    Reachable (fun _ => default) (after crossing).2 ∧ (∃ a, ¬ (after crossing).2.Quiescent a) ∧
      ∀ mv, mv.processes = true ∨ mv.delivers = true →
        ∀ out, (after crossing).2.exec mv ≠ .valid out := by
  have hresp : ∀ c, ((after crossing).2.l1 c).responseToCache = [] := by decide +kernel
  have hmem : ∀ d, ((after crossing).2.dir d).memInput = [] := by decide +kernel
  refine ⟨⟨_, run_after (by decide +kernel)⟩,
    ⟨0, fun h => absurd h.forwardToCache (by decide +kernel)⟩, fun mv hmv out hx => ?_⟩
  have hvalid : ((after crossing).2.exec mv).holds (fun _ => true) = true :=
    Outcome.holds_iff.2 ⟨out, hx, rfl⟩
  refine Bool.false_ne_true (Eq.trans ?_ hvalid)
  clear hvalid hx
  cases mv with
  | issue | mandatory => simp [Move.processes, Move.delivers] at hmv
  | forward c =>
      revert c
      decide +kernel
  | response c v =>
      simp only [System.exec, hresp]
      rfl
  | request d | dirResponse d | memory d =>
      clear hmv
      revert d
      decide +kernel
  | memAnswer d i =>
      simp only [System.exec, hmem]
      rfl
  | deliverRequest c d | deliverForward d c =>
      clear hmv
      revert c d
      decide +kernel
  | deliverResponse src dst =>
      rcases src with c | d <;> rcases dst with c' | d'
      · revert c c'
        decide +kernel
      · revert c d'
        decide +kernel
      · revert d c'
        decide +kernel
      · revert d d'
        decide +kernel

section InOrder

variable {C D A : Type} [DecidableEq C] [DecidableEq D] [DecidableEq A] {n : ℕ} {cfg : Config D A}
  {s : System C D A n cfg}

/-- **No deadlock while forwarded requests are in order.** In every run in which forwarded requests
reach each cache in the order in which the directories sent them, while something is in flight some
queue head can be processed, at once or after one more message has been handed over in this
order. -/
theorem deadlock_free_inOrder {mem : A → DataBlock n} (h : InOrderReachable mem s)
    (ha : ∃ a, ¬ s.Quiescent a) : s.Progresses := by
  obtain ⟨value, hcoh⟩ := Reachable.coherent h.reachable
  obtain ⟨a, hq⟩ := ha
  exact hcoh.progresses h.sorted hq

end InOrder

/-- The moves can be carried out, and none of them hands a forwarded request over. -/
theorem inOrderReachable_demo :
    InOrderReachable (fun _ => default) (after (ask 1 0 .ST ++ fetch 1 0 ++ ask 2 0 .ST)).2 := by
  have hr : Lts.Run _ _ (after (ask 1 0 .ST ++ fetch 1 0 ++ ask 2 0 .ST)).1
      (after (ask 1 0 .ST ++ fetch 1 0 ++ ask 2 0 .ST)).2 :=
    play_after (P := fun mv => ∀ s : System (Fin 4) (Fin 2) (Fin 2) 1 demo, s.InOrder mv)
      (by simp [ask, fetch, System.InOrder]) (by decide +kernel)
  exact ⟨_, hr.mono fun s _ _ hs => ⟨hs.1, hs.2 s⟩⟩

theorem deadlock_free_inOrder_demo :
    (after (ask 1 0 .ST ++ fetch 1 0 ++ ask 2 0 .ST)).2.Progresses :=
  deadlock_free_inOrder inOrderReachable_demo
    ⟨0, fun h => absurd h.forwardNet (by decide +kernel)⟩

end Msi
