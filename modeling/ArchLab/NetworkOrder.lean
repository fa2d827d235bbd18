/-
**The network delivers messages in order.**

Nodes send and receive, wakeups are processed in any order, and time goes on.  Whatever a node has
sent to another one on an ordered virtual network is received there, in the order in which it was
sent and without repetition, whichever way it takes and whoever else it was sent to.  That is what
the coherence protocol relies on: its buffers are FIFOs, and a message with several destinations
reaches each of them once.

The invariant is that of `ArchLab/Relay.lean`: what has been sent is what has been received,
followed by what is in the buffers on the way.  It needs the counters of the buffers not to
overflow.  Without that, a buffer may refuse a message, but nothing else fails.

Main definitions:

* `Net.sent`, `Net.received` — what goes from one node to another in a run;
* `Net.Effect` — what a move does;
* `Net.Delivered` — the invariant.

Main results:

* `Net.Network.Sound.effect` — what a move that is enabled does;
* `Net.Delivered.effect` — a move keeps the invariant;
* `Net.moves_succeed` — **no move fails**, as long as the counters do not overflow;
* `Net.received_in_order` — **messages are received in the order in which they were sent**, and all
  of them unless they are still in a buffer.
-/

import ArchLab.Lts
import ArchLab.NetworkRelay

set_option relaxedAutoImplicit false
set_option autoImplicit false

namespace Net

open Refine

variable {μ : Type}

/-- What node `a` sends to node `d` on virtual network `v` in a move. -/
def sentBy (v a d : ℕ) : Move μ × Option (Message μ) → Option μ
  | (.send node v' content destination _, _) =>
      if node = a ∧ v' = v ∧ d ∈ destination then some content else none
  | _ => none

/-- What node `d` receives from node `a` on virtual network `v` in a move. -/
def receivedBy (v a d : ℕ) : Move μ × Option (Message μ) → Option μ
  | (.receive node v', some m) =>
      if m.origin = a ∧ v' = v ∧ node = d then some m.content else none
  | _ => none

/-- What node `a` has sent to node `d` on virtual network `v`. -/
def sent (v a d : ℕ) (ls : List (Move μ × Option (Message μ))) : List μ :=
  ls.filterMap (sentBy v a d)

/-- What node `d` has received from node `a` on virtual network `v`. -/
def received (v a d : ℕ) (ls : List (Move μ × Option (Message μ))) : List μ :=
  ls.filterMap (receivedBy v a d)

section Moves

variable {cfg : Config} {dist : ℕ → ℕ → ℕ} {linkLatency : Port → ℕ} {net net' : Network μ}
  {ls : List (Move μ × Option (Message μ))} {l : Move μ × Option (Message μ)} {v a d : ℕ}

/-! ### No move fails -/

/-- A buffer that is empty and has been declared as ordered. -/
theorem MessageBuffer.Ordered.of_empty {env : Env} {now delta : ℕ} {b : MessageBuffer μ}
    (hset : b.orderingSet = true) (hfifo : b.strictFifo = true) (hheap : b.prioHeap = [])
    (hlast : b.lastArrivalTime = 0) : b.Ordered env now delta where
  orderingSet := hset
  strictFifo := hfifo
  sorted := by
    rw [hheap]
    exact List.Pairwise.nil
  time x hx := by simp [hheap] at hx
  msgCounter x hx := by simp [hheap] at hx
  lastEnqueueTime x hx := by simp [hheap] at hx
  lastArrivalTime _ := hlast ▸ Nat.zero_le _

theorem Network.initBuf_prioHeap (b : Buf) (v : ℕ) :
    (Network.initBuf cfg b v : MessageBuffer μ).prioHeap = [] := by
  unfold Network.initBuf
  simp only
  split
  · rfl
  · rfl
  · split <;> rfl

theorem Network.initBuf_ordered (linkLatency : Port → ℕ) (b : Buf)
    (hv : cfg.ordering v = some true) :
    (Network.initBuf cfg b v : MessageBuffer μ).Ordered cfg.env 0 (cfg.delta linkLatency b v) := by
  unfold Network.initBuf
  simp only [hv]
  split
  · exact .of_empty rfl rfl rfl rfl
  · exact .of_empty rfl rfl rfl rfl
  · exact .of_empty rfl rfl rfl rfl

theorem Network.Sound.init (linkLatency : Port → ℕ) :
    (Network.init cfg : Network μ).Sound cfg linkLatency where
  ordered b v hv := Network.initBuf_ordered linkLatency b hv
  idle b v _ := Network.initBuf_prioHeap b v
  fits b v x hx := by
    change x ∈ (Network.initBuf cfg b v : MessageBuffer μ).prioHeap at hx
    rw [Network.initBuf_prioHeap] at hx
    cases hx
  units _ _ _ := le_rfl
  throttle s link h := by
    obtain ⟨t, ht⟩ := h
    exact absurd ht (Finset.notMem_empty t)

theorem Network.Sound.tick (h : net.Sound cfg linkLatency) :
    ({ net with time := net.time + 1 } : Network μ).Sound cfg linkLatency :=
  ⟨fun b v hv => (h.ordered b v hv).mono (Nat.le_succ _), h.idle, h.fits, h.units, h.throttle⟩

theorem Network.Sound.send (hcfg : cfg.Sound dist linkLatency) (h : net.Sound cfg linkLatency)
    {node : ℕ} {content : μ} {destination : Finset ℕ} {messageSize : MessageSizeType}
    (he : (Move.send node v content destination messageSize).Enabled cfg net) :
    Meets cfg.Stops (fun x : Network μ × Option (Message μ) => x.2 = none ∧
      Puts cfg linkLatency v [(.port (.toNet node), ⟨(node, content), destination⟩)] net x.1)
      (net.exec cfg (.send node v content destination messageSize)) := by
  obtain ⟨hnode, hordering, hdest, hsize⟩ := he
  have hv : cfg.ordering v = some true := by
    obtain ⟨order, horder⟩ := Option.isSome_iff_exists.1 hordering
    cases order with
    | true => exact horder
    | false => exact absurd horder (hcfg.ordering v)
  obtain ⟨s, hs⟩ := hcfg.toNet node hnode
  have hcons : cfg.consumerOf (.port (.toNet node)) = some (.switch s) := by
    simp [Config.consumerOf, hs]
  refine (h.enqueue (b := .port (.toNet node)) (v := v)
    (m := .ofSend net node content destination messageSize) hcfg.warmupEnabled hv
    (hcfg.latency node hnode v hv) ⟨_, hcons⟩ le_rfl
    ⟨hdest, hsize, fun hne => absurd rfl (hne node), fun _ _ h => Buf.noConfusion h⟩).bind ?_
  exact fun net' hputs => ⟨rfl, hputs⟩

/-- What a move does to the network. -/
inductive Effect (hcfg : cfg.Sound dist linkLatency) (net : Network μ) :
    Move μ × Option (Message μ) → Network μ → Prop
  | send {node v : ℕ} {content : μ} {destination : Finset ℕ} {messageSize : MessageSizeType}
      {net' : Network μ} :
      Puts cfg linkLatency v [(.port (.toNet node), ⟨(node, content), destination⟩)] net net' →
      Effect hcfg net (.send node v content destination messageSize, none) net'
  | receive {node v : ℕ} {m : Message μ} {net' : Network μ} :
      Fits cfg (.port (.fromNet node)) m →
      Pops cfg linkLatency (.port (.fromNet node)) v m net net' →
      Effect hcfg net (.receive node v, some m) net'
  | wakeup {c : Consumer} {net' : Network μ} :
      Moves hcfg net net' → Effect hcfg net (.wakeup c, none) net'
  | tick : Effect hcfg net (.tick, none) { net with time := net.time + 1 }

/-- **A move that is enabled** has its effect, unless a buffer refuses a message. -/
theorem Network.Sound.effect (hcfg : cfg.Sound dist linkLatency) (h : net.Sound cfg linkLatency)
    {m : Move μ} (he : m.Enabled cfg net) :
    Meets cfg.Stops (fun x : Network μ × Option (Message μ) => Effect hcfg net (m, x.2) x.1)
      (net.exec cfg m) := by
  cases m with
  | send node v content destination messageSize =>
      refine (h.send hcfg he).imp ?_
      rintro ⟨net', -⟩ ⟨rfl, hputs⟩
      exact .send hputs
  | receive node v =>
      obtain ⟨m, net', hpeek, hpop, -, -, hfits, hpops⟩ := h.pop he
      exact Meets.of_bind hpeek (Meets.of_bind hpop (.receive hfits hpops))
  | wakeup c => exact (h.wakeup hcfg he).bind fun net' hmoves => .wakeup hmoves
  | tick => exact .tick

theorem Network.Sound.effect_of_step (hcfg : cfg.Sound dist linkLatency)
    (h : net.Sound cfg linkLatency) (hstep : NetStep cfg net l net') : Effect hcfg net l net' := by
  obtain ⟨m, out⟩ := l
  obtain ⟨he, hexec⟩ := hstep
  exact (h.effect hcfg he).result hexec

theorem Effect.sound {hcfg : cfg.Sound dist linkLatency} (he : Effect hcfg net l net')
    (h : net.Sound cfg linkLatency) : net'.Sound cfg linkLatency := by
  cases he with
  | send hputs => exact hputs.sound
  | receive _ hpops => exact hpops.sound
  | wakeup hmoves => exact hmoves.sound
  | tick => exact h.tick

/-- The counters of the buffers only grow. -/
theorem Effect.counter {hcfg : cfg.Sound dist linkLatency} (he : Effect hcfg net l net')
    (b : Buf) (v : ℕ) : (net.buf b v).msgCounter ≤ (net'.buf b v).msgCounter := by
  cases he with
  | send hputs => exact hputs.counter b v
  | receive _ hpops => exact (hpops.counter b v).ge
  | wakeup hmoves => exact hmoves.counter b v
  | tick => exact le_rfl

theorem Network.Sound.of_run (hcfg : cfg.Sound dist linkLatency)
    (hrun : Lts.Run (· = Network.init cfg) (NetStep cfg) ls net) : net.Sound cfg linkLatency := by
  refine hrun.invariant (P := fun _ net => net.Sound cfg linkLatency) ?_ ?_
  · rintro _ rfl
    exact .init linkLatency
  · intro ls net l net' _ h hstep
    exact (h.effect_of_step hcfg hstep).sound h

/-- **No move fails**: in every state that a network with sound routing tables can reach, every move
that is enabled succeeds, or a buffer refuses a message that is not among its first 2³².  No other
assertion and no panic is hit, no product is out of range, and all loops end. -/
theorem moves_succeed (hcfg : cfg.Sound dist linkLatency) (hrange : cfg.InRange)
    (hrun : Lts.Run (· = Network.init cfg) (NetStep cfg) ls net) (m : Move μ)
    (he : m.Enabled cfg net) : (∃ net' out, net.exec cfg m = .ok (net', out)) ∨
      ∃ counter, 2 ^ 32 ≤ counter ∧ net.exec cfg m = .error (.sameCounter counter) := by
  rcases ((Network.Sound.of_run hcfg hrun).effect hcfg he).cases with
    ⟨⟨net', out⟩, hexec, -⟩ | ⟨e, hexec, ⟨counter, hc, rfl⟩ | ⟨-, hnot⟩⟩
  · exact .inl ⟨net', out, hexec⟩
  · exact .inr ⟨counter, hc, hexec⟩
  · exact absurd hrange hnot

/-- A node of `Config.pair` sends two messages to both nodes; they arrive at the node itself after
two hops. -/
def pairMoves : List (Move ℕ) :=
  [.send 0 0 7 {0, 1} .Control, .send 0 0 8 {0, 1} .Control, .tick, .wakeup (.switch 0), .tick,
    .wakeup (.throttle 0 0), .wakeup (.throttle 0 1), .tick, .receive 0 0, .receive 0 0]

/-- The state after the first `k` of these moves. -/
def pairNet (k : ℕ) : Network ℕ :=
  (pairMoves.take k).foldl (fun net m =>
    match net.exec .pair m with
    | .ok (net', _) => net'
    | .error _ => net) (.init .pair)

theorem pairNet_step {k : ℕ} {m : Move ℕ} {out : Option (Message ℕ)} (hm : pairMoves[k]? = some m)
    (he : m.Enabled .pair (pairNet k)) (hout : ((pairNet k).exec .pair m).map Prod.snd = .ok out) :
    NetStep .pair (pairNet k) (m, out) (pairNet (k + 1)) := by
  have hsucc : pairNet (k + 1) = match (pairNet k).exec .pair m with
      | .ok (net', _) => net'
      | .error _ => pairNet k := by
    rw [pairNet, List.take_add_one, hm, Option.toList_some, List.foldl_append]
    rfl
  refine ⟨he, ?_⟩
  rw [hsucc]
  change (pairNet k).exec .pair m = _
  cases hexec : (pairNet k).exec .pair m with
  | error e =>
      rw [hexec] at hout
      cases hout
  | ok x =>
      rw [hexec] at hout
      rw [← Except.ok.inj hout]

theorem pairNet_two_idle (c : Consumer) : (pairNet 2).time ∉ (pairNet 2).scheduledWakeups c := by
  rcases c with (_ | s) | ⟨s, link⟩ | node
  · decide
  · exact Finset.notMem_empty _
  · exact Finset.notMem_empty _
  · exact Finset.notMem_empty _

theorem pairRun_three : Lts.Run (· = Network.init .pair) (NetStep .pair)
    [(.send 0 0 7 {0, 1} .Control, none), (.send 0 0 8 {0, 1} .Control, none), (.tick, none)]
    (pairNet 3) := by
  have h₀ : Lts.Run (· = Network.init .pair) (NetStep .pair) [] (pairNet 0) := .start rfl
  exact ((h₀.snoc (pairNet_step rfl ⟨by decide, rfl, by decide, by decide⟩ rfl)).snoc
    (pairNet_step rfl ⟨by decide, rfl, by decide, by decide⟩ rfl)).snoc
    (pairNet_step rfl pairNet_two_idle rfl)

theorem moves_succeed_pair : (Move.wakeup (.switch 0)).Enabled .pair (pairNet 3) ∧
    ∃ net' out, (pairNet 3).exec .pair (.wakeup (.switch 0)) = .ok (net', out) := by
  have he : (pairNet 3).time ∈ (pairNet 3).scheduledWakeups (.switch 0) := by decide
  have hout : ((pairNet 3).exec .pair (.wakeup (.switch 0))).map Prod.snd = .ok none := rfl
  refine ⟨he, ?_⟩
  rcases moves_succeed Config.pair_sound Config.pair_inRange pairRun_three (.wakeup (.switch 0)) he
    with hok | ⟨counter, -, herror⟩
  · exact hok
  · rw [herror] at hout
    cases hout

/-! ### What is on the way -/

/-- A message has been sent by a node. -/
def isFrom (a : ℕ) (m : ℕ × μ) : Bool := decide (m.1 = a)

/-- Where the messages of a node start. -/
def start (m : ℕ × μ) : Buf := .port (.toNet m.1)

/-- Messages are on their way, and what has been sent is what has been received, and then what is on
the way. -/
structure Delivered (hcfg : cfg.Sound dist linkLatency)
    (ls : List (Move μ × Option (Message μ))) (net : Network μ) : Prop where
  onRoute : ∀ v, Relay.OnRoute hcfg.routing start (net.view v)
  pipe : ∀ v a d, ∃ chan,
    Relay.Pipe hcfg.routing d (fun x => Relay.flow (isFrom a) d (net.view v x))
      (.port (.toNet a)) chan ∧
    sent v a d ls = received v a d ls ++ chan.map Prod.snd

variable {hcfg : cfg.Sound dist linkLatency}

theorem start_of_isFrom (m : ℕ × μ) (h : isFrom a m = true) : start m = .port (.toNet a) := by
  rw [start, of_decide_eq_true h]

theorem sent_snoc : sent v a d (ls ++ [l]) = sent v a d ls ++ (sentBy v a d l).toList := by
  rw [sent, List.filterMap_append]
  cases h : sentBy v a d l <;> simp [sent, h]

theorem received_snoc :
    received v a d (ls ++ [l]) = received v a d ls ++ (receivedBy v a d l).toList := by
  rw [received, List.filterMap_append]
  cases h : receivedBy v a d l <;> simp [received, h]

theorem Delivered.init (hcfg : cfg.Sound dist linkLatency) :
    Delivered hcfg [] (Network.init cfg : Network μ) := by
  have hview : ∀ v b, (Network.init cfg : Network μ).view v b = [] := by
    intro v b
    change (Network.initBuf cfg b v : MessageBuffer μ).prioHeap.map _ = []
    rw [Network.initBuf_prioHeap]
    rfl
  refine ⟨fun v x c hc => ?_, fun v a d => ⟨[], ?_, rfl⟩⟩
  · rw [hview] at hc
    cases hc
  · refine (Relay.Pipe.empty _).congr fun y _ => ?_
    rw [hview]
    rfl

/-- Nothing is sent or received, and what is on the way stays there. -/
theorem Delivered.silent (h : Delivered hcfg ls net) (hs : ∀ v a d, sentBy v a d l = none)
    (hr : ∀ v a d, receivedBy v a d l = none)
    (hroute : ∀ v, Relay.OnRoute hcfg.routing start (net'.view v))
    (hpipe : ∀ v a d chan,
      Relay.Pipe hcfg.routing d (fun x => Relay.flow (isFrom a) d (net.view v x))
        (.port (.toNet a)) chan →
      Relay.Pipe hcfg.routing d (fun x => Relay.flow (isFrom a) d (net'.view v x))
        (.port (.toNet a)) chan) : Delivered hcfg (ls ++ [l]) net' := by
  refine ⟨hroute, fun v a d => ?_⟩
  obtain ⟨chan, hchan, heq⟩ := h.pipe v a d
  refine ⟨chan, hpipe v a d chan hchan, ?_⟩
  rw [sent_snoc, received_snoc, hs, hr]
  simpa using heq

/-- **Forwarding keeps the invariant.** -/
theorem Delivered.moves (h : Delivered hcfg ls net) (hm : Moves hcfg net net') (hb : net'.Bounded)
    (hs : ∀ v a d, sentBy v a d l = none) (hr : ∀ v a d, receivedBy v a d l = none) :
    Delivered hcfg (ls ++ [l]) net' := by
  -- along the steps of the relay, messages stay on their way, and the same is on the way
  have hsteps : ∀ v, Relay.OnRoute hcfg.routing start (net'.view v) ∧ ∀ a d chan,
      Relay.Pipe hcfg.routing d (fun x => Relay.flow (isFrom a) d (net.view v x))
        (.port (.toNet a)) chan →
      Relay.Pipe hcfg.routing d (fun x => Relay.flow (isFrom a) d (net'.view v x))
        (.port (.toNet a)) chan := by
    intro v
    have hrelay := hm.relay hb v
    generalize net'.view v = st at hrelay ⊢
    induction hrelay with
    | refl => exact ⟨h.onRoute v, fun _ _ _ => id⟩
    | tail _ hstep ih =>
        obtain ⟨x, c, hfwd⟩ := hstep
        obtain ⟨hroute, hpipe⟩ := ih
        exact ⟨hfwd.onRoute hroute, fun a d chan hchan =>
          hfwd.pipe hroute (fun m => start_of_isFrom m) (hpipe a d chan hchan)⟩
  exact h.silent hs hr (fun v => (hsteps v).1) fun v => (hsteps v).2

theorem flow_isFrom_singleton (c : Relay.Copy ℕ (ℕ × μ)) :
    Relay.flow (isFrom a) d [c] = if c.payload.1 = a ∧ d ∈ c.dests then [c.payload] else [] := by
  rw [Relay.flow_singleton]
  simp only [isFrom, decide_eq_true_eq]

/-- **Sending keeps the invariant**: the message is the last one on its way. -/
theorem Delivered.send (h : Delivered hcfg ls net) {node : ℕ} {content : μ}
    {destination : Finset ℕ} {messageSize : MessageSizeType} (hb : net'.Bounded)
    (hputs : Puts cfg linkLatency v [(.port (.toNet node), ⟨(node, content), destination⟩)]
      net net') :
    Delivered hcfg (ls ++ [(.send node v content destination messageSize, none)]) net' := by
  have hself : net'.view v (.port (.toNet node)) =
      net.view v (.port (.toNet node)) ++ [⟨(node, content), destination⟩] := by
    rw [hputs.view hb, List.filter_cons_of_pos (by simp)]
    rfl
  have hother : ∀ v' b, (v' ≠ v ∨ b ≠ .port (.toNet node)) → net'.view v' b = net.view v' b := by
    intro v' b hne
    unfold Network.view
    rw [hputs.other b v' (hne.imp_right fun hne q hq => by
      rw [List.mem_singleton.1 hq]
      exact hne.symm)]
  constructor
  · intro v' b c hc d hd
    by_cases hvb : v' ≠ v ∨ b ≠ .port (.toNet node)
    · rw [hother v' b hvb] at hc
      exact h.onRoute v' b c hc d hd
    · obtain ⟨rfl, rfl⟩ : v' = v ∧ b = .port (.toNet node) := by
        simpa only [not_or, not_not, ne_eq] using hvb
      rw [hself] at hc
      rcases List.mem_append.1 hc with hc | hc
      · exact h.onRoute v' _ c hc d hd
      · rw [List.mem_singleton.1 hc]
        exact .here _
  · intro v' a d
    obtain ⟨chan, hchan, heq⟩ := h.pipe v' a d
    have hnone : receivedBy v' a d
      (Move.send node v content destination messageSize, none) = none := rfl
    rw [sent_snoc, received_snoc, hnone, Option.toList_none, List.append_nil, heq]
    by_cases hmsg : node = a ∧ v = v' ∧ d ∈ destination
    · obtain ⟨rfl, rfl, hdest⟩ := hmsg
      refine ⟨chan ++ [(node, content)], hchan.push ?_ fun y _ hy => ?_, ?_⟩
      · rw [hself, Relay.flow_append, flow_isFrom_singleton, if_pos ⟨rfl, hdest⟩]
      · rw [hother v y (.inr hy)]
      · simp [sentBy, hdest]
    · refine ⟨chan, hchan.congr fun y _ => ?_, ?_⟩
      · by_cases hvb : v' ≠ v ∨ y ≠ .port (.toNet node)
        · rw [hother v' y hvb]
        · obtain ⟨rfl, rfl⟩ : v' = v ∧ y = .port (.toNet node) := by
            simpa only [not_or, not_not, ne_eq] using hvb
          rw [hself, Relay.flow_append, flow_isFrom_singleton, if_neg, List.append_nil]
          exact fun h => hmsg ⟨h.1, rfl, h.2⟩
      · rw [sentBy, if_neg hmsg, Option.toList_none, List.append_nil]

/-- The queue out of the network is next only on the way to its own node. -/
theorem Config.Sound.eq_of_next_fromNet (hcfg : cfg.Sound dist linkLatency) {x : Buf} {node : ℕ}
    (h : cfg.wiring.next x d = some (.port (.fromNet node))) : node = d := by
  cases x with
  | port p =>
      cases p with
      | fromNet _ => cases h
      | _ =>
          obtain ⟨s, -, hs⟩ := Option.bind_eq_some_iff.1 h
          obtain ⟨i, -, hi⟩ := Option.map_eq_some_iff.1 hs
          cases hi
  | intermediate s link =>
      obtain ⟨o, ho, hy⟩ := Option.bind_eq_some_iff.1 h
      split at hy
      · next hd =>
          have hout : o.out = .fromNet node := Buf.port.inj (Option.some.inj hy)
          rcases hcfg.closer s o (List.mem_of_getElem? ho) d hd with hout' | ⟨t, hout', -⟩
          · exact Port.fromNet.inj (hout.symm.trans hout')
          · cases hout.symm.trans hout'
      · cases hy

theorem Config.Sound.eq_of_route_fromNet {x : Buf} {node : ℕ}
    (h : Relay.Route hcfg.routing d x (.port (.fromNet node)))
    (hx : x ≠ .port (.fromNet node)) : node = d := by
  generalize hz : Buf.port (.fromNet node) = z at h hx
  induction h with
  | here _ => exact absurd rfl hx
  | @hop x y z hn _ ih =>
      by_cases hy : y = z
      · rw [hy, ← hz] at hn
        exact hcfg.eq_of_next_fromNet hn
      · exact ih hz hy

/-- A message that is received is for the node that receives it, and for no other one. -/
theorem Delivered.dests_fromNet (h : Delivered hcfg ls net) {node : ℕ} {m : Message μ}
    (hm : m.copy ∈ net.view v (.port (.fromNet node)))
    (hfits : Fits cfg (.port (.fromNet node)) m) : d ∈ m.copy.dests ↔ node = d := by
  have hall : ∀ d' ∈ m.copy.dests, node = d' := fun d' hd' =>
    Config.Sound.eq_of_route_fromNet (h.onRoute v _ _ hm d' hd') (by simp [start])
  refine ⟨hall d, ?_⟩
  rintro rfl
  have hne : m.getInternalDestination ≠ ∅ := hfits.nonempty (by simp)
  obtain ⟨d', hd'⟩ := Finset.nonempty_iff_ne_empty.2 hne
  rw [hall d' hd']
  exact hd'

/-- **Receiving keeps the invariant**: the message is the first one on its way. -/
theorem Delivered.receive (h : Delivered hcfg ls net) {node : ℕ} {m : Message μ}
    (hfits : Fits cfg (.port (.fromNet node)) m)
    (hpops : Pops cfg linkLatency (.port (.fromNet node)) v m net net') :
    Delivered hcfg (ls ++ [(.receive node v, some m)]) net' := by
  have hsame : ∀ v' b, (b, v') ≠ (Buf.port (.fromNet node), v) →
      net'.view v' b = net.view v' b := by
    intro v' b hne
    unfold Network.view
    rw [hpops.other b v' hne]
  have hmem : m.copy ∈ net.view v (.port (.fromNet node)) := hpops.view ▸ List.mem_cons_self
  constructor
  · intro v' b c hc
    by_cases hvb : (b, v') = (Buf.port (.fromNet node), v)
    · cases hvb
      exact h.onRoute v _ c (hpops.view ▸ List.mem_cons_of_mem _ hc)
    · rw [hsame v' b hvb] at hc
      exact h.onRoute v' b c hc
  · intro v' a d
    obtain ⟨chan, hchan, heq⟩ := h.pipe v' a d
    have hnone : sentBy v' a d ((.receive node v, some m) : Move μ × Option (Message μ)) = none :=
      rfl
    have hflow : Relay.flow (isFrom a) d (net.view v (.port (.fromNet node))) =
        (if m.origin = a ∧ node = d then [(m.origin, m.content)] else []) ++
          Relay.flow (isFrom a) d (net'.view v (.port (.fromNet node))) := by
      rw [hpops.view, ← List.singleton_append, Relay.flow_append, flow_isFrom_singleton]
      simp only [h.dests_fromNet hmem hfits]
      rfl
    rw [sent_snoc, received_snoc, hnone, Option.toList_none, List.append_nil, heq]
    by_cases hmsg : m.origin = a ∧ v = v' ∧ node = d
    · obtain ⟨rfl, rfl, rfl⟩ := hmsg
      have hroute : Relay.Route hcfg.routing node (.port (.toNet m.origin))
          (.port (.fromNet node)) :=
        h.onRoute v _ _ hmem node ((h.dests_fromNet hmem hfits).2 rfl)
      have hend : hcfg.routing.next (.port (.fromNet node)) node = none := rfl
      obtain ⟨rest, rfl⟩ := hchan.last_append hroute hend
      refine ⟨_, hchan.receive hroute hend fun y hy => ?_, ?_⟩
      · rw [hsame v y (by simp [hy])]
      · rw [hflow]
        simp [receivedBy]
    · refine ⟨chan, hchan.congr fun y _ => ?_, ?_⟩
      · by_cases hvb : (y, v') = (Buf.port (.fromNet node), v)
        · cases hvb
          rw [hflow, if_neg fun h => hmsg ⟨h.1, rfl, h.2⟩, List.nil_append]
        · rw [hsame v' y hvb]
      · rw [receivedBy, if_neg hmsg, Option.toList_none, List.append_nil]

/-- **A move keeps the invariant.** -/
theorem Delivered.effect (h : Delivered hcfg ls net) (he : Effect hcfg net l net')
    (hb : net'.Bounded) : Delivered hcfg (ls ++ [l]) net' := by
  cases he with
  | send hputs => exact h.send hb hputs
  | receive hfits hpops => exact h.receive hfits hpops
  | wakeup hmoves => exact h.moves hmoves hb (fun _ _ _ => rfl) fun _ _ _ => rfl
  | tick => exact h.silent (fun _ _ _ => rfl) (fun _ _ _ => rfl) h.onRoute fun _ _ _ _ => id

/-- **A run keeps the invariant**, as long as no counter overflows. -/
theorem Delivered.of_run (hcfg : cfg.Sound dist linkLatency)
    (hrun : Lts.Run (· = Network.init cfg) (NetStep cfg) ls net) (hb : net.Bounded) :
    Delivered hcfg ls net := by
  refine hrun.invariant (P := fun ls net => net.Bounded → Delivered hcfg ls net) ?_ ?_ hb
  · rintro _ rfl -
    exact .init hcfg
  · intro ls net l net' hrun ih hstep hb
    have he := (Network.Sound.of_run hcfg hrun).effect_of_step hcfg hstep
    exact (ih (hb.mono he.counter)).effect he hb

/-- **Messages are received in the order in which they were sent.** What a node has received from
another one on a virtual network is the beginning of what this one has sent to it there: nothing is
lost, made up, repeated or overtaken.  It is all of it, if no buffer holds a message from the one to
the other. -/
theorem received_in_order (hcfg : cfg.Sound dist linkLatency)
    (hrun : Lts.Run (· = Network.init cfg) (NetStep cfg) ls net) (hb : net.Bounded)
    (v a d : ℕ) :
    received v a d ls <+: sent v a d ls ∧
      ((∀ b, ∀ x ∈ (net.buf b v).prioHeap, x.msg.origin = a → d ∉ x.msg.getInternalDestination) →
        received v a d ls = sent v a d ls) := by
  obtain ⟨chan, hpipe, heq⟩ := (Delivered.of_run hcfg hrun hb).pipe v a d
  refine ⟨⟨chan.map Prod.snd, heq.symm⟩, fun hnone => ?_⟩
  have hempty : chan = [] := by
    refine hpipe.eq_nil fun b => ?_
    rw [Relay.flow, List.map_eq_nil_iff, List.filter_eq_nil_iff]
    intro c hc
    obtain ⟨x, hx, rfl⟩ := List.mem_map.1 hc
    rw [Bool.and_eq_true]
    rintro ⟨ha, hdest⟩
    exact hnone b x hx (of_decide_eq_true ha) (of_decide_eq_true hdest)
  rw [heq, hempty, List.map_nil, List.append_nil]

theorem pairNet_four_idle (c : Consumer) :
    (pairNet 4).time ∉ (pairNet 4).scheduledWakeups c := by
  rcases c with (_ | s) | ⟨_ | s, _ | _ | link⟩ | node
  · decide
  · exact Finset.notMem_empty _
  · decide
  · decide
  · exact Finset.notMem_empty _
  · exact Finset.notMem_empty _
  · exact Finset.notMem_empty _
  · exact Finset.notMem_empty _
  · exact Finset.notMem_empty _

theorem pairNet_seven_idle (c : Consumer) :
    (pairNet 7).time ∉ (pairNet 7).scheduledWakeups c := by
  rcases c with (_ | _ | s) | ⟨_ | s, _ | _ | link⟩ | (_ | node)
  · decide
  · decide
  · exact Finset.notMem_empty _
  · decide
  · decide
  · exact Finset.notMem_empty _
  · exact Finset.notMem_empty _
  · exact Finset.notMem_empty _
  · exact Finset.notMem_empty _
  · decide
  · exact Finset.notMem_empty _

theorem pairNet_bounded : (pairNet 10).Bounded := by
  rintro (((_ | node) | ⟨_ | s, _ | _ | t⟩ | (_ | node)) | ⟨_ | s, _ | _ | link⟩) (_ | v)
  all_goals first | decide | exact Nat.two_pow_pos 32

/-- The moves, and the messages that are received in the end. -/
def pairRun : List (Move ℕ × Option (Message ℕ)) :=
  [(.send 0 0 7 {0, 1} .Control, none), (.send 0 0 8 {0, 1} .Control, none), (.tick, none),
    (.wakeup (.switch 0), none), (.tick, none), (.wakeup (.throttle 0 0), none),
    (.wakeup (.throttle 0 1), none), (.tick, none),
    (.receive 0 0, some ⟨7, 0, {0, 1}, .Control, some {0}, 3, 0⟩),
    (.receive 0 0, some ⟨8, 0, {0, 1}, .Control, some {0}, 3, 0⟩)]

theorem pairRun_ten :
    Lts.Run (· = Network.init .pair) (NetStep .pair) pairRun (pairNet 10) := by
  have e₄ : (pairNet 3).time ∈ (pairNet 3).scheduledWakeups (.switch 0) := by decide
  have e₆ : (pairNet 5).time ∈ (pairNet 5).scheduledWakeups (.throttle 0 0) := by decide
  have e₇ : (pairNet 6).time ∈ (pairNet 6).scheduledWakeups (.throttle 0 1) := by decide
  have h₄ := pairRun_three.snoc (pairNet_step rfl e₄ rfl)
  have h₅ := h₄.snoc (pairNet_step rfl pairNet_four_idle rfl)
  have h₆ := h₅.snoc (pairNet_step rfl e₆ rfl)
  have h₇ := h₆.snoc (pairNet_step rfl e₇ rfl)
  have h₈ := h₇.snoc (pairNet_step rfl pairNet_seven_idle rfl)
  have h₉ := h₈.snoc (pairNet_step (m := .receive 0 0) rfl rfl rfl)
  exact h₉.snoc (pairNet_step (m := .receive 0 0) rfl rfl rfl)

theorem received_in_order_pair : received 0 0 0 pairRun = [7, 8] ∧ sent 0 0 1 pairRun = [7, 8] ∧
    received 0 0 0 pairRun <+: sent 0 0 0 pairRun ∧
    received 0 0 1 pairRun <+: sent 0 0 1 pairRun := by
  refine ⟨rfl, rfl, ?_, ?_⟩
  · exact (received_in_order Config.pair_sound pairRun_ten pairNet_bounded 0 0 _).1
  · exact (received_in_order Config.pair_sound pairRun_ten pairNet_bounded 0 0 _).1

end Moves

end Net
