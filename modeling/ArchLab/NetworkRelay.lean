/-
**The wakeups of the network relay messages.**

What a switch does with a message is to forward it, in the sense of `ArchLab/Relay.lean`, from an in
port to the buffers in front of its out ports, and a throttle forwards it from there to the next
port.  So a wakeup, whatever the order in which it visits virtual networks and in ports and however
much bandwidth there is, is a sequence of such steps.  The routing tables cover all nodes, messages
do not overtake each other, and the loops end; so nothing in it fails but the arithmetic of `int`:
a bandwidth or the size of a message may be too large for it, and the counter of a buffer is passed
on as one.

Main definitions:

* `Net.Config.Sound` — the routing tables cover all nodes, and lead closer to them;
* `Net.Config.InRange` — bandwidths and sizes are `int`s;
* `Net.Config.Stops` — the failures that are left;
* `Net.Config.Sound.routing` — where a buffer hands its messages on to;
* `Net.Network.Sound` — what holds of the buffers and throttles at any time;
* `Net.Moves` — messages are forwarded.

Main results:

* `Net.outputLinks_filter` — **the routing loop divides the destinations** among the out ports;
* `Net.Network.Sound.switchWakeup`, `Net.Network.Sound.throttleWakeup` — **wakeups forward
  messages**.
-/

import ArchLab.Relay
import ArchLab.SimpleNetwork
import Mathlib.Logic.Relation
import Mathlib.Tactic.FinCases

set_option relaxedAutoImplicit false
set_option autoImplicit false

namespace Net

open Refine

variable {μ : Type}

/-! ### The routing loop -/

/-- The first out port, from number `link` on, that leads to a node. -/
def firstLink (link : ℕ) : List OutPort → ℕ → Option ℕ
  | [], _ => none
  | o :: os, d => if d ∈ o.routingTableEntry then some link else firstLink (link + 1) os d

theorem le_of_firstLink {link i d : ℕ} {os : List OutPort} (h : firstLink link os d = some i) :
    link ≤ i := by
  induction os generalizing link with
  | nil => cases h
  | cons o os ih =>
      rw [firstLink] at h
      split at h
      · exact (Option.some.inj h).le
      · exact (Nat.le_succ link).trans (ih h)

/-- The first out port that leads to a node does so. -/
theorem getElem?_of_firstLink {link i d : ℕ} {os : List OutPort}
    (h : firstLink link os d = some (link + i)) :
    ∃ o, os[i]? = some o ∧ d ∈ o.routingTableEntry := by
  induction os generalizing link i with
  | nil => cases h
  | cons o os ih =>
      rw [firstLink] at h
      split at h
      · next hd =>
          obtain rfl : i = 0 := by simpa using Option.some.inj h
          exact ⟨o, rfl, hd⟩
      · have hle := le_of_firstLink h
        obtain ⟨i, rfl⟩ : ∃ j, i = j + 1 := ⟨i - 1, by omega⟩
        rw [Nat.add_comm i 1, ← Nat.add_assoc] at h
        exact ih h

theorem exists_firstLink (link : ℕ) {d : ℕ} {os : List OutPort}
    (h : ∃ o ∈ os, d ∈ o.routingTableEntry) : ∃ i, firstLink link os d = some i := by
  induction os generalizing link with
  | nil =>
      obtain ⟨o, ho, -⟩ := h
      cases ho
  | cons o os ih =>
      rw [firstLink]
      split
      · exact ⟨link, rfl⟩
      · next hd =>
          obtain ⟨o', ho', hd'⟩ := h
          rcases List.mem_cons.1 ho' with rfl | ho'
          · exact absurd hd' hd
          · exact ih (link + 1) ⟨o', ho', hd'⟩

/-- What is left over leads nowhere. -/
theorem outputLinks_rest (link : ℕ) (os : List OutPort) (dsts : Finset ℕ) :
    (outputLinks link os dsts).2 = dsts.filter fun d => firstLink link os d = none := by
  induction os generalizing link dsts with
  | nil => simp [outputLinks, firstLink]
  | cons o os ih =>
      ext d
      rw [outputLinks]
      split
      · next hnone =>
          have hd : d ∈ dsts → d ∉ o.routingTableEntry := fun hd ho =>
            Finset.notMem_empty d (hnone ▸ Finset.mem_inter.2 ⟨hd, ho⟩)
          rw [ih, Finset.mem_filter, Finset.mem_filter, firstLink]
          refine and_congr_right fun h => ?_
          rw [if_neg (hd h)]
      · simp only [ih]
        rw [Finset.mem_filter, Finset.mem_filter, Finset.mem_sdiff, firstLink]
        split
        · next ho => simp [ho]
        · next ho => simp [ho]

/-- **The routing loop divides the destinations** among the out ports: each takes those for which it
is the first that leads there, if there are any. -/
theorem outputLinks_filter (link : ℕ) (os : List OutPort) (dsts : Finset ℕ) (i : ℕ) :
    (outputLinks link os dsts).1.filter (fun l => l.1 = i) =
      if dsts.filter (fun d => firstLink link os d = some i) = ∅ then []
      else [(i, dsts.filter fun d => firstLink link os d = some i)] := by
  induction os generalizing link dsts with
  | nil => simp [outputLinks, firstLink]
  | cons o os ih =>
      -- a later out port has a larger number
      have hlater : ∀ ds : Finset ℕ,
          ds.filter (fun d => firstLink (link + 1) os d = some link) = ∅ := by
        intro ds
        refine Finset.filter_eq_empty_iff.2 fun d _ h => ?_
        have := le_of_firstLink h
        omega
      rw [outputLinks]
      split
      · next hnone =>
          have hsame : dsts.filter (fun d => firstLink link (o :: os) d = some i) =
              dsts.filter fun d => firstLink (link + 1) os d = some i := by
            refine Finset.filter_congr fun d hd => ?_
            have ho : d ∉ o.routingTableEntry := fun ho =>
              Finset.notMem_empty d (hnone ▸ Finset.mem_inter.2 ⟨hd, ho⟩)
            rw [firstLink, if_neg ho]
          rw [ih, hsame]
      · next hsome =>
          by_cases hi : link = i
          · subst hi
            have hsame : dsts.filter (fun d => firstLink link (o :: os) d = some link) =
                dsts ∩ o.routingTableEntry := by
              ext d
              rw [Finset.mem_filter, Finset.mem_inter, firstLink]
              refine and_congr_right fun _ => ?_
              split
              · next ho => simp [ho]
              · next ho =>
                  simp only [ho, iff_false]
                  intro h
                  have := le_of_firstLink h
                  omega
            rw [List.filter_cons_of_pos (by simp), ih, hlater, if_pos rfl, hsame, if_neg hsome]
          · have hsame : dsts.filter (fun d => firstLink link (o :: os) d = some i) =
                (dsts \ o.routingTableEntry).filter fun d =>
                  firstLink (link + 1) os d = some i := by
              ext d
              rw [Finset.mem_filter, Finset.mem_filter, Finset.mem_sdiff, firstLink]
              split
              · next ho => simp [ho, hi]
              · next ho => simp [ho]
            rw [List.filter_cons_of_neg (by simpa using hi), ih, hsame]

/-! ### Where messages are handed on to -/

/-- The buffer that comes next on the way to a node. -/
def Wiring.next (w : Wiring) : Buf → ℕ → Option Buf
  | .port (.fromNet _), _ => none
  | .port p, d =>
      (w.consumer p).bind fun s => (firstLink 0 (w.outPorts s) d).map (.intermediate s)
  | .intermediate s link, d =>
      (w.outPorts s)[link]?.bind fun o =>
        if d ∈ o.routingTableEntry then some (.port o.out) else none

/-- How far a buffer is from a node, if switches are as far as `dist` says. -/
def Wiring.rank (w : Wiring) (dist : ℕ → ℕ → ℕ) : Buf → ℕ → ℕ
  | .port (.fromNet _), _ => 0
  | .port p, d =>
      match w.consumer p with
      | none => 0
      | some s => 2 * dist s d + 2
  | .intermediate s _, d => 2 * dist s d + 1

/-- The network is wired up, its routing tables cover all nodes and lead closer to them, and the
virtual networks that are in use are ordered. -/
structure Config.Sound (cfg : Config) (dist : ℕ → ℕ → ℕ) (linkLatency : Port → ℕ) : Prop where
  warmupEnabled : cfg.env.warmupEnabled = false
  ordering : ∀ v, cfg.ordering v ≠ some false
  latency : ∀ node < cfg.nodes, ∀ v, cfg.ordering v = some true → 0 < cfg.latency node v
  endpointBandwidth : 0 < cfg.endpointBandwidth
  toNet : ∀ node < cfg.nodes, ∃ s, cfg.wiring.consumer (.toNet node) = some s
  inPort : ∀ s, ∀ p ∈ cfg.wiring.inPorts s,
    cfg.wiring.consumer p = some s ∧ ∀ node, p ≠ .fromNet node
  outPort : ∀ s, ∀ o ∈ cfg.wiring.outPorts s, o.linkLatency = linkLatency o.out ∧
    0 < o.linkLatency ∧ 0 < o.linkBandwidthMultiplier ∧
    ((∃ node, o.out = .fromNet node) ∨
      ∃ t, o.out = .link s t ∧ cfg.wiring.consumer (.link s t) = some t)
  cover : ∀ p s, cfg.wiring.consumer p = some s → ∀ d < cfg.nodes,
    ∃ o ∈ cfg.wiring.outPorts s, d ∈ o.routingTableEntry
  closer : ∀ s, ∀ o ∈ cfg.wiring.outPorts s, ∀ d ∈ o.routingTableEntry,
    o.out = .fromNet d ∨ ∃ t, o.out = .link s t ∧ dist t d < dist s d

/-- The products that throttles compute are `int`s. -/
structure Config.InRange (cfg : Config) : Prop where
  bandwidth : ∀ s, ∀ o ∈ cfg.wiring.outPorts s,
    cfg.endpointBandwidth * o.linkBandwidthMultiplier < 2 ^ 31
  controlMsgSize : cfg.controlMsgSize * MESSAGE_SIZE_MULTIPLIER < 2 ^ 31
  dataMsgSize : cfg.dataMsgSize * MESSAGE_SIZE_MULTIPLIER < 2 ^ 31

/-- How a network with sound routing tables may stop. -/
def Config.Stops (cfg : Config) (e : Fault) : Prop := Overrun e ∨ (e = .overflow ∧ ¬cfg.InRange)

/-- Two switches with a link in each direction, and a node at each of them. -/
def Wiring.pair : Wiring where
  inPorts s := if s = 0 then [.toNet 0, .link 1 0] else if s = 1 then [.toNet 1, .link 0 1] else []
  outPorts s :=
    if s = 0 then [⟨.fromNet 0, {0}, 1, 1⟩, ⟨.link 0 1, {1}, 1, 1⟩]
    else if s = 1 then [⟨.fromNet 1, {1}, 1, 1⟩, ⟨.link 1 0, {0}, 1, 1⟩]
    else []
  consumer
    | .toNet 0 | .link 1 0 => some 0
    | .toNet 1 | .link 0 1 => some 1
    | _ => none

/-- Its parameters: one virtual network, which is ordered. -/
def Config.pair : Config where
  wiring := .pair
  nodes := 2
  virtualNetworks := 1
  ordering _ := some true
  latency _ _ := 1
  bufferSize := 0
  endpointBandwidth := 16000
  controlMsgSize := 8
  dataMsgSize := 72
  env := ⟨fun _ => 0, false, false⟩

/-- The routing tables of the two switches lead to the nodes. -/
theorem Config.pair_sound : Config.pair.Sound (fun s d => if s = d then 0 else 1) fun _ => 1 where
  warmupEnabled := rfl
  ordering _ := by simp [Config.pair]
  latency _ _ _ _ := Nat.one_pos
  endpointBandwidth := by decide
  toNet node h := by
    obtain rfl | rfl : node = 0 ∨ node = 1 :=
      Nat.le_one_iff_eq_zero_or_eq_one.1 (Nat.le_of_lt_succ h)
    · exact ⟨0, rfl⟩
    · exact ⟨1, rfl⟩
  inPort s p hp := by
    simp only [Config.pair, Wiring.pair] at hp ⊢
    split at hp
    · subst s
      fin_cases hp <;> simp
    · split at hp
      · subst s
        fin_cases hp <;> simp
      · cases hp
  outPort s o ho := by
    simp only [Config.pair, Wiring.pair] at ho ⊢
    split at ho
    · subst s
      fin_cases ho <;> simp
    · split at ho
      · subst s
        fin_cases ho <;> simp
      · cases ho
  cover p s hp d hd := by
    have hs : s = 0 ∨ s = 1 := by
      simp only [Config.pair, Wiring.pair] at hp
      split at hp <;> simp_all
    obtain rfl | rfl : d = 0 ∨ d = 1 := Nat.le_one_iff_eq_zero_or_eq_one.1 (Nat.le_of_lt_succ hd)
    · rcases hs with rfl | rfl <;> simp [Config.pair, Wiring.pair]
    · rcases hs with rfl | rfl <;> simp [Config.pair, Wiring.pair]
  closer s o ho d hd := by
    simp only [Config.pair, Wiring.pair] at ho
    split at ho
    · subst s
      fin_cases ho <;> simp_all
    · split at ho
      · subst s
        fin_cases ho <;> simp_all
      · cases ho

theorem Config.pair_inRange : Config.pair.InRange where
  bandwidth s o ho := by
    simp only [Config.pair, Wiring.pair] at ho ⊢
    split at ho
    · fin_cases ho <;> simp
    · split at ho
      · fin_cases ho <;> simp
      · cases ho
  controlMsgSize := by decide
  dataMsgSize := by decide

/-- The delay with which messages are put into a buffer. -/
def Config.delta (cfg : Config) (linkLatency : Port → ℕ) : Buf → ℕ → ℕ
  | .port (.toNet node), v => cfg.latency node v
  | .port p, _ => linkLatency p
  | .intermediate _ _, _ => 1

section Sound

variable {cfg : Config} {dist : ℕ → ℕ → ℕ} {linkLatency : Port → ℕ}

theorem Wiring.next_port {w : Wiring} {p : Port} {s d : ℕ} (hp : w.consumer p = some s)
    (hnode : ∀ node, p ≠ .fromNet node) :
    w.next (.port p) d = (firstLink 0 (w.outPorts s) d).map (.intermediate s) := by
  cases p with
  | toNet node => simp [Wiring.next, hp]
  | link s' t => simp [Wiring.next, hp]
  | fromNet node => exact absurd rfl (hnode node)

theorem Wiring.next_intermediate {w : Wiring} {s link d : ℕ} {o : OutPort}
    (ho : (w.outPorts s)[link]? = some o) (hd : d ∈ o.routingTableEntry) :
    w.next (.intermediate s link) d = some (.port o.out) := by
  simp [Wiring.next, ho, hd]

/-- **Every hop leads closer.** -/
theorem Config.Sound.rank_lt (h : cfg.Sound dist linkLatency) {x y : Buf} {d : ℕ}
    (hn : cfg.wiring.next x d = some y) :
    cfg.wiring.rank dist y d < cfg.wiring.rank dist x d := by
  have hport : ∀ p, (∀ node, p ≠ Port.fromNet node) → x = .port p →
      cfg.wiring.rank dist y d < cfg.wiring.rank dist x d := by
    rintro p hnode rfl
    cases hs : cfg.wiring.consumer p with
    | none =>
        cases p with
        | fromNet node => exact absurd rfl (hnode node)
        | _ => simp [Wiring.next, hs] at hn
    | some s =>
        rw [Wiring.next_port hs hnode] at hn
        obtain ⟨i, -, rfl⟩ := Option.map_eq_some_iff.1 hn
        cases p with
        | fromNet node => exact absurd rfl (hnode node)
        | _ => simp [Wiring.rank, hs]
  cases x with
  | port p =>
      cases p with
      | fromNet node => cases hn
      | toNet node => exact hport _ (by simp) rfl
      | link s t => exact hport _ (by simp) rfl
  | intermediate s link =>
      obtain ⟨o, ho, hy⟩ := Option.bind_eq_some_iff.1 hn
      have hmem : o ∈ cfg.wiring.outPorts s := List.mem_of_getElem? ho
      split at hy
      · next hd =>
          cases hy
          rcases h.closer s o hmem d hd with hout | ⟨t, hout, hlt⟩
          · rw [hout]
            exact Nat.succ_pos _
          · rcases (h.outPort s o hmem).2.2.2 with ⟨node, hout'⟩ | ⟨t', hout', ht⟩
            · rw [hout] at hout'
              cases hout'
            · obtain rfl : t = t' := by
                rw [hout] at hout'
                exact (Port.link.inj hout').2
              rw [hout]
              simp only [Wiring.rank, ht]
              omega
      · cases hy

/-- The buffers as a relay. -/
def Config.Sound.routing (h : cfg.Sound dist linkLatency) : Relay.Routing Buf ℕ where
  next := cfg.wiring.next
  rank := cfg.wiring.rank dist
  rank_lt := h.rank_lt

end Sound

/-! ### What holds at any time -/

/-- What the relay sees of a message: the sender, the content, and the destinations. -/
def Message.copy (m : Message μ) : Relay.Copy ℕ (ℕ × μ) :=
  ⟨(m.origin, m.content), m.getInternalDestination⟩

namespace Network

/-- The queues of a virtual network. -/
def view (net : Network μ) (v : ℕ) (b : Buf) : List (Relay.Copy ℕ (ℕ × μ)) :=
  (net.buf b v).prioHeap.map fun x => x.msg.copy

/-- No counter of a buffer has become larger than 32 bits. -/
def Bounded (net : Network μ) : Prop := ∀ b v, (net.buf b v).msgCounter < 2 ^ 32

end Network

/-- A message is for nodes only and has a size; inside of the network it has a destination, and in
front of an out port, the out port leads to all of them. -/
structure Fits (cfg : Config) (b : Buf) (m : Message μ) : Prop where
  nodes : m.getInternalDestination ⊆ Finset.range cfg.nodes
  messageSize : m.messageSize ≠ .Undefined
  nonempty : (∀ node, b ≠ .port (.toNet node)) → m.getInternalDestination ≠ ∅
  inside : ∀ s link, b = .intermediate s link →
    ∃ o, (cfg.wiring.outPorts s)[link]? = some o ∧
      m.getInternalDestination ⊆ o.routingTableEntry

/-- A buffer of a virtual network that is in use is ordered. -/
def OrderedAt (cfg : Config) (linkLatency : Port → ℕ) (now : ℕ) (b : Buf) (v : ℕ)
    (x : MessageBuffer μ) : Prop :=
  cfg.ordering v = some true → x.Ordered cfg.env now (cfg.delta linkLatency b v)

/-- One of a virtual network that is not in use is empty. -/
def Idle (cfg : Config) (_ : Buf) (v : ℕ) (x : MessageBuffer μ) : Prop :=
  cfg.ordering v ≠ some true → x.prioHeap = []

/-- All messages in a buffer may be there. -/
def AllFit (cfg : Config) (b : Buf) (_ : ℕ) (x : MessageBuffer μ) : Prop :=
  ∀ y ∈ x.prioHeap, Fits cfg b y.msg

/-- What holds of the network at any time. -/
structure Network.Sound (cfg : Config) (linkLatency : Port → ℕ) (net : Network μ) : Prop where
  ordered : ∀ b v, OrderedAt cfg linkLatency net.time b v (net.buf b v)
  idle : ∀ b v, Idle cfg b v (net.buf b v)
  fits : ∀ b v, AllFit cfg b v (net.buf b v)
  units : ∀ s link v, 0 ≤ (net.throttle s link).unitsRemaining v
  throttle : ∀ s link, (net.scheduledWakeups (.throttle s link)).Nonempty →
    ∃ o, (cfg.wiring.outPorts s)[link]? = some o

/-- The messages `ps` are put into buffers. -/
structure Puts (cfg : Config) (linkLatency : Port → ℕ) (v : ℕ)
    (ps : List (Buf × Relay.Copy ℕ (ℕ × μ))) (net net' : Network μ) : Prop where
  sound : net'.Sound cfg linkLatency
  time : net'.time = net.time
  counter : ∀ b v, (net.buf b v).msgCounter ≤ (net'.buf b v).msgCounter
  other : ∀ b v', (v' ≠ v ∨ ∀ q ∈ ps, q.1 ≠ b) → net'.buf b v' = net.buf b v'
  view : net'.Bounded → ∀ b,
    net'.view v b = net.view v b ++ (ps.filter fun q => q.1 = b).map Prod.snd

/-- The message `m` is taken from the front of a buffer. -/
structure Pops (cfg : Config) (linkLatency : Port → ℕ) (b : Buf) (v : ℕ) (m : Message μ)
    (net net' : Network μ) : Prop where
  sound : net'.Sound cfg linkLatency
  time : net'.time = net.time
  counter : ∀ b v, (net'.buf b v).msgCounter = (net.buf b v).msgCounter
  other : ∀ b' v', (b', v') ≠ (b, v) → net'.buf b' v' = net.buf b' v'
  view : net.view v b = m.copy :: net'.view v b

section Step

variable {cfg : Config} {linkLatency : Port → ℕ} {net net₁ net₂ : Network μ} {b : Buf} {v : ℕ}
  {m : Message μ}

theorem Network.Bounded.mono (h : net₁.Bounded)
    (hle : ∀ b v, (net.buf b v).msgCounter ≤ (net₁.buf b v).msgCounter) : net.Bounded :=
  fun b v => Nat.lt_of_le_of_lt (hle b v) (h b v)

theorem Puts.nil (h : net.Sound cfg linkLatency) : Puts cfg linkLatency v [] net net :=
  ⟨h, rfl, fun _ _ => le_rfl, fun _ _ _ => rfl, fun _ b => by simp⟩

theorem Puts.append {ps qs : List (Buf × Relay.Copy ℕ (ℕ × μ))}
    (h₁ : Puts cfg linkLatency v ps net net₁) (h₂ : Puts cfg linkLatency v qs net₁ net₂) :
    Puts cfg linkLatency v (ps ++ qs) net net₂ where
  sound := h₂.sound
  time := h₂.time.trans h₁.time
  counter b v := (h₁.counter b v).trans (h₂.counter b v)
  other b v' h := by
    have hps : v' ≠ v ∨ ∀ q ∈ ps, q.1 ≠ b :=
      h.imp_right fun h q hq => h q (List.mem_append_left _ hq)
    have hqs : v' ≠ v ∨ ∀ q ∈ qs, q.1 ≠ b :=
      h.imp_right fun h q hq => h q (List.mem_append_right _ hq)
    rw [h₂.other b v' hqs, h₁.other b v' hps]
  view hb b := by
    rw [h₂.view hb, h₁.view (hb.mono h₂.counter), List.filter_append, List.map_append,
      List.append_assoc]

theorem Network.setBuf_self (x : MessageBuffer μ) : (net.setBuf b v x).buf b v = x := by
  simp [Network.setBuf]

theorem Network.setBuf_of_ne (x : MessageBuffer μ) {b' : Buf} {v' : ℕ}
    (h : (b', v') ≠ (b, v)) : (net.setBuf b v x).buf b' v' = net.buf b' v' := by
  by_cases hb : b' = b
  · subst hb
    have hv : v' ≠ v := by
      rintro rfl
      exact h rfl
    simp [Network.setBuf, Function.update_of_ne hv]
  · simp [Network.setBuf, Function.update_of_ne hb]

theorem Network.forall_setBuf {x : MessageBuffer μ} {P : Buf → ℕ → MessageBuffer μ → Prop}
    (h : ∀ b v, P b v (net.buf b v)) (hx : P b v x) (b' : Buf) (v' : ℕ) :
    P b' v' ((net.setBuf b v x).buf b' v') := by
  by_cases hb : (b', v') = (b, v)
  · cases hb
    rw [Network.setBuf_self]
    exact hx
  · rw [Network.setBuf_of_ne x hb]
    exact h b' v'

/-- The network after a message has been put into a buffer. -/
theorem Network.enqueue_ok {delta : ℕ} {c : Consumer} {x : MessageBuffer μ} {rng arrival : ℕ}
    (hc : cfg.consumerOf b = some c)
    (he : (net.buf b v).enqueue cfg.env net.time net.rng m delta = .ok (x, rng, arrival)) :
    ∃ net', net.enqueue cfg b v m delta = .ok net' ∧ net'.buf = (net.setBuf b v x).buf ∧
      net'.time = net.time ∧ net'.throttle = net.throttle ∧
      net'.scheduledWakeups =
        Function.update net.scheduledWakeups c (insert arrival (net.scheduledWakeups c)) := by
  unfold Network.enqueue
  rw [he, hc]
  cases c with
  | switch s => exact ⟨_, rfl, rfl, rfl, rfl, rfl⟩
  | throttle s link => exact ⟨_, rfl, rfl, rfl, rfl, rfl⟩
  | controller node => exact ⟨_, rfl, rfl, rfl, rfl, rfl⟩

theorem Config.consumerOf_throttle {s link : ℕ}
    (h : cfg.consumerOf b = some (.throttle s link)) : b = .intermediate s link := by
  cases b with
  | port p =>
      cases p with
      | fromNet node => cases h
      | _ =>
          obtain ⟨_, -, h⟩ := Option.map_eq_some_iff.1 h
          cases h
  | intermediate s' link' =>
      cases h
      rfl

/-- **A message is put into a buffer**, unless it is refused. -/
theorem Network.Sound.enqueue (h : net.Sound cfg linkLatency)
    (hw : cfg.env.warmupEnabled = false) (hv : cfg.ordering v = some true)
    (hd : 0 < cfg.delta linkLatency b v) (hc : ∃ c, cfg.consumerOf b = some c)
    (hm : m.lastEnqueueTime ≤ net.time) (hfits : Fits cfg b m) :
    Meets cfg.Stops (Puts cfg linkLatency v [(b, m.copy)] net)
      (net.enqueue cfg b v m (cfg.delta linkLatency b v)) := by
  obtain ⟨c, hc⟩ := hc
  rcases ((h.ordered b v hv).enqueue hw hd hm net.rng).cases with
    ⟨⟨x, rng, arrival⟩, he, hord, hcount, y, hy, hmem, hheap⟩ | ⟨e, he, hover⟩
  swap
  · rw [Network.enqueue, he]
    exact .inl hover
  obtain ⟨net', hnet, hbuf, htime, hthrottle, hsched⟩ := Network.enqueue_ok hc he
  refine Meets.of_ok hnet ⟨?_, htime, ?_, ?_, ?_⟩
  · refine ⟨?_, ?_, ?_, ?_, ?_⟩
    · rw [hbuf, htime]
      exact Network.forall_setBuf (P := OrderedAt cfg linkLatency net.time) h.ordered fun _ => hord
    · rw [hbuf]
      exact Network.forall_setBuf (P := Idle cfg) h.idle fun hv' => absurd hv hv'
    · rw [hbuf]
      refine Network.forall_setBuf (P := AllFit cfg) h.fits fun z hz => ?_
      rcases (hmem z).1 hz with rfl | hz
      · rw [hy]
        exact ⟨hfits.nodes, hfits.messageSize, hfits.nonempty, hfits.inside⟩
      · exact h.fits b v z hz
    · rw [hthrottle]
      exact h.units
    · intro s link hs
      rw [hsched] at hs
      by_cases hb : c = .throttle s link
      · subst hb
        obtain ⟨o, ho, -⟩ := hfits.inside s link (cfg.consumerOf_throttle hc)
        exact ⟨o, ho⟩
      · rw [Function.update_of_ne (Ne.symm hb)] at hs
        exact h.throttle s link hs
  · rw [hbuf]
    exact Network.forall_setBuf (P := fun b v x => (net.buf b v).msgCounter ≤ x.msgCounter)
      (fun _ _ => le_rfl) (hcount ▸ Nat.le_succ _)
  · intro b' v' hne
    rw [hbuf]
    refine Network.setBuf_of_ne x ?_
    rintro ⟨⟩
    rcases hne with hne | hne
    · exact hne rfl
    · exact hne _ (List.mem_singleton_self _) rfl
  · intro hb b'
    unfold Network.view
    rw [hbuf]
    by_cases hbb : b' = b
    · subst hbb
      have hlt : x.msgCounter < 2 ^ 32 := by
        have := hb b' v
        rwa [hbuf, Network.setBuf_self] at this
      rw [Network.setBuf_self, hheap hlt, List.map_append, List.map_singleton, hy,
        List.filter_cons_of_pos (by simp)]
      rfl
    · rw [Network.setBuf_of_ne x (by simp [hbb]),
        List.filter_cons_of_neg (by simpa using Ne.symm hbb)]
      simp

/-- A message that is ready is taken from its buffer, without a fault. -/
theorem Network.Sound.pop (h : net.Sound cfg linkLatency)
    (hr : (net.buf b v).isReady net.time = true) :
    ∃ m net', (net.buf b v).peekMsgPtr net.time = .ok m ∧ net.pop b v = .ok net' ∧
      cfg.ordering v = some true ∧ m.lastEnqueueTime ≤ net.time ∧ Fits cfg b m ∧
      Pops cfg linkLatency b v m net net' := by
  have hv : cfg.ordering v = some true := by
    by_contra hv
    rw [MessageBuffer.isReady, h.idle b v hv] at hr
    cases hr
  obtain ⟨x, rest, b', hheap, hx, hpeek, hpop, hrest, hord, hcount⟩ :=
    (h.ordered b v hv).pop hr
  refine ⟨x.msg, net.setBuf b v b', hpeek, ?_, hv, hx, ?_, ?_, rfl, ?_, ?_, ?_⟩
  · rw [Network.pop, hpop]
    rfl
  · exact h.fits b v x (hheap ▸ List.mem_cons_self)
  · refine ⟨Network.forall_setBuf (P := OrderedAt cfg linkLatency net.time) h.ordered fun _ => hord,
      Network.forall_setBuf (P := Idle cfg) h.idle fun hv' => absurd hv hv', ?_, h.units,
      h.throttle⟩
    refine Network.forall_setBuf (P := AllFit cfg) h.fits fun y hy => h.fits b v y ?_
    rw [hheap]
    exact List.mem_cons_of_mem x (hrest ▸ hy)
  · exact Network.forall_setBuf (P := fun b v x => x.msgCounter = (net.buf b v).msgCounter)
      (fun _ _ => rfl) hcount
  · exact fun b'' v' hne => Network.setBuf_of_ne b' hne
  · unfold Network.view
    rw [Network.setBuf_self, hheap, hrest, List.map_cons]

theorem Pops.length (h : Pops cfg linkLatency b v m net net₁) :
    (net₁.buf b v).prioHeap.length + 1 = (net.buf b v).prioHeap.length := by
  have hlen := congrArg List.length h.view
  rw [List.length_cons, Network.view, Network.view, List.length_map, List.length_map] at hlen
  exact hlen.symm

end Step

/-! ### Forwarding -/

section Moves

variable {cfg : Config} {dist : ℕ → ℕ → ℕ} {linkLatency : Port → ℕ}
  {net net₁ net₂ : Network μ} {s link v : ℕ} {p : Port} {m : Message μ}

/-- Messages are forwarded, and nothing else happens to the queues. -/
structure Moves (hcfg : cfg.Sound dist linkLatency) (net net' : Network μ) : Prop where
  sound : net'.Sound cfg linkLatency
  time : net'.time = net.time
  counter : ∀ b v, (net.buf b v).msgCounter ≤ (net'.buf b v).msgCounter
  relay : net'.Bounded → ∀ v, Relation.ReflTransGen
    (fun st st' => ∃ x c, Relay.Forward hcfg.routing x c st st') (net.view v) (net'.view v)

variable (hcfg : cfg.Sound dist linkLatency)

theorem Moves.trans (h₁ : Moves hcfg net net₁) (h₂ : Moves hcfg net₁ net₂) :
    Moves hcfg net net₂ where
  sound := h₂.sound
  time := h₂.time.trans h₁.time
  counter b v := (h₁.counter b v).trans (h₂.counter b v)
  relay hb v := (h₁.relay (hb.mono h₂.counter) v).trans (h₂.relay hb v)

/-- The buffers stay as they are. -/
theorem Moves.of_buf (h : net₁.Sound cfg linkLatency) (hbuf : net₁.buf = net.buf)
    (htime : net₁.time = net.time) : Moves hcfg net net₁ where
  sound := h
  time := htime
  counter b v := by rw [hbuf]
  relay _ v := by
    have hview : net₁.view v = net.view v := by
      funext b
      rw [Network.view, hbuf]
      rfl
    rw [hview]

/-- A message is taken from one buffer, after copies of it have been put into others, as the relay
forwards it. -/
theorem Moves.of_puts {x : Buf} {ps : List (Buf × Relay.Copy ℕ (ℕ × μ))}
    (hputs : Puts cfg linkLatency v ps net net₁) (hpops : Pops cfg linkLatency x v m net₁ net₂)
    (hx : ∀ q ∈ ps, q.1 ≠ x) (hcover : ∀ d ∈ m.copy.dests, ∃ y, hcfg.routing.next x d = some y)
    (htoward : ∀ y, y ≠ x →
      m.copy.toward hcfg.routing x y = (ps.filter fun q => q.1 = y).map Prod.snd) :
    Moves hcfg net net₂ where
  sound := hpops.sound
  time := hpops.time.trans hputs.time
  counter b v := (hputs.counter b v).trans (hpops.counter b v).ge
  relay hb v' := by
    have hb₁ : net₁.Bounded := hb.mono fun b v => (hpops.counter b v).ge
    by_cases hv : v' = v
    · subst hv
      refine .single ⟨x, m.copy, ?_, hcover, ?_⟩
      · rw [← hpops.view]
        unfold Network.view
        rw [hputs.other x v' (.inr hx)]
      · intro y hy
        have hsame : net₂.view v' y = net₁.view v' y := by
          unfold Network.view
          rw [hpops.other y v' (by simp [hy])]
        rw [hsame, hputs.view hb₁, htoward y hy]
    · have hsame : net₂.view v' = net.view v' := by
        funext b
        unfold Network.view
        rw [hpops.other b v' (by simp [hv]), hputs.other b v' (.inl hv)]
      rw [hsame]

/-- What the switch puts in front of its out ports is what the relay forwards there. -/
theorem toward_outputLinks (hp : cfg.wiring.consumer p = some s)
    (hnode : ∀ node, p ≠ .fromNet node) (c : Relay.Copy ℕ (ℕ × μ)) (y : Buf) :
    c.toward hcfg.routing (.port p) y =
      (((outputLinks 0 (cfg.wiring.outPorts s) c.dests).1.map fun l =>
        (Buf.intermediate s l.1, (⟨c.payload, l.2⟩ : Relay.Copy ℕ (ℕ × μ)))).filter
          fun q => q.1 = y).map Prod.snd := by
  have hnext : ∀ d, hcfg.routing.next (.port p) d =
      (firstLink 0 (cfg.wiring.outPorts s) d).map (.intermediate s) :=
    fun d => Wiring.next_port hp hnode
  -- nothing is forwarded to other buffers than those of the switch
  have hnone : (∀ i, Buf.intermediate s i ≠ y) →
      c.dests.filter (fun d => hcfg.routing.next (.port p) d = some y) = ∅ := by
    intro hy
    refine Finset.filter_eq_empty_iff.2 fun d _ h => ?_
    rw [hnext] at h
    obtain ⟨i, -, h⟩ := Option.map_eq_some_iff.1 h
    exact hy i h
  rw [List.filter_map, List.map_map]
  by_cases hy : ∃ i, Buf.intermediate s i = y
  · obtain ⟨i, rfl⟩ := hy
    have hfilter : ((fun q : Buf × Relay.Copy ℕ (ℕ × μ) => decide (q.1 = .intermediate s i)) ∘
        fun l : ℕ × Finset ℕ => (Buf.intermediate s l.1, ⟨c.payload, l.2⟩)) =
          fun l => decide (l.1 = i) := by
      funext l
      simp
    have hdests : c.dests.filter (fun d =>
        hcfg.routing.next (.port p) d = some (.intermediate s i)) =
          c.dests.filter fun d => firstLink 0 (cfg.wiring.outPorts s) d = some i := by
      refine Finset.filter_congr fun d _ => ?_
      rw [hnext]
      simp
    rw [hfilter, outputLinks_filter, Relay.Copy.toward, hdests]
    split
    · rfl
    · rfl
  · have hy' := not_exists.1 hy
    rw [Relay.Copy.toward, if_pos (hnone hy')]
    have hfilter : (outputLinks 0 (cfg.wiring.outPorts s) c.dests).1.filter
        ((fun q : Buf × Relay.Copy ℕ (ℕ × μ) => decide (q.1 = y)) ∘
          fun l : ℕ × Finset ℕ => (Buf.intermediate s l.1, ⟨c.payload, l.2⟩)) = [] := by
      refine List.filter_eq_nil_iff.2 fun l _ => ?_
      simpa using hy' l.1
    rw [hfilter, List.map_nil]

/-- The copies of a message are put in front of the out ports. -/
theorem Network.Sound.enqueueLinks (h : net.Sound cfg linkLatency)
    (hw : cfg.env.warmupEnabled = false) (hv : cfg.ordering v = some true)
    (hm : m.lastEnqueueTime ≤ net.time) {ls : List (ℕ × Finset ℕ)}
    (hls : ∀ l ∈ ls, Fits cfg (.intermediate s l.1) { m with internalDest := some l.2 }) :
    Meets cfg.Stops
      (Puts cfg linkLatency v (ls.map fun l => (Buf.intermediate s l.1,
        (⟨m.copy.payload, l.2⟩ : Relay.Copy ℕ (ℕ × μ)))) net)
      (ls.foldlM (fun net l =>
        net.enqueue cfg (.intermediate s l.1) v { m with internalDest := some l.2 } 1) net) := by
  induction ls generalizing net with
  | nil => exact Puts.nil h
  | cons l ls ih =>
      obtain ⟨hl, hls⟩ := List.forall_mem_cons.1 hls
      rw [List.foldlM_cons]
      refine (h.enqueue (b := .intermediate s l.1) (v := v)
        (m := { m with internalDest := some l.2 }) hw hv Nat.one_pos ⟨_, rfl⟩ hm hl).bind
          fun net₁ hputs => ?_
      exact (ih hputs.sound (hputs.time ▸ hm) hls).imp fun net₂ => hputs.append

theorem Network.Sound.setSwitch (h : net.Sound cfg linkLatency) (x : PerfectSwitch) :
    (net.setSwitch s x).Sound cfg linkLatency :=
  ⟨h.ordered, h.idle, h.fits, h.units, h.throttle⟩

theorem Network.Sound.schedule (h : net.Sound cfg linkLatency) {c : Consumer} {t : ℕ}
    (hc : ∀ s link, c = .throttle s link → ∃ o, (cfg.wiring.outPorts s)[link]? = some o) :
    (net.scheduleEventAbsolute c t).Sound cfg linkLatency := by
  refine ⟨h.ordered, h.idle, h.fits, h.units, fun s link hs => ?_⟩
  by_cases hcs : c = .throttle s link
  · exact hc s link hcs
  · simp only [Network.scheduleEventAbsolute, Function.update_of_ne (Ne.symm hcs)] at hs
    exact h.throttle s link hs

/-- The copies that the switch makes fit in front of its out ports. -/
theorem fits_outputLinks {dsts : Finset ℕ} (hnodes : dsts ⊆ Finset.range cfg.nodes)
    (hsize : m.messageSize ≠ .Undefined) {l : ℕ × Finset ℕ}
    (hl : l ∈ (outputLinks 0 (cfg.wiring.outPorts s) dsts).1) :
    Fits cfg (.intermediate s l.1) { m with internalDest := some l.2 } := by
  have hmem : l ∈ (outputLinks 0 (cfg.wiring.outPorts s) dsts).1.filter fun x => x.1 = l.1 :=
    List.mem_filter.2 ⟨hl, by simp⟩
  rw [outputLinks_filter] at hmem
  split at hmem
  · cases hmem
  · next hne =>
      have hdsts : l.2 = dsts.filter fun d =>
          firstLink 0 (cfg.wiring.outPorts s) d = some l.1 :=
        congrArg Prod.snd (List.mem_singleton.1 hmem)
      have hfirst : ∀ d ∈ l.2, firstLink 0 (cfg.wiring.outPorts s) d = some (0 + l.1) := by
        intro d hd
        rw [hdsts] at hd
        rw [Nat.zero_add]
        exact (Finset.mem_filter.1 hd).2
      rw [← hdsts] at hne
      refine ⟨?_, hsize, fun _ => hne, ?_⟩
      · change l.2 ⊆ _
        rw [hdsts]
        exact (Finset.filter_subset _ _).trans hnodes
      · rintro _ _ ⟨⟩
        obtain ⟨d, hd⟩ := Finset.nonempty_iff_ne_empty.2 hne
        obtain ⟨o, ho, -⟩ := getElem?_of_firstLink (hfirst d hd)
        refine ⟨o, ho, fun d' hd' => ?_⟩
        obtain ⟨o', ho', hdo⟩ := getElem?_of_firstLink (hfirst d' hd')
        obtain rfl := Option.some.inj (ho.symm.trans ho')
        exact hdo

/-- **The switch moves a message**, or waits for room. -/
theorem Network.Sound.forwardMsg (h : net.Sound cfg linkLatency)
    (hp : p ∈ cfg.wiring.inPorts s) (hr : (net.buf (.port p) v).isReady net.time = true) :
    Meets cfg.Stops (fun x : Network μ × Bool => Moves hcfg net x.1 ∧
      (x.2 = true → (x.1.buf (.port p) v).prioHeap.length + 1 =
        (net.buf (.port p) v).prioHeap.length)) (net.forwardMsg cfg s p v) := by
  obtain ⟨hcons, hnode⟩ := hcfg.inPort s p hp
  obtain ⟨m, -, hpeek, -, hv, hm, hfits, -⟩ := h.pop hr
  -- every destination is in a routing table
  have hfirst : ∀ d ∈ m.getInternalDestination,
      ∃ i, firstLink 0 (cfg.wiring.outPorts s) d = some i := by
    intro d hd
    exact exists_firstLink 0 (hcfg.cover p s hcons d (Finset.mem_range.1 (hfits.nodes hd)))
  have hrest : (outputLinks 0 (cfg.wiring.outPorts s) m.getInternalDestination).2 = ∅ := by
    rw [outputLinks_rest]
    refine Finset.filter_eq_empty_iff.2 fun d hd hnone => ?_
    obtain ⟨i, hi⟩ := hfirst d hd
    rw [hi] at hnone
    cases hnone
  have hcover : ∀ d ∈ m.copy.dests, ∃ y, hcfg.routing.next (.port p) d = some y := by
    intro d hd
    obtain ⟨i, hi⟩ := hfirst d hd
    refine ⟨.intermediate s i, (Wiring.next_port hcons hnode).trans ?_⟩
    rw [hi]
    rfl
  refine Meets.of_bind hpeek ?_
  dsimp only
  rw [if_neg (by rw [hrest]; exact fun h => h rfl)]
  by_cases hroom : ((outputLinks 0 (cfg.wiring.outPorts s) m.getInternalDestination).1.all fun l =>
      (net.buf (.intermediate s l.1) v).areNSlotsAvailable net.time 1) = true
  · rw [if_pos hroom]
    refine (h.enqueueLinks (s := s) hcfg.warmupEnabled hv hm fun l hl =>
      fits_outputLinks hfits.nodes hfits.messageSize hl).bind fun net₁ hputs => ?_
    -- the in port is as it was when the message is taken from it
    have hport : ∀ q ∈ (outputLinks 0 (cfg.wiring.outPorts s) m.getInternalDestination).1.map
        (fun l => (Buf.intermediate s l.1, (⟨m.copy.payload, l.2⟩ : Relay.Copy ℕ (ℕ × μ)))),
        q.1 ≠ .port p := by
      intro q hq
      obtain ⟨l, -, rfl⟩ := List.mem_map.1 hq
      exact Buf.noConfusion
    have hbuf : net₁.buf (.port p) v = net.buf (.port p) v := hputs.other _ _ (.inr hport)
    obtain ⟨m', net₂, hpeek', hpop, -, -, -, hpops⟩ :=
      hputs.sound.pop (b := .port p) (v := v) (by rw [hbuf, hputs.time]; exact hr)
    obtain rfl : m = m' := by
      rw [hbuf, hputs.time, hpeek] at hpeek'
      exact Except.ok.inj hpeek'
    have hmoves : Moves hcfg net net₂ := Moves.of_puts hcfg hputs hpops hport hcover
      fun y _ => toward_outputLinks hcfg hcons hnode m.copy y
    refine Meets.of_bind hpop ⟨?_, fun _ => ?_⟩
    · exact hmoves.trans hcfg (Moves.of_buf hcfg (hpops.sound.setSwitch _) rfl rfl)
    · rw [← hbuf]
      exact hpops.length
  · rw [if_neg hroom]
    exact ⟨Moves.of_buf hcfg (h.schedule nofun) rfl rfl, nofun⟩

theorem Network.not_isReady {x : MessageBuffer μ} {now : ℕ} (h : x.prioHeap = []) :
    x.isReady now ≠ true := by
  rw [MessageBuffer.isReady, h]
  exact Bool.noConfusion

/-- The messages of an in port are moved, as long as there is room; there are no more of them than
were there in the beginning. -/
theorem Network.Sound.drain (h : net.Sound cfg linkLatency) (hp : p ∈ cfg.wiring.inPorts s)
    {fuel : ℕ} (hf : (net.buf (.port p) v).prioHeap.length ≤ fuel) :
    Meets cfg.Stops (Moves hcfg net) (Network.drain cfg s p v fuel net) := by
  have hrefl : Moves hcfg net net := Moves.of_buf hcfg h rfl rfl
  induction fuel generalizing net with
  | zero =>
      have hempty := List.length_eq_zero_iff.1 (Nat.le_zero.1 hf)
      exact Meets.of_ok (if_neg (Network.not_isReady hempty)) hrefl
  | succ fuel ih =>
      rw [Network.drain]
      split
      · next hr =>
          refine (h.forwardMsg hcfg hp hr).bind ?_
          rintro ⟨net₁, enough⟩ ⟨hmoves, hlen⟩
          cases enough with
          | false => exact hmoves
          | true =>
              have hlen := hlen rfl
              refine (ih hmoves.sound (by omega) (Moves.of_buf hcfg hmoves.sound rfl rfl)).imp ?_
              exact fun net₂ => hmoves.trans hcfg
      · exact hrefl

theorem Network.Sound.visitPort (h : net.Sound cfg linkLatency)
    (hports : 0 < (cfg.wiring.inPorts s).length) (incoming : ℕ) :
    Meets cfg.Stops (fun x => Moves hcfg net x.1) (Network.visitPort cfg s v (net, incoming)) := by
  obtain ⟨i, hi⟩ : ∃ i, i = if (cfg.wiring.inPorts s).length ≤ incoming + 1 then 0
      else incoming + 1 := ⟨_, rfl⟩
  have hlt : i < (cfg.wiring.inPorts s).length := by
    rw [hi]
    split <;> omega
  have hget := List.getElem?_eq_getElem hlt
  unfold Network.visitPort
  simp only [← hi, hget]
  exact (h.drain hcfg (List.mem_of_getElem? hget) (v := v) le_rfl).bind fun net' => id

theorem Network.Sound.visitVnet (h : net.Sound cfg linkLatency) (v : ℕ) :
    Meets cfg.Stops (Moves hcfg net) (Network.visitVnet cfg s net v) := by
  have hstart : ∀ x, Moves hcfg net (net.setSwitch s x) := fun x =>
    Moves.of_buf hcfg (h.setSwitch x) rfl rfl
  have hloop : ∀ x start, Meets cfg.Stops (fun y : Network μ × ℕ => Moves hcfg net y.1)
      ((List.range (cfg.wiring.inPorts s).length).foldlM
        (fun x _ => Network.visitPort cfg s v x) (net.setSwitch s x, start)) := by
    intro x start
    refine Meets.foldlM (fun i hi y hy => ?_) (hstart x)
    have hports := Nat.zero_lt_of_lt (List.mem_range.1 hi)
    exact (hy.sound.visitPort hcfg (v := v) hports y.2).imp fun z => hy.trans hcfg
  unfold Network.visitVnet
  simp only
  split
  · exact (hloop _ _).bind fun y => id
  · exact hstart _

/-- **The wakeup of a switch** forwards messages. -/
theorem Network.Sound.switchWakeup (h : net.Sound cfg linkLatency) (s : ℕ) :
    Meets cfg.Stops (Moves hcfg net) (net.switchWakeup cfg s) := by
  refine Meets.foldlM (fun v _ net₁ h₁ => ?_) (Moves.of_buf hcfg (h.setSwitch _) rfl rfl)
  exact (h₁.sound.visitVnet hcfg (s := s) v).imp fun net₂ => h₁.trans hcfg

/-! ### The throttle -/

theorem Network.Sound.setUnits (h : net.Sound cfg linkLatency) {units : ℤ} (hu : 0 ≤ units) :
    (net.setUnits s link v units).Sound cfg linkLatency := by
  refine ⟨h.ordered, h.idle, h.fits, fun s' link' v' => ?_, h.throttle⟩
  simp only [Network.setUnits, Network.setThrottle, Function.update_apply]
  split
  · subst s'
    rw [Function.update_apply]
    split
    · subst link'
      dsimp only
      rw [Function.update_apply]
      split
      · exact hu
      · exact h.units _ _ _
    · exact h.units _ _ _
  · exact h.units _ _ _

theorem Network.setUnits_self (units : ℤ) :
    ((net.setUnits s link v units).throttle s link).unitsRemaining v = units := by
  simp [Network.setUnits, Network.setThrottle]

theorem Network.Sound.setThrottle (h : net.Sound cfg linkLatency) {x : Throttle}
    (hx : ∀ v, x.unitsRemaining v = (net.throttle s link).unitsRemaining v) :
    (net.setThrottle s link x).Sound cfg linkLatency := by
  refine ⟨h.ordered, h.idle, h.fits, fun s' link' v' => ?_, h.throttle⟩
  simp only [Network.setThrottle, Function.update_apply]
  split
  · subst s'
    rw [Function.update_apply]
    split
    · subst link'
      rw [hx]
      exact h.units _ _ _
    · exact h.units _ _ _
  · exact h.units _ _ _

theorem Config.messageSizeTypeToInt_ok (cfg : Config) (hm : m.messageSize ≠ .Undefined) :
    ∃ size, cfg.messageSizeTypeToInt m.messageSize = .ok size ∧
      (size = cfg.controlMsgSize ∨ size = cfg.dataMsgSize) := by
  cases hs : m.messageSize with
  | Undefined => exact absurd hs hm
  | Data | Response_Data | ResponseLocal_Data | ResponseL2hit_Data | Writeback_Data =>
      exact ⟨_, rfl, .inr rfl⟩
  | _ => exact ⟨_, rfl, .inl rfl⟩

theorem Config.networkMessageToSize_meets (cfg : Config) (hm : m.messageSize ≠ .Undefined) :
    Meets cfg.Stops (fun _ => True) (cfg.networkMessageToSize m) := by
  obtain ⟨size, hsize, hcases⟩ := cfg.messageSizeTypeToInt_ok hm
  refine Meets.of_bind hsize ?_
  unfold checkInt
  split
  · trivial
  · next hlt =>
      refine .inr ⟨rfl, fun hr => hlt ?_⟩
      rcases hcases with rfl | rfl
      · exact hr.controlMsgSize
      · exact hr.dataMsgSize

/-- What the throttle puts behind it is what the relay forwards there. -/
theorem toward_outPort {o : OutPort} (ho : (cfg.wiring.outPorts s)[link]? = some o)
    {c : Relay.Copy ℕ (ℕ × μ)} (hne : c.dests ≠ ∅) (hc : c.dests ⊆ o.routingTableEntry) (y : Buf) :
    c.toward hcfg.routing (.intermediate s link) y =
      ([(Buf.port o.out, c)].filter fun q => q.1 = y).map Prod.snd := by
  have hnext : ∀ d ∈ c.dests,
      hcfg.routing.next (.intermediate s link) d = some (.port o.out) :=
    fun d hd => Wiring.next_intermediate ho (hc hd)
  unfold Relay.Copy.toward
  by_cases hy : .port o.out = y
  · subst hy
    rw [Finset.filter_true_of_mem hnext, if_neg hne, List.filter_cons_of_pos (by simp)]
    rfl
  · have hnone : c.dests.filter
        (fun d => hcfg.routing.next (.intermediate s link) d = some y) = ∅ := by
      refine Finset.filter_eq_empty_iff.2 fun d hd h => hy ?_
      exact Option.some.inj ((hnext d hd).symm.trans h)
    rw [if_pos hnone, List.filter_cons_of_neg (by simpa using hy)]
    rfl

theorem Config.Sound.delta_outPort (hcfg : cfg.Sound dist linkLatency) {o : OutPort}
    (ho : o ∈ cfg.wiring.outPorts s) :
    cfg.delta linkLatency (.port o.out) v = o.linkLatency ∧
      ∃ c, cfg.consumerOf (.port o.out) = some c := by
  obtain ⟨hlat, -, -, hout⟩ := hcfg.outPort s o ho
  rw [hlat]
  rcases hout with ⟨node, hout⟩ | ⟨t, hout, ht⟩
  · rw [hout]
    exact ⟨rfl, _, rfl⟩
  · rw [hout]
    refine ⟨rfl, .switch t, ?_⟩
    rw [Config.consumerOf, ht]
    · rfl
    · exact nofun

/-- **The throttle moves a message**, or is still busy with the one before. -/
theorem Network.Sound.moveMsg (h : net.Sound cfg linkLatency) {o : OutPort}
    (ho : (cfg.wiring.outPorts s)[link]? = some o) (hwork : net.hasWork s link v = true) :
    Meets cfg.Stops (fun net' => Moves hcfg net net' ∧
      ((net'.buf (.intermediate s link) v).prioHeap.length + 1 =
          (net.buf (.intermediate s link) v).prioHeap.length ∨
        (0 < (net.throttle s link).unitsRemaining v ∧ net' = net)))
      (net.moveMsg cfg s link v o) := by
  have hmem : o ∈ cfg.wiring.outPorts s := List.mem_of_getElem? ho
  have hunits := h.units s link v
  by_cases hmove : (net.throttle s link).unitsRemaining v = 0 ∧
      (net.buf (.intermediate s link) v).isReady net.time = true
  · obtain ⟨m, -, hpeek, -, hv, hm, hfits, -⟩ := h.pop hmove.2
    obtain ⟨o', ho', hsub⟩ := hfits.inside s link rfl
    have hne := hfits.nonempty fun _ => Buf.noConfusion
    obtain rfl := Option.some.inj (ho.symm.trans ho')
    rw [Network.moveMsg, if_pos hmove]
    refine Meets.of_bind hpeek ((cfg.networkMessageToSize_meets hfits.messageSize).bind ?_)
    intro size _
    obtain ⟨hdelta, hcons⟩ := hcfg.delta_outPort (v := v) hmem
    have h₀ : (net.setUnits s link v
        ((net.throttle s link).unitsRemaining v + size)).Sound cfg linkLatency :=
      h.setUnits (by omega)
    have hset : Moves hcfg net (net.setUnits s link v
        ((net.throttle s link).unitsRemaining v + size)) := Moves.of_buf hcfg h₀ rfl rfl
    have hputs := h₀.enqueue (b := .port o.out) (v := v) (m := m)
      hcfg.warmupEnabled hv (hdelta ▸ (hcfg.outPort s o hmem).2.1) hcons hm
      ⟨hfits.nodes, hfits.messageSize, fun _ => hne, nofun⟩
    rw [hdelta] at hputs
    refine hputs.bind fun net₁ hputs => ?_
    -- the buffer in front is as it was when the message is taken from it
    have hfront : ∀ q ∈ [(Buf.port o.out, m.copy)], q.1 ≠ .intermediate s link := by
      intro q hq
      rw [List.mem_singleton.1 hq]
      exact Buf.noConfusion
    have hbuf : net₁.buf (.intermediate s link) v = net.buf (.intermediate s link) v :=
      hputs.other _ _ (.inr hfront)
    have htime₁ : net₁.time = net.time := hputs.time
    obtain ⟨m', net₂, hpeek', hpop, -, -, -, hpops⟩ :=
      hputs.sound.pop (b := .intermediate s link) (v := v)
        (by rw [hbuf, htime₁]; exact hmove.2)
    obtain rfl : m = m' := by
      rw [hbuf, htime₁, hpeek] at hpeek'
      exact Except.ok.inj hpeek'
    refine Meets.of_ok hpop ⟨?_, .inl ?_⟩
    · refine hset.trans hcfg ?_
      exact Moves.of_puts hcfg hputs hpops hfront
        (fun d hd => ⟨_, Wiring.next_intermediate ho (hsub hd)⟩)
        fun y _ => toward_outPort hcfg ho hne hsub y
    · rw [← hbuf]
      exact hpops.length
  · rw [Network.moveMsg, if_neg hmove]
    refine ⟨Moves.of_buf hcfg h rfl rfl, .inr ⟨?_, rfl⟩⟩
    rcases Bool.or_eq_true _ _ ▸ hwork with hr | hr
    · have hne : (net.throttle s link).unitsRemaining v ≠ 0 := fun h0 => hmove ⟨h0, hr⟩
      omega
    · exact of_decide_eq_true hr

/-- **The transfer ends.** A round takes a message, or finishes the one before, or uses up the
bandwidth. -/
theorem Network.Sound.transfer (h : net.Sound cfg linkLatency) {o : OutPort}
    (ho : (cfg.wiring.outPorts s)[link]? = some o) (bw : ℤ) {fuel : ℕ}
    (hf : (bw ≤ 0 ∧ 0 < fuel) ∨
      2 * (net.buf (.intermediate s link) v).prioHeap.length +
        (if 0 < (net.throttle s link).unitsRemaining v then 1 else 0) + 2 ≤ fuel) :
    Meets cfg.Stops (fun x => Moves hcfg net x.1)
      (Network.transfer cfg s link v o fuel (net, bw)) := by
  induction fuel generalizing net bw with
  | zero => omega
  | succ fuel ih =>
      rw [Network.transfer]
      split
      · next hcond =>
          obtain ⟨hbw, hwork, -⟩ := hcond
          refine (h.moveMsg hcfg ho hwork).bind fun net₁ ⟨hmoves, hcases⟩ => ?_
          obtain ⟨diff, hdiff⟩ : ∃ diff, diff = (net₁.throttle s link).unitsRemaining v - bw :=
            ⟨_, rfl⟩
          have h₂ : (net₁.setUnits s link v (max 0 diff)).Sound cfg linkLatency :=
            hmoves.sound.setUnits (le_max_left _ _)
          have hset : Moves hcfg net₁ (net₁.setUnits s link v (max 0 diff)) :=
            Moves.of_buf hcfg h₂ rfl rfl
          have hrest := ih h₂ (max 0 (-diff)) (by
            rw [Network.setUnits_self]
            change _ ∨ 2 * (net₁.buf (.intermediate s link) v).prioHeap.length + _ + 2 ≤ fuel
            rcases hcases with hlen | ⟨hbusy, rfl⟩
            · right
              split <;> omega
            · rw [if_pos hbusy] at hf
              by_cases hpos : 0 < diff
              · left
                omega
              · right
                rw [if_neg (by omega)]
                omega)
          simp only [← hdiff]
          exact hrest.imp fun x => (hmoves.trans hcfg hset).trans hcfg
      · exact Moves.of_buf hcfg h rfl rfl

theorem Network.Sound.visitLink (h : net.Sound cfg linkLatency) {o : OutPort}
    (ho : (cfg.wiring.outPorts s)[link]? = some o) (bw : ℤ) (scheduleWakeup : Bool) (v : ℕ) :
    Meets cfg.Stops (fun x => Moves hcfg net x.1)
      (Network.visitLink cfg s link o (net, bw, scheduleWakeup) v) := by
  have hfuel : (bw ≤ 0 ∧ 0 < 2 * (net.buf (.intermediate s link) v).prioHeap.length + 3) ∨
      2 * (net.buf (.intermediate s link) v).prioHeap.length +
        (if 0 < (net.throttle s link).unitsRemaining v then 1 else 0) + 2 ≤
          2 * (net.buf (.intermediate s link) v).prioHeap.length + 3 := by
    right
    split <;> omega
  unfold Network.visitLink
  dsimp only
  rw [if_neg (h.units s link v).not_gt]
  exact (h.transfer hcfg ho bw hfuel).bind fun x => id

/-- The bandwidth of a link is positive, if it is an `int`. -/
theorem Config.Sound.bandwidth (hcfg : cfg.Sound dist linkLatency) {o : OutPort}
    (ho : o ∈ cfg.wiring.outPorts s) :
    Meets cfg.Stops (0 < ·) (checkInt (cfg.endpointBandwidth * o.linkBandwidthMultiplier)) := by
  obtain ⟨-, -, hmult, -⟩ := hcfg.outPort s o ho
  unfold checkInt
  split
  · exact Nat.mul_pos hcfg.endpointBandwidth hmult
  · next hlt => exact .inr ⟨rfl, fun hr => hlt (hr.bandwidth s o ho)⟩

/-- **The wakeup of a throttle** forwards messages. -/
theorem Network.Sound.throttleWakeup (h : net.Sound cfg linkLatency)
    (hlink : ∃ o, (cfg.wiring.outPorts s)[link]? = some o) :
    Meets cfg.Stops (Moves hcfg net) (net.throttleWakeup cfg s link) := by
  obtain ⟨o, ho⟩ := hlink
  have hloop : ∀ (x : Throttle) (bw : ℤ) (order : List ℕ), (∀ v,
      x.unitsRemaining v = (net.throttle s link).unitsRemaining v) →
      Meets cfg.Stops (fun y : Network μ × ℤ × Bool => Moves hcfg net y.1)
        (order.foldlM (Network.visitLink cfg s link o)
          (net.setThrottle s link x, bw, false)) := by
    intro x bw order hx
    refine Meets.foldlM (fun v _ y hy => ?_) (Moves.of_buf hcfg (h.setThrottle hx) rfl rfl)
    exact (hy.sound.visitLink hcfg ho y.2.1 y.2.2 v).imp fun z => hy.trans hcfg
  unfold Network.throttleWakeup
  simp only [ho]
  refine (hcfg.bandwidth (List.mem_of_getElem? ho)).bind fun bandwidth hbw => ?_
  rw [if_neg hbw.ne']
  refine (hloop
    { net.throttle s link with
      wakeupsWoSwitch := (cfg.vnetOrder (net.throttle s link).wakeupsWoSwitch).2 }
    bandwidth (cfg.vnetOrder (net.throttle s link).wakeupsWoSwitch).1 fun _ => rfl).bind ?_
  intro y hmoves
  split
  · exact hmoves
  · refine hmoves.trans hcfg (Moves.of_buf hcfg (hmoves.sound.schedule ?_) rfl rfl)
    rintro _ _ ⟨⟩
    exact ⟨o, ho⟩

/-- The event that has been processed is removed. -/
theorem Network.Sound.erase (h : net.Sound cfg linkLatency) (c : Consumer) (t : ℕ) :
    ({ net with
      scheduledWakeups := Function.update net.scheduledWakeups c
        ((net.scheduledWakeups c).erase t) } : Network μ).Sound cfg linkLatency := by
  refine ⟨h.ordered, h.idle, h.fits, h.units, fun s link hs => h.throttle s link ?_⟩
  simp only [Function.update_apply] at hs
  split at hs
  · subst c
    exact hs.mono (Finset.erase_subset _ _)
  · exact hs

/-- **A wakeup that is scheduled** forwards messages. -/
theorem Network.Sound.wakeup (h : net.Sound cfg linkLatency) {c : Consumer}
    (hc : net.time ∈ net.scheduledWakeups c) :
    Meets cfg.Stops (Moves hcfg net) (net.wakeup cfg c) := by
  have hdone : ∀ net₁, Moves hcfg net net₁ → Moves hcfg net { net₁ with
      scheduledWakeups := Function.update net₁.scheduledWakeups c
        ((net₁.scheduledWakeups c).erase net₁.time) } := fun net₁ h₁ =>
    h₁.trans hcfg (Moves.of_buf hcfg (h₁.sound.erase c net₁.time) rfl rfl)
  cases c with
  | switch s => exact (h.switchWakeup hcfg s).bind hdone
  | throttle s link => exact (h.throttleWakeup hcfg (h.throttle s link ⟨_, hc⟩)).bind hdone
  | controller node => exact hdone net (Moves.of_buf hcfg h rfl rfl)

end Moves

end Net
