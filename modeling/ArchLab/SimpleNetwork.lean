/-
**The simple network: switches, throttles and the event queue.**

A network connects nodes through switches (`mem/ruby/network/simple`).  A node puts its messages
into a queue to the network and takes what it receives from one; there is a buffer for each virtual
network.  A switch moves the messages of its in ports into buffers in front of its out ports, with a
copy for each out port that leads to some of the destinations.  Behind each of these buffers a
throttle passes messages on as the bandwidth of the link allows.

Whoever consumes a buffer is woken up at the times that are scheduled for it: when a message
arrives, and in the next cycle if something is left to do.  Time goes on when no wakeup is left for
it.

With adaptive routing the out ports are tried in the order of their load, but not for messages of an
ordered virtual network.  Here all virtual networks are ordered, as those of the MSI protocol are,
and out ports are tried in their order.

Main definitions:

* `Net.Wiring` — what the switches are connected to, and their routing tables;
* `Net.Network` — the state of the network;
* `Net.Network.switchWakeup`, `Net.Network.throttleWakeup` — what is done on a wakeup;
* `Net.Move`, `Net.Network.exec`, `Net.NetStep` — the moves of nodes, network and time.
-/

import ArchLab.Lts
import ArchLab.MessageBuffer
import Mathlib.Data.Finset.Insert

set_option relaxedAutoImplicit false
set_option autoImplicit false

namespace Net

/-- The queues of the nodes and the links between switches. -/
inductive Port where
  | toNet (node : ℕ)
  | link (src dest : ℕ)
  | fromNet (node : ℕ)
  deriving DecidableEq, Repr

/-- An out port of a switch: where its throttle puts messages, and the nodes it leads to. -/
structure OutPort where
  out : Port
  routingTableEntry : Finset ℕ
  linkLatency : ℕ
  linkBandwidthMultiplier : ℕ

/-- The ports of the switches, and the switch that consumes what comes through a port. -/
structure Wiring where
  inPorts : ℕ → List Port
  outPorts : ℕ → List OutPort
  consumer : Port → Option ℕ

/-- The buffers: those of the ports, and the one in front of an out port of a switch. -/
inductive Buf where
  | port (p : Port)
  | intermediate (switch link : ℕ)
  deriving DecidableEq, Repr

/-- Who is woken up. -/
inductive Consumer where
  | switch (s : ℕ)
  | throttle (s link : ℕ)
  | controller (node : ℕ)
  deriving DecidableEq, Repr

/-- The parameters of a network.  `ordering` tells for a virtual network whether the queues of the
nodes have been declared, and if so, as ordered or not; `latency` is the delay with which a node
puts its messages into the queue to the network. -/
structure Config where
  wiring : Wiring
  nodes : ℕ
  virtualNetworks : ℕ
  ordering : ℕ → Option Bool
  latency : ℕ → ℕ → ℕ
  bufferSize : ℕ
  endpointBandwidth : ℕ
  controlMsgSize : ℕ
  dataMsgSize : ℕ
  env : Env

/-- The state of a `PerfectSwitch`. -/
structure PerfectSwitch where
  roundRobinStart : ℕ := 0
  wakeupsWoSwitch : ℕ := 0
  pendingMessageCount : ℕ → ℤ := fun _ => 0

/-- The state of a `Throttle`. -/
structure Throttle where
  unitsRemaining : ℕ → ℤ := fun _ => 0
  wakeupsWoSwitch : ℕ := 0

structure Network (μ : Type) where
  buf : Buf → ℕ → MessageBuffer μ
  switch : ℕ → PerfectSwitch
  throttle : ℕ → ℕ → Throttle
  scheduledWakeups : Consumer → Finset ℕ
  time : ℕ
  rng : ℕ

def PRIORITY_SWITCH_LIMIT : ℕ := 128

def MESSAGE_SIZE_MULTIPLIER : ℕ := 1000

namespace Config

variable (cfg : Config)

def consumerOf : Buf → Option Consumer
  | .port (.fromNet node) => some (.controller node)
  | .port p => (cfg.wiring.consumer p).map .switch
  | .intermediate s link => some (.throttle s link)

/-- `MessageSizeType_to_int` -/
def messageSizeTypeToInt : MessageSizeType → Except Fault ℕ
  | .Undefined => .error .panic
  | .Control | .Request_Control | .Reissue_Control | .Response_Control | .Writeback_Control
  | .Broadcast_Control | .Multicast_Control | .Forwarded_Control | .Invalidate_Control
  | .Unblock_Control | .Persistent_Control | .Completion_Control => .ok cfg.controlMsgSize
  | .Data | .Response_Data | .ResponseLocal_Data | .ResponseL2hit_Data | .Writeback_Data =>
      .ok cfg.dataMsgSize

/-- `network_message_to_size` -/
def networkMessageToSize {μ : Type} (m : Message μ) : Except Fault ℕ := do
  let size ← cfg.messageSizeTypeToInt m.messageSize
  checkInt (size * MESSAGE_SIZE_MULTIPLIER)

/-- The order in which a wakeup goes through the virtual networks, and the number of wakeups since
the order was inverted. -/
def vnetOrder (wakeupsWoSwitch : ℕ) : List ℕ × ℕ :=
  if PRIORITY_SWITCH_LIMIT < wakeupsWoSwitch + 1 then (List.range cfg.virtualNetworks, 0)
  else ((List.range cfg.virtualNetworks).reverse, wakeupsWoSwitch + 1)

end Config

/-- The routing loop of the switch, from the out port number `link` on: the out ports that a message
takes, each with the destinations it is responsible for, and the destinations left over. -/
def outputLinks (link : ℕ) : List OutPort → Finset ℕ → List (ℕ × Finset ℕ) × Finset ℕ
  | [], dsts => ([], dsts)
  | o :: os, dsts =>
      if dsts ∩ o.routingTableEntry = ∅ then outputLinks (link + 1) os dsts
      else
        let (links, rest) := outputLinks (link + 1) os (dsts \ o.routingTableEntry)
        ((link, dsts ∩ o.routingTableEntry) :: links, rest)

namespace Network

variable {μ : Type} (cfg : Config) (net : Network μ)

def setBuf (b : Buf) (v : ℕ) (x : MessageBuffer μ) : Network μ :=
  { net with buf := Function.update net.buf b (Function.update (net.buf b) v x) }

def setSwitch (s : ℕ) (x : PerfectSwitch) : Network μ :=
  { net with switch := Function.update net.switch s x }

def setThrottle (s link : ℕ) (x : Throttle) : Network μ :=
  { net with throttle := Function.update net.throttle s (Function.update (net.throttle s) link x) }

/-- A wakeup is scheduled, unless there is one for that time.  The event queue asserts that the time
is to come: it is the arrival of a message, which the buffer has checked, or the next cycle. -/
def scheduleEventAbsolute (c : Consumer) (t : ℕ) : Network μ :=
  { net with
    scheduledWakeups :=
      Function.update net.scheduledWakeups c (insert t (net.scheduledWakeups c)) }

def scheduleEvent (c : Consumer) (delta : ℕ) : Network μ :=
  net.scheduleEventAbsolute c (net.time + delta)

/-- Switches count the messages of a virtual network that are waiting. -/
def storeEventInfo (c : Consumer) (v : ℕ) : Network μ :=
  match c with
  | .switch s =>
      let count := (net.switch s).pendingMessageCount
      net.setSwitch s
        { net.switch s with pendingMessageCount := Function.update count v (count v + 1) }
  | _ => net

/-- A message is put into a buffer, and its consumer will be woken up. -/
def enqueue (b : Buf) (v : ℕ) (m : Message μ) (delta : ℕ) : Except Fault (Network μ) := do
  let (x, rng, arrival) ← (net.buf b v).enqueue cfg.env net.time net.rng m delta
  match cfg.consumerOf b with
  | none => .error .panic
  | some c =>
      return ((({ net with rng := rng }).setBuf b v x).scheduleEventAbsolute c
        arrival).storeEventInfo c v

def pop (b : Buf) (v : ℕ) : Except Fault (Network μ) := do
  let x ← (net.buf b v).pop net.time
  return net.setBuf b v x

/-! ### The switch -/

/-- The body of the innermost loop of `PerfectSwitch::wakeup`: the first message of an in port is
moved.  The second component of the result tells whether there was room for it. -/
def forwardMsg (s : ℕ) (p : Port) (v : ℕ) : Except Fault (Network μ × Bool) := do
  let m ← (net.buf (.port p) v).peekMsgPtr net.time
  let (links, rest) := outputLinks 0 (cfg.wiring.outPorts s) m.getInternalDestination
  if rest ≠ ∅ then .error .assertion
  else if links.all fun l => (net.buf (.intermediate s l.1) v).areNSlotsAvailable net.time 1 then
    let net₁ ← links.foldlM (fun net l =>
      net.enqueue cfg (.intermediate s l.1) v { m with internalDest := some l.2 } 1) net
    let net₂ ← net₁.pop (.port p) v
    let count := (net₂.switch s).pendingMessageCount
    return (net₂.setSwitch s
      { net₂.switch s with pendingMessageCount := Function.update count v (count v - 1) }, true)
  else return (net.scheduleEvent (.switch s) 1, false)

/-- The innermost loop: the messages of an in port that are ready. -/
def drain (s : ℕ) (p : Port) (v : ℕ) : ℕ → Network μ → Except Fault (Network μ)
  | 0, net => if (net.buf (.port p) v).isReady net.time then .error .fuel else .ok net
  | fuel + 1, net =>
      if (net.buf (.port p) v).isReady net.time then do
        let (net', enough) ← net.forwardMsg cfg s p v
        if enough then drain s p v fuel net' else return net'
      else .ok net

/-- The loop over the in ports, for the next ones in turn. -/
def visitPort (s v : ℕ) (x : Network μ × ℕ) : Except Fault (Network μ × ℕ) := do
  let (net, incoming) := x
  let ports := cfg.wiring.inPorts s
  let incoming := if ports.length ≤ incoming + 1 then 0 else incoming + 1
  match ports[incoming]? with
  | none => .error .outOfBounds
  | some p =>
      let net' ← drain cfg s p v (net.buf (.port p) v).prioHeap.length net
      return (net', incoming)

/-- The loop over the virtual networks. -/
def visitVnet (s : ℕ) (net : Network μ) (v : ℕ) : Except Fault (Network μ) := do
  let sw := net.switch s
  let ports := (cfg.wiring.inPorts s).length
  let next := if ports ≤ sw.roundRobinStart + 1 then 0 else sw.roundRobinStart + 1
  let net := net.setSwitch s { sw with roundRobinStart := next }
  if 0 < sw.pendingMessageCount v then
    let (net', _) ← (List.range ports).foldlM (fun x _ => visitPort cfg s v x)
      (net, sw.roundRobinStart)
    return net'
  else return net

/-- `PerfectSwitch::wakeup` -/
def switchWakeup (s : ℕ) : Except Fault (Network μ) :=
  let (order, wakeups) := cfg.vnetOrder (net.switch s).wakeupsWoSwitch
  order.foldlM (visitVnet cfg s)
    (net.setSwitch s { net.switch s with wakeupsWoSwitch := wakeups })

/-! ### The throttle -/

/-- There is something to transfer: a message that is ready, or the rest of the last one. -/
def hasWork (s link v : ℕ) : Bool :=
  (net.buf (.intermediate s link) v).isReady net.time ||
    decide (0 < (net.throttle s link).unitsRemaining v)

def setUnits (s link v : ℕ) (units : ℤ) : Network μ :=
  let t := net.throttle s link
  net.setThrottle s link { t with unitsRemaining := Function.update t.unitsRemaining v units }

/-- A message is moved from the buffer in front of the throttle to the one behind it, if the
transfer of the message before is over. -/
def moveMsg (s link v : ℕ) (o : OutPort) : Except Fault (Network μ) := do
  let units := (net.throttle s link).unitsRemaining v
  if units = 0 ∧ (net.buf (.intermediate s link) v).isReady net.time = true then
    let m ← (net.buf (.intermediate s link) v).peekMsgPtr net.time
    let size ← cfg.networkMessageToSize m
    let net₁ ← (net.setUnits s link v (units + size)).enqueue cfg (.port o.out) v m o.linkLatency
    net₁.pop (.intermediate s link) v
  else return net

/-- The innermost loop of `Throttle::wakeup`, with the bandwidth that remains. -/
def transfer (s link v : ℕ) (o : OutPort) :
    ℕ → Network μ × ℤ → Except Fault (Network μ × ℤ)
  | 0, _ => .error .fuel
  | fuel + 1, (net, bwRemaining) =>
      if 0 < bwRemaining ∧ net.hasWork s link v = true ∧
          (net.buf (.port o.out) v).areNSlotsAvailable net.time 1 = true then do
        let net' ← net.moveMsg cfg s link v o
        let diff := (net'.throttle s link).unitsRemaining v - bwRemaining
        transfer s link v o fuel (net'.setUnits s link v (max 0 diff), max 0 (-diff))
      else .ok (net, bwRemaining)

/-- The loop over the virtual networks; the last component is `schedule_wakeup`. -/
def visitLink (s link : ℕ) (o : OutPort) (x : Network μ × ℤ × Bool) (v : ℕ) :
    Except Fault (Network μ × ℤ × Bool) := do
  let (net, bw, scheduleWakeup) := x
  if (net.throttle s link).unitsRemaining v < 0 then .error .assertion
  else
    let fuel := 2 * (net.buf (.intermediate s link) v).prioHeap.length + 3
    let (net', bw') ← transfer cfg s link v o fuel (net, bw)
    return (net', bw', scheduleWakeup || (decide (0 < bw') && net'.hasWork s link v &&
      !(net'.buf (.port o.out) v).areNSlotsAvailable net'.time 1))

/-- `Throttle::wakeup` -/
def throttleWakeup (s link : ℕ) : Except Fault (Network μ) :=
  match (cfg.wiring.outPorts s)[link]? with
  | none => .error .outOfBounds
  | some o => do
      let bandwidth ← checkInt (cfg.endpointBandwidth * o.linkBandwidthMultiplier)
      if bandwidth = 0 then .error .assertion
      else
        let (order, wakeups) := cfg.vnetOrder (net.throttle s link).wakeupsWoSwitch
        let (net', bw, scheduleWakeup) ← order.foldlM (visitLink cfg s link o)
          (net.setThrottle s link { net.throttle s link with wakeupsWoSwitch := wakeups },
            (bandwidth : ℤ), false)
        if 0 < bw ∧ scheduleWakeup = false then return net'
        else return net'.scheduleEvent (.throttle s link) 1

/-! ### The moves -/

/-- An event is processed.  What a controller does when it is woken up is not a matter of the
network. -/
def wakeup (c : Consumer) : Except Fault (Network μ) := do
  let net' ← match c with
    | .switch s => net.switchWakeup cfg s
    | .throttle s link => net.throttleWakeup cfg s link
    | .controller _ => .ok net
  return { net' with
    scheduledWakeups :=
      Function.update net'.scheduledWakeups c ((net'.scheduledWakeups c).erase net'.time) }

/-- Buffers as they are set up. -/
def initBuf (b : Buf) (v : ℕ) : MessageBuffer μ :=
  let size := if 0 < cfg.bufferSize then (cfg.bufferSize : ℤ) else -1
  match b with
  | .port (.link _ _) | .intermediate _ _ => (({} : MessageBuffer μ).setOrdering true).resize size
  | .port _ =>
      match cfg.ordering v with
      | none => {}
      | some order => ({} : MessageBuffer μ).setOrdering order

def init : Network μ where
  buf := initBuf cfg
  switch _ := {}
  throttle _ _ := {}
  scheduledWakeups _ := ∅
  time := 0
  rng := 0

end Network

/-- What nodes, network and time do. -/
inductive Move (μ : Type) where
  | send (node v : ℕ) (content : μ) (destination : Finset ℕ) (messageSize : MessageSizeType)
  | receive (node v : ℕ)
  | wakeup (c : Consumer)
  | tick

variable {μ : Type}

/-- The message that a node sends. -/
def Message.ofSend (net : Network μ) (node : ℕ) (content : μ) (destination : Finset ℕ)
    (messageSize : MessageSizeType) : Message μ where
  content := content
  origin := node
  destination := destination
  messageSize := messageSize
  internalDest := none
  lastEnqueueTime := net.time
  delayedCycles := 0

/-- The effect of a move, and the message that is received. -/
def Network.exec (cfg : Config) (net : Network μ) :
    Move μ → Except Fault (Network μ × Option (Message μ))
  | .send node v content destination messageSize => do
      let m := Message.ofSend net node content destination messageSize
      let net' ← net.enqueue cfg (.port (.toNet node)) v m (cfg.latency node v)
      return (net', none)
  | .receive node v => do
      let m ← (net.buf (.port (.fromNet node)) v).peekMsgPtr net.time
      let net' ← net.pop (.port (.fromNet node)) v
      return (net', some m)
  | .wakeup c => do
      let net' ← net.wakeup cfg c
      return (net', none)
  | .tick => return ({ net with time := net.time + 1 }, none)

/-- When a move can be made: nodes send to nodes on virtual networks that they have declared, and
take messages that are ready; wakeups are scheduled ones, and time goes on if there are none left.
-/
def Move.Enabled (cfg : Config) (net : Network μ) : Move μ → Prop
  | .send node v _ destination messageSize =>
      node < cfg.nodes ∧ (cfg.ordering v).isSome = true ∧ destination ⊆ Finset.range cfg.nodes ∧
        messageSize ≠ .Undefined
  | .receive node v => (net.buf (.port (.fromNet node)) v).isReady net.time = true
  | .wakeup c => net.time ∈ net.scheduledWakeups c
  | .tick => ∀ c, net.time ∉ net.scheduledWakeups c

/-- A step of the network. -/
def NetStep (cfg : Config) (net : Network μ) (l : Move μ × Option (Message μ))
    (net' : Network μ) : Prop :=
  l.1.Enabled cfg net ∧ net.exec cfg l.1 = .ok (net', l.2)

end Net
