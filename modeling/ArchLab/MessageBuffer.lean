/-
**The message buffers of the network.**

`mem/ruby/buffers/MessageBuffer.cc` keeps messages in a heap, by the time at which they arrive, and
among messages of one time by a counter.  An ordered buffer checks that no message is to arrive
before one that was put in earlier; with randomization the arrival is drawn, but behind the last
one.  So an ordered buffer is a FIFO, as long as the counter does its part: it is passed on as a
32-bit number, and the message behind a multiple of 2³² overtakes those that arrive with it.

The heap is modelled as the list of its nodes in the order in which they come to the front, which is
all that the other functions see of it.  Its order is defined only for nodes that differ in time or
counter, and asserts that they do.  Whether the heap compares two nodes depends on its shape; here a
node that has the time and the counter of another one is refused.

Main definitions:

* `Net.Message`, `Net.MessageBuffer` — messages and buffers;
* `Net.MessageBuffer.enqueue`, `Net.MessageBuffer.pop` — putting in and taking out.

Main results:

* `Net.MessageBuffer.Ordered.enqueue` — **a message is put behind all others**, without a panic, if
  it is among the first 2³²;
* `Net.MessageBuffer.Ordered.pop` — the first message is taken;
* `Net.MessageBuffer.enqueue_overflow` — **the counter overflows**, and a message overtakes others.
-/

import ArchLab.Refine
import Mathlib.Algebra.Group.Nat.Defs
import Mathlib.Data.Finset.Basic
import Mathlib.Order.Nat

set_option relaxedAutoImplicit false
set_option autoImplicit false

namespace Net

open Refine

/-- How the simulator stops. -/
inductive Fault where
  | assertion
  | panic
  | fatal
  | outOfBounds
  /-- A result that is not an `int`, for which nothing is defined. -/
  | overflow
  /-- The order of the heap asserts that messages of one time have different counters; the message
  is the one with this number in its buffer. -/
  | sameCounter (counter : ℕ)
  /-- The fuel of a loop is used up; not an event of the program. -/
  | fuel
  deriving DecidableEq, Repr

/-- A number that is not negative, if it is an `int`. -/
def checkInt (x : ℕ) : Except Fault ℕ := if x < 2 ^ 31 then .ok x else .error .overflow

/-- The sizes that the messages of a protocol declare. -/
inductive MessageSizeType where
  | Undefined | Control | Data | Request_Control | Reissue_Control | Response_Data
  | ResponseL2hit_Data | ResponseLocal_Data | Response_Control | Writeback_Data | Writeback_Control
  | Broadcast_Control | Multicast_Control | Forwarded_Control | Invalidate_Control
  | Unblock_Control | Persistent_Control | Completion_Control
  deriving DecidableEq, Repr

/-- A `NetworkMessage`.  `internalDest` is `none` as long as it is not valid.  The node that has
sent the message is recorded in `origin`, which no function looks at. -/
structure Message (μ : Type) where
  content : μ
  origin : ℕ
  destination : Finset ℕ
  messageSize : MessageSizeType
  internalDest : Option (Finset ℕ)
  lastEnqueueTime : ℕ
  delayedCycles : ℕ

variable {μ : Type}

/-- What a buffer notes in a message that it takes in. -/
def Message.stamped (m : Message μ) (now arrival : ℕ) : Message μ :=
  { m with
    delayedCycles := now - m.lastEnqueueTime + m.delayedCycles
    lastEnqueueTime := arrival }

def Message.getInternalDestination (m : Message μ) : Finset ℕ := m.internalDest.getD m.destination

/-- A `MessageBufferNode`. -/
structure Node (μ : Type) where
  time : ℕ
  msgCounter : ℕ
  msg : Message μ

/-- The 64-bit number that a counter becomes when it is passed as an `int`. -/
def asInt (counter : ℕ) : ℕ :=
  let low := counter % 2 ^ 32
  if low < 2 ^ 31 then low else low + (2 ^ 64 - 2 ^ 32)

/-- `n₁` comes to the front before `n₂`: `operator>` the other way round. -/
def Node.before (n₁ n₂ : Node μ) : Bool :=
  if n₁.time = n₂.time then decide (n₁.msgCounter < n₂.msgCounter)
  else decide (n₁.time < n₂.time)

/-- The assertion of `operator>` fails. -/
def Node.clashes (n₁ n₂ : Node μ) : Bool :=
  decide (n₁.time = n₂.time ∧ n₁.msgCounter = n₂.msgCounter)

/-- A node is put into the heap. -/
def pushHeap (x : Node μ) : List (Node μ) → List (Node μ)
  | [] => [x]
  | y :: ys => if x.before y then x :: y :: ys else y :: pushHeap x ys

/-- A `MessageBuffer`, up to statistics, names, and messages set aside by a stall. -/
structure MessageBuffer (μ : Type) where
  prioHeap : List (Node μ) := []
  maxSize : ℤ := -1
  size : ℤ := 0
  timeLastTimeEnqueue : ℕ := 0
  timeLastTimePop : ℕ := 0
  sizeAtCycleStart : ℤ := 0
  msgsThisCycle : ℤ := 0
  msgCounter : ℕ := 0
  strictFifo : Bool := true
  orderingSet : Bool := false
  randomization : Bool := true
  lastArrivalTime : ℕ := 0

/-- The settings of the simulator that buffers look at, and the numbers that `random` returns. -/
structure Env where
  random : ℕ → ℕ
  getRandomization : Bool
  warmupEnabled : Bool

/-- `random_time`, with the number of calls of `random` made before and after. -/
def randomTime (env : Env) (rng : ℕ) : ℕ × ℕ :=
  let time := 1 + (env.random rng &&& 0x3)
  if env.random (rng + 1) &&& 0x7 = 0 then (time + (100 + env.random (rng + 2) % 0xf), rng + 3)
  else (time, rng + 2)

namespace MessageBuffer

variable (b : MessageBuffer μ)

def setOrdering (order : Bool) : MessageBuffer μ :=
  { b with strictFifo := order, orderingSet := true }

def resize (size : ℤ) : MessageBuffer μ := { b with maxSize := size }

def isReady (now : ℕ) : Bool :=
  match b.prioHeap with
  | [] => false
  | x :: _ => decide (x.time ≤ now)

def peekMsgPtr (now : ℕ) : Except Fault (Message μ) :=
  match b.prioHeap with
  | [] => .error .assertion
  | x :: _ => if x.time ≤ now then .ok x.msg else .error .assertion

/-- The size that counts in this cycle: messages taken out do not, until the next one. -/
def currentSize (now : ℕ) : ℤ :=
  if b.timeLastTimePop < now then b.size
  else if b.timeLastTimeEnqueue < now then b.sizeAtCycleStart
  else b.sizeAtCycleStart + b.msgsThisCycle

def areNSlotsAvailable (now : ℕ) (n : ℤ) : Bool :=
  if b.maxSize = -1 then true else decide (b.currentSize now + n ≤ b.maxSize)

/-- The arrival time of a message, the last arrival time as it is compared with, and the calls of
`random` made. -/
def arrivalTime (env : Env) (now rng delta : ℕ) : ℕ × ℕ × ℕ :=
  if env.getRandomization = false ∨ b.randomization = false then
    (now + delta, b.lastArrivalTime, rng)
  else
    let (time, rng') := randomTime env rng
    if b.strictFifo then
      let last := if b.lastArrivalTime < now then now else b.lastArrivalTime
      (last + time, last, rng')
    else (now + time, b.lastArrivalTime, rng')

/-- The node of a message that is put in. -/
def nextNode (now arrival : ℕ) (m : Message μ) : Node μ :=
  ⟨arrival, asInt (b.msgCounter + 1), m.stamped now arrival⟩

/-- The buffer after a message has been put in that will arrive at `arrival`. -/
def inserted (env : Env) (now arrival last : ℕ) (m : Message μ) : MessageBuffer μ :=
  { b with
    msgCounter := b.msgCounter + 1
    size := b.size + 1
    msgsThisCycle := (if b.timeLastTimeEnqueue < now then 0 else b.msgsThisCycle) + 1
    timeLastTimeEnqueue := if b.timeLastTimeEnqueue < now then now else b.timeLastTimeEnqueue
    lastArrivalTime := if env.warmupEnabled then last else arrival
    prioHeap := pushHeap (b.nextNode now arrival m) b.prioHeap }

/-- A message is put in.  The result is the buffer, the number of calls of `random` made, and the
time at which the consumer has to be woken up. -/
def enqueue (env : Env) (now rng : ℕ) (m : Message μ) (delta : ℕ) :
    Except Fault (MessageBuffer μ × ℕ × ℕ) :=
  if b.orderingSet = false then .error .panic
  else if delta = 0 then .error .assertion
  else
    let (arrival, last, rng') := b.arrivalTime env now rng delta
    if arrival ≤ now then .error .assertion
    else if b.strictFifo = true ∧ arrival < last then .error .panic
    else if now < m.lastEnqueueTime then .error .assertion
    else if b.prioHeap.any (b.nextNode now arrival m).clashes then
      .error (.sameCounter (b.msgCounter + 1))
    else .ok (b.inserted env now arrival last m, rng', arrival)

/-- The first message is taken out. -/
def pop (now : ℕ) : Except Fault (MessageBuffer μ) :=
  if b.isReady now then
    .ok { b with
      prioHeap := b.prioHeap.tail
      sizeAtCycleStart := if b.timeLastTimePop < now then b.size else b.sizeAtCycleStart
      timeLastTimePop := if b.timeLastTimePop < now then now else b.timeLastTimePop
      size := b.size - 1 }
  else .error .assertion

end MessageBuffer

/-! ### Ordered buffers are queues -/

theorem asInt_lt {c c' : ℕ} (h : c < c') (hc : c' < 2 ^ 32) : asInt c < asInt c' := by
  unfold asInt
  rw [Nat.mod_eq_of_lt hc, Nat.mod_eq_of_lt (h.trans hc)]
  simp only
  split <;> split <;> omega

theorem mem_pushHeap {x y : Node μ} {l : List (Node μ)} :
    y ∈ pushHeap x l ↔ y = x ∨ y ∈ l := by
  induction l with
  | nil => simp [pushHeap]
  | cons z zs ih =>
      rw [pushHeap]
      split
      · exact List.mem_cons
      · rw [List.mem_cons, ih, List.mem_cons]
        exact or_left_comm

/-- A node is put between those that it does not come before and those that it comes before. -/
theorem pushHeap_append {x : Node μ} {l₁ l₂ : List (Node μ)} (h₁ : ∀ y ∈ l₁, x.before y = false)
    (h₂ : ∀ y ∈ l₂, x.before y = true) : pushHeap x (l₁ ++ l₂) = l₁ ++ x :: l₂ := by
  induction l₁ with
  | nil =>
      cases l₂ with
      | nil => rfl
      | cons y ys => exact if_pos (h₂ y List.mem_cons_self)
  | cons y ys ih =>
      obtain ⟨hy, hys⟩ := List.forall_mem_cons.1 h₁
      rw [List.cons_append, pushHeap, hy, ih hys]
      rfl

/-- The nodes come to the front by the time at which they arrive. -/
def Sorted (l : List (Node μ)) : Prop := l.Pairwise fun x y => x.time ≤ y.time

theorem Sorted.pushHeap {l : List (Node μ)} (h : Sorted l) (x : Node μ) :
    Sorted (pushHeap x l) := by
  induction l with
  | nil => exact List.pairwise_singleton _ _
  | cons y ys ih =>
      obtain ⟨hy, hys⟩ := List.pairwise_cons.1 h
      rw [Net.pushHeap]
      split
      · next hb =>
          have hxy : x.time ≤ y.time := by
            unfold Node.before at hb
            split at hb
            · next he => exact he.le
            · exact (of_decide_eq_true hb).le
          refine List.pairwise_cons.2 ⟨List.forall_mem_cons.2 ⟨hxy, fun z hz => ?_⟩, h⟩
          exact hxy.trans (hy z hz)
      · next hb =>
          have hyx : y.time ≤ x.time := by
            unfold Node.before at hb
            split at hb
            · next he => exact he.ge
            · exact Nat.le_of_not_lt fun hlt => hb (decide_eq_true hlt)
          refine List.pairwise_cons.2 ⟨fun z hz => ?_, ih hys⟩
          rcases mem_pushHeap.1 hz with rfl | hz
          · exact hyx
          · exact hy z hz

/-- Those that arrive last are at the end. -/
theorem Sorted.split {l : List (Node μ)} (h : Sorted l) {t : ℕ} (ht : ∀ x ∈ l, x.time ≤ t) :
    ∃ l₁ l₂, l = l₁ ++ l₂ ∧ (∀ x ∈ l₁, x.time < t) ∧ ∀ x ∈ l₂, x.time = t := by
  induction l with
  | nil => exact ⟨[], [], rfl, nofun, nofun⟩
  | cons y ys ih =>
      obtain ⟨hy, hys⟩ := List.pairwise_cons.1 h
      obtain ⟨hyt, hyst⟩ := List.forall_mem_cons.1 ht
      rcases Nat.lt_or_eq_of_le hyt with hlt | rfl
      · obtain ⟨l₁, l₂, rfl, h₁, h₂⟩ := ih hys hyst
        exact ⟨y :: l₁, l₂, rfl, List.forall_mem_cons.2 ⟨hlt, h₁⟩, h₂⟩
      · refine ⟨[], y :: ys, rfl, nofun, List.forall_mem_cons.2 ⟨rfl, fun x hx => ?_⟩⟩
        exact Nat.le_antisymm (hyst x hx) (hy x hx)

/-- A message is refused that is not among the first 2³² of its buffer. -/
def Overrun (e : Fault) : Prop := ∃ counter, 2 ^ 32 ≤ counter ∧ e = .sameCounter counter

namespace MessageBuffer

variable {b : MessageBuffer μ} {env : Env} {now delta : ℕ}

/-- An ordered buffer into which messages are put with a delay of `delta`. -/
structure Ordered (env : Env) (now delta : ℕ) (b : MessageBuffer μ) : Prop where
  orderingSet : b.orderingSet = true
  strictFifo : b.strictFifo = true
  sorted : Sorted b.prioHeap
  time : ∀ x ∈ b.prioHeap, x.time ≤ b.lastArrivalTime
  msgCounter : ∀ x ∈ b.prioHeap, ∃ c, 0 < c ∧ c ≤ b.msgCounter ∧ x.msgCounter = asInt c
  lastEnqueueTime : ∀ x ∈ b.prioHeap, x.msg.lastEnqueueTime = x.time
  lastArrivalTime : env.getRandomization = false ∨ b.randomization = false →
    b.lastArrivalTime ≤ now + delta

/-- Time goes on. -/
theorem Ordered.mono (h : b.Ordered env now delta) {now' : ℕ} (hle : now ≤ now') :
    b.Ordered env now' delta :=
  { h with lastArrivalTime := fun hr => (h.lastArrivalTime hr).trans (by omega) }

/-- **When a message put in arrives**: later than now, and not before the last one. -/
theorem Ordered.arrivalTime (h : b.Ordered env now delta) (hd : 0 < delta) (rng : ℕ) :
    ∃ arrival last rng', b.arrivalTime env now rng delta = (arrival, last, rng') ∧
      now < arrival ∧ last ≤ arrival ∧ b.lastArrivalTime ≤ arrival ∧
      (env.getRandomization = false ∨ b.randomization = false → arrival ≤ now + delta) := by
  unfold MessageBuffer.arrivalTime
  split
  · next hr =>
      have hlast := h.lastArrivalTime hr
      exact ⟨_, _, _, rfl, by omega, hlast, hlast, fun _ => le_rfl⟩
  · next hr =>
      have hpos : 0 < (randomTime env rng).1 := by
        unfold randomTime
        simp only
        split <;> simp only <;> omega
      generalize randomTime env rng = r at hpos
      obtain ⟨time, rng'⟩ := r
      simp only [h.strictFifo, if_true]
      refine ⟨_, _, _, rfl, ?_, Nat.le_add_right _ _, ?_, fun hr' => absurd hr' hr⟩
      · split <;> omega
      · split <;> omega

/-- The counters of the messages in the buffer are smaller, until they overflow. -/
theorem Ordered.msgCounter_lt (h : b.Ordered env now delta) (hc : b.msgCounter + 1 < 2 ^ 32)
    {y : Node μ} (hy : y ∈ b.prioHeap) : y.msgCounter < asInt (b.msgCounter + 1) := by
  obtain ⟨c, -, hle, hy'⟩ := h.msgCounter y hy
  rw [hy']
  exact asInt_lt (Nat.lt_succ_of_le hle) hc

/-- Nothing in the buffer comes behind a message that is put in. -/
theorem Ordered.prioHeap_inserted (h : b.Ordered env now delta) (hc : b.msgCounter + 1 < 2 ^ 32)
    {arrival : ℕ} (hle : b.lastArrivalTime ≤ arrival) (last : ℕ) (m : Message μ) :
    (b.inserted env now arrival last m).prioHeap =
      b.prioHeap ++ [b.nextNode now arrival m] := by
  have hlast : ∀ y ∈ b.prioHeap, (b.nextNode now arrival m).before y = false := by
    intro y hy
    have htime := h.time y hy
    have hcounter := h.msgCounter_lt hc hy
    unfold Node.before nextNode
    split
    · exact decide_eq_false (by simp only; omega)
    · exact decide_eq_false (by simp only; omega)
  have hpush := pushHeap_append hlast (List.forall_mem_nil _)
  rwa [List.append_nil] at hpush

/-- What is left to be checked is that no message has the same time and counter. -/
theorem Ordered.enqueue_eq (h : b.Ordered env now delta) (hd : 0 < delta) {m : Message μ}
    (hm : m.lastEnqueueTime ≤ now) {rng arrival last rng' : ℕ}
    (he : b.arrivalTime env now rng delta = (arrival, last, rng')) (hnow : now < arrival)
    (hlast : last ≤ arrival) :
    b.enqueue env now rng m delta =
      if b.prioHeap.any (b.nextNode now arrival m).clashes then
        .error (.sameCounter (b.msgCounter + 1))
      else .ok (b.inserted env now arrival last m, rng', arrival) := by
  unfold MessageBuffer.enqueue
  rw [he, if_neg (by rw [h.orderingSet]; decide), if_neg hd.ne']
  simp only
  rw [if_neg (by omega), if_neg (by omega), if_neg (by omega)]

theorem Ordered.inserted (h : b.Ordered env now delta) (hw : env.warmupEnabled = false)
    {arrival : ℕ} (hle : b.lastArrivalTime ≤ arrival)
    (hmax : env.getRandomization = false ∨ b.randomization = false → arrival ≤ now + delta)
    (last : ℕ) (m : Message μ) : (b.inserted env now arrival last m).Ordered env now delta := by
  have hmem : ∀ y, y ∈ (b.inserted env now arrival last m).prioHeap ↔
      y = b.nextNode now arrival m ∨ y ∈ b.prioHeap := fun y => mem_pushHeap
  have hnew : (b.inserted env now arrival last m).lastArrivalTime = arrival := by
    simp [MessageBuffer.inserted, hw]
  refine ⟨h.orderingSet, h.strictFifo, h.sorted.pushHeap _, ?_, ?_, ?_, ?_⟩
  · rw [hnew]
    intro y hy
    rcases (hmem y).1 hy with rfl | hy
    · exact le_rfl
    · exact (h.time y hy).trans hle
  · intro y hy
    rcases (hmem y).1 hy with rfl | hy
    · exact ⟨b.msgCounter + 1, Nat.succ_pos _, le_rfl, rfl⟩
    · obtain ⟨c, hpos, hle', hy'⟩ := h.msgCounter y hy
      exact ⟨c, hpos, hle'.trans (Nat.le_succ _), hy'⟩
  · intro y hy
    rcases (hmem y).1 hy with rfl | hy
    · rfl
    · exact h.lastEnqueueTime y hy
  · rw [hnew]
    exact hmax

/-- **A message is put in**, and nothing fails.  As long as fewer than 2³² messages have been put
in, it is put behind all others; from then on it may be refused. -/
theorem Ordered.enqueue (h : b.Ordered env now delta) (hw : env.warmupEnabled = false)
    (hd : 0 < delta) {m : Message μ} (hm : m.lastEnqueueTime ≤ now) (rng : ℕ) :
    Meets Overrun (fun y : MessageBuffer μ × ℕ × ℕ =>
      y.1.Ordered env now delta ∧ y.1.msgCounter = b.msgCounter + 1 ∧
      ∃ x, x.msg = m.stamped now y.2.2 ∧ (∀ z, z ∈ y.1.prioHeap ↔ z = x ∨ z ∈ b.prioHeap) ∧
        (y.1.msgCounter < 2 ^ 32 → y.1.prioHeap = b.prioHeap ++ [x]))
      (b.enqueue env now rng m delta) := by
  obtain ⟨arrival, last, rng', he, hnow, hlast, hle, hmax⟩ := h.arrivalTime hd rng
  rw [h.enqueue_eq hd hm he hnow hlast]
  split
  · next hclash =>
      -- the counter of a message in the buffer has been reached again
      refine ⟨b.msgCounter + 1, Nat.le_of_not_lt fun hc => ?_, rfl⟩
      obtain ⟨y, hy, hxy⟩ := List.any_eq_true.1 hclash
      exact (h.msgCounter_lt hc hy).ne' (of_decide_eq_true hxy).2
  · exact ⟨h.inserted hw hle hmax last m, rfl, b.nextNode now arrival m, rfl,
      fun z => mem_pushHeap, fun hc => h.prioHeap_inserted hc hle last m⟩

/-- The first message of a buffer that is ready is taken out. -/
theorem Ordered.pop (h : b.Ordered env now delta) (hr : b.isReady now = true) :
    ∃ x rest b', b.prioHeap = x :: rest ∧ x.msg.lastEnqueueTime ≤ now ∧
      b.peekMsgPtr now = .ok x.msg ∧ b.pop now = .ok b' ∧ b'.prioHeap = rest ∧
      b'.Ordered env now delta ∧ b'.msgCounter = b.msgCounter := by
  obtain ⟨x, rest, hheap, hx⟩ : ∃ x rest, b.prioHeap = x :: rest ∧ x.time ≤ now := by
    unfold isReady at hr
    split at hr
    · cases hr
    · next x rest hheap => exact ⟨x, rest, hheap, of_decide_eq_true hr⟩
  have htail : b.prioHeap.tail = rest := by rw [hheap, List.tail_cons]
  have hsub : ∀ y ∈ b.prioHeap.tail, y ∈ b.prioHeap := fun y => List.mem_of_mem_tail
  refine ⟨x, rest, _, hheap, ?_, ?_, if_pos hr, htail, ?_, rfl⟩
  · rw [h.lastEnqueueTime x (hheap ▸ List.mem_cons_self)]
    exact hx
  · rw [peekMsgPtr, hheap]
    exact if_pos hx
  · exact ⟨h.orderingSet, h.strictFifo, h.sorted.sublist (List.tail_sublist _),
      fun y hy => h.time y (hsub y hy), fun y hy => h.msgCounter y (hsub y hy),
      fun y hy => h.lastEnqueueTime y (hsub y hy), h.lastArrivalTime⟩

/-- **An ordered buffer is a queue only for 2³² messages.** The counter of the message behind them
is 0 as an `int`.  So, without randomization, this message is put in front of all that arrive with
it, and behind those that arrive before. -/
theorem enqueue_overflow (h : b.Ordered env now delta) (hr : env.getRandomization = false)
    (hd : 0 < delta) {m : Message μ} (hm : m.lastEnqueueTime ≤ now) (hc : b.msgCounter + 1 = 2 ^ 32)
    (rng : ℕ) :
    ∃ b' x l₁ l₂, b.enqueue env now rng m delta = .ok (b', rng, now + delta) ∧
      x.msg = m.stamped now (now + delta) ∧ b.prioHeap = l₁ ++ l₂ ∧
      (∀ y ∈ l₁, y.time < now + delta) ∧ (∀ y ∈ l₂, y.time = now + delta) ∧
      b'.prioHeap = l₁ ++ x :: l₂ := by
  have harrival : b.arrivalTime env now rng delta = (now + delta, b.lastArrivalTime, rng) :=
    if_pos (.inl hr)
  have hlast := h.lastArrivalTime (.inl hr)
  have hzero : asInt (b.msgCounter + 1) = 0 := by
    rw [hc]
    decide
  -- no other counter is 0
  have hpos : ∀ y ∈ b.prioHeap, 0 < y.msgCounter := by
    intro y hy
    obtain ⟨c, hpos, hle, hy'⟩ := h.msgCounter y hy
    rw [hy']
    exact Nat.zero_lt_of_lt (asInt_lt hpos (by omega))
  have hclash : ¬b.prioHeap.any (b.nextNode now (now + delta) m).clashes = true := by
    intro hany
    obtain ⟨y, hy, hxy⟩ := List.any_eq_true.1 hany
    exact (hpos y hy).ne (hzero.symm.trans (of_decide_eq_true hxy).2)
  obtain ⟨l₁, l₂, hheap, h₁, h₂⟩ := h.sorted.split fun x hx => (h.time x hx).trans hlast
  refine ⟨b.inserted env now (now + delta) b.lastArrivalTime m, b.nextNode now (now + delta) m,
    l₁, l₂, ?_, rfl, hheap, h₁, h₂, ?_⟩
  · rw [h.enqueue_eq hd hm harrival (by omega) hlast, if_neg hclash]
  · rw [MessageBuffer.inserted, hheap]
    refine pushHeap_append (fun y hy => ?_) fun y hy => ?_
    · have hlt := h₁ y hy
      exact (if_neg hlt.ne').trans (decide_eq_false hlt.le.not_gt)
    · refine (if_pos (h₂ y hy).symm).trans (decide_eq_true (hzero.trans_lt (hpos y ?_)))
      rw [hheap]
      exact List.mem_append_right _ hy

/-- A message that has been put in at the time before its arrival. -/
def sample (content arrival : ℕ) : Message ℕ := ⟨content, 0, {1}, .Control, none, arrival, 0⟩

/-- A buffer with two messages, one of them the last one before the counter overflows. -/
def beforeOverflow : MessageBuffer ℕ where
  prioHeap := [⟨1, asInt (2 ^ 32 - 2), sample 6 1⟩, ⟨2, asInt (2 ^ 32 - 1), sample 7 2⟩]
  size := 2
  timeLastTimeEnqueue := 1
  msgsThisCycle := 1
  msgCounter := 2 ^ 32 - 1
  orderingSet := true
  lastArrivalTime := 2

theorem beforeOverflow_ordered (env : Env) : beforeOverflow.Ordered env 1 1 where
  orderingSet := rfl
  strictFifo := rfl
  sorted := by
    rw [Sorted, beforeOverflow, List.pairwise_pair]
    decide
  time := List.forall_mem_cons.2 ⟨by decide, List.forall_mem_singleton.2 le_rfl⟩
  msgCounter := List.forall_mem_cons.2 ⟨⟨2 ^ 32 - 2, by decide, by decide, rfl⟩,
    List.forall_mem_singleton.2 ⟨2 ^ 32 - 1, by decide, le_rfl, rfl⟩⟩
  lastEnqueueTime := List.forall_mem_cons.2 ⟨rfl, List.forall_mem_singleton.2 rfl⟩
  lastArrivalTime _ := le_rfl

theorem enqueue_overflow_sample : ∃ b' x l₁ l₂,
    beforeOverflow.enqueue ⟨fun _ => 0, false, false⟩ 1 0 (sample 8 1) 1 = .ok (b', 0, 2) ∧
      x.msg = (sample 8 1).stamped 1 2 ∧ beforeOverflow.prioHeap = l₁ ++ l₂ ∧
      (∀ y ∈ l₁, y.time < 2) ∧ (∀ y ∈ l₂, y.time = 2) ∧ b'.prioHeap = l₁ ++ x :: l₂ :=
  enqueue_overflow (beforeOverflow_ordered _) rfl Nat.one_pos le_rfl (by decide) 0

-- the message with content 8 overtakes the one with content 7
example : (beforeOverflow.enqueue ⟨fun _ => 0, false, false⟩ 1 0 (sample 8 1) 1).map
    (fun y => y.1.prioHeap.map fun x => x.msg.content) = .ok [6, 8, 7] := by
  decide

end MessageBuffer

end Net
