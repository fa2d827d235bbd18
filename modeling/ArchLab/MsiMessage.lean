/-
**The vocabulary of the MSI directory protocol.**

The protocol of Lab 5 is written in SLICC: `MSI-msg.sm` declares the messages, `MSI-cache.sm` and
`MSI-dir.sm` the two controllers.  This module holds what the two controllers share: the names of
the machines, the data block, the messages with the fields the controllers read or write, and the
faults a transition can run into.

Main definitions:

* `Msi.MachineID`, `Msi.NetDest` — a node of the network and a set of nodes;
* `Msi.DataBlock`, `Msi.DataBlock.copyPartial` — the bytes of a cache line;
* `Msi.RequestMsg`, `Msi.ResponseMsg`, `Msi.MemoryMsg`, `Msi.RubyRequest` — the four kinds of
  message a controller takes from its queues;
* `Msi.Fault`, `Msi.Outcome` — what an attempt to process a queue head ends in;
* `Msi.Config` — the parameters of a run: which directory is the home of a block, the geometry of
  the caches, and the flag `send_evictions`.

Fields that no transition reads (`MessageSize`, `Dirty`) are left out.
-/

import Mathlib.Data.Finset.Card
import Mathlib.Data.Finset.Image
import Mathlib.Data.Fintype.Card

set_option relaxedAutoImplicit false
set_option autoImplicit false

namespace Msi

/-- A node of the network: an L1 cache controller or a directory controller. -/
inductive MachineID (C D : Type) where
  | L1Cache (num : C)
  | Directory (num : D)
  deriving DecidableEq

/-- A set of machines, used for the sharers and the owner of a block and as the destination of a
multicast. -/
abbrev NetDest (C D : Type) : Type := Finset (MachineID C D)

/-- The bytes of one cache line. -/
def DataBlock (n : ℕ) : Type := Fin n → UInt8

instance (n : ℕ) : DecidableEq (DataBlock n) := inferInstanceAs (DecidableEq (Fin n → UInt8))

/-- A new block is cleared. -/
instance (n : ℕ) : Inhabited (DataBlock n) := ⟨fun _ => 0⟩

/-- Overwrite the bytes `offset, …, offset + len - 1` with those of another block. -/
def DataBlock.copyPartial {n : ℕ} (blk dblk : DataBlock n) (offset len : ℕ) : DataBlock n :=
  fun i => if offset ≤ i.val ∧ i.val < offset + len then dblk i else blk i

/-- Copying no bytes changes nothing. -/
@[simp] theorem DataBlock.copyPartial_zero {n : ℕ} (blk dblk : DataBlock n) (offset : ℕ) :
    blk.copyPartial dblk offset 0 = blk := by
  funext i
  simp only [DataBlock.copyPartial, Nat.add_zero]
  rw [if_neg (by omega)]

/-- The types of a message on the request network or the forward network. -/
inductive CoherenceRequestType where
  | GETM | GETS | PUTM | PUTS | WB_ACK | WB_NACK | INV | FWD
  deriving DecidableEq

/-- The types of a message on the response network. -/
inductive CoherenceResponseType where
  | ACK | DATA | DATA_EXCLUSIVE_CLEAN | DATA_EXCLUSIVE_DIRTY | UNBLOCK | UNBLOCK_EXCLUSIVE
  | WB_ACK | WRITEBACK_CLEAN | WRITEBACK_DIRTY | WRITEBACK | DATA_FROM_DIR | DATA_FROM_OWNER
  deriving DecidableEq

/-- The two requests a directory makes of its memory controller. -/
inductive MemoryRequestType where
  | MEMORY_READ | MEMORY_WB
  deriving DecidableEq

/-- The request types a processor can put into the mandatory queue (`Io` is spelled `IO` there). -/
inductive RubyRequestType where
  | LD | ST | ATOMIC | IFETCH | Io | REPLACEMENT | Load_Linked | Store_Conditional | RMW_Read
  | RMW_Write | Locked_RMW_Read | Locked_RMW_Write | COMMIT | NULL | FLUSH
  deriving DecidableEq

/-- A request to a directory, or a request forwarded by one.  `time` is the `m_time` that every
`Message` carries from its construction; no transition reads it. -/
structure RequestMsg (C D A : Type) (n : ℕ) where
  address : A
  type : CoherenceRequestType
  requestor : MachineID C D
  destination : NetDest C D
  dataBlk : DataBlock n := default
  time : ℕ
  deriving DecidableEq

/-- A response: data, or the acknowledgement of an invalidation. -/
structure ResponseMsg (C D A : Type) (n : ℕ) where
  address : A
  type : CoherenceResponseType
  sender : MachineID C D
  destination : NetDest C D
  dataBlk : DataBlock n := default
  ackCount : ℤ := 0
  deriving DecidableEq

/-- A request to the memory controller, which hands the same message back when it is done. -/
structure MemoryMsg (C D A : Type) (n : ℕ) where
  address : A
  type : MemoryRequestType
  originalRequestorMachId : MachineID C D
  dataBlk : DataBlock n
  deriving DecidableEq

/-- A request of the local processor. -/
structure RubyRequest (A : Type) where
  lineAddress : A
  type : RubyRequestType
  deriving DecidableEq

/-- What makes the simulator stop: a pair of state and event with no declared transition, a failed
`assert` (or the dereference of an invalid pointer), or a call of `error`. -/
inductive Fault where
  | invalidTransition
  | assertion
  | error (text : String)
  deriving DecidableEq

/-- What becomes of the attempt to process the head of a queue. -/
inductive Outcome (α : Type) where
  /-- There is no head to process. -/
  | idle
  /-- The transition is `z_stall`: the head stays in place. -/
  | stall
  /-- The simulator stops. -/
  | fault (f : Fault)
  /-- The transition was carried out. -/
  | valid (a : α)

/-- Continue with the result of a valid outcome. -/
def Outcome.map {α β : Type} (f : α → β) : Outcome α → Outcome β
  | idle => idle
  | stall => stall
  | fault e => fault e
  | valid a => valid (f a)

@[simp] theorem Outcome.map_idle {α β : Type} (f : α → β) :
    (Outcome.idle : Outcome α).map f = idle := rfl

@[simp] theorem Outcome.map_eq_valid {α β : Type} {f : α → β} {o : Outcome α} {b : β} :
    o.map f = valid b ↔ ∃ a, o = valid a ∧ f a = b := by
  cases o <;> simp [Outcome.map]

@[simp] theorem Outcome.map_eq_fault {α β : Type} {f : α → β} {o : Outcome α} {e : Fault} :
    o.map f = fault e ↔ o = fault e := by
  cases o <;> simp [Outcome.map]

/-- Whether the outcome is valid, with a result of a given kind. -/
def Outcome.holds {α : Type} (p : α → Bool) : Outcome α → Bool
  | valid a => p a
  | _ => false

theorem Outcome.holds_iff {α : Type} {p : α → Bool} {o : Outcome α} :
    o.holds p = true ↔ ∃ a, o = valid a ∧ p a = true := by
  cases o <;> simp [Outcome.holds]

/-- The parameters of a system. -/
structure Config (D A : Type) where
  /-- The home directory of a block. -/
  mapAddressToDirectory : A → D
  /-- The cache set of a block. -/
  addressToCacheSet : A → ℕ
  /-- The associativity of the caches. -/
  assoc : ℕ
  /-- Whether the sequencer is told about evictions. -/
  sendEvictions : Bool := true

end Msi
