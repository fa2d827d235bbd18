/-
**The directory controller of the MSI protocol.**

A translation of `MSI-dir.sm`, organised like `ArchLab/MsiL1Cache.lean`: in ports name an event, the
table `Msi.Directory.transition` gives the actions and the next state, and
`Msi.Directory.doTransition` runs them and calls `setState`, whose assertions about the counts of
`Owner` and `Sharers` are kept.

A directory entry is created the first time its address is looked up, with the contents of memory as
its data; the model has the entry there from the start.  `directory.invalidateBlock`, called on
entering `I`, does nothing unless the option `use_map` is set, and is left out.  The fields
`PhysicalAddress` and `Len` of the transient entry are never written: `Len` keeps its declared
default `0`, so that the partial copies move no bytes.

Main definitions:

* `Msi.Directory.State`, `Msi.Directory.Event`, `Msi.Directory.Action` — the three enumerations;
* `Msi.Directory.transition` — the transition table;
* `Msi.Directory.doTransition` — one transition;
* `Msi.Directory.requestQueueIn`, `Msi.Directory.responseQueueIn`, `Msi.Directory.memQueueIn` — the
  in ports.
-/

import ArchLab.MsiL1Cache

set_option relaxedAutoImplicit false
set_option autoImplicit false

namespace Msi.Directory

/-- The states of a block in the directory. -/
inductive State where
  | I | M | S
  | IS_MD | IM_MD | MS_OD | MS_MA | MI_MA
  deriving DecidableEq

/-- What can happen to a block. -/
inductive Event where
  | GETM | GETS | PUTM | PUTM_Owner | PUTM_NotOwner | PUTS_NotLast | PUTS_Last | PUT_Ack
  | Memory_Data | Memory_Ack | Data
  deriving DecidableEq

/-- The actions of the controller. -/
inductive Action where
  | kkRemoveRequestSharer | ars1AddRequestorToSharers | ars2AddRequestorToSharers
  | aosAddOwnertoSharers | aSendWriteBackAck | laSendWriteBackAck | cClearOwner | csClearSharers
  | dSendData | dsSendSharedData | ds2SendSharedData | eOwnerIsRequestor | fForwardRequest
  | iPopIncomingRequestQueue | prPopIncomingResponseQueue
  | plWriteDataToDirectory | pl2WriteDataToDirectory
  | vvAllocateTBEFromRequestNet | wDeallocateTBE | zStall
  | qfQueueMemoryFetchRequest | qwtQueueMemoryWBRequestPartialTBE
  | lqQueueMemoryWBRequest | lq2QueueMemoryWBRequest | qmPopMemQueue
  | wWriteDataToDirectoryFromTBE | fwmSendFwdInvToSharersMinusRequestor
  deriving DecidableEq

/-- A directory entry. -/
structure Entry (C D : Type) (n : ℕ) where
  directoryState : State := .I
  dataBlk : DataBlock n
  sharers : NetDest C D := ∅
  owner : NetDest C D := ∅

/-- A transient block entry.  `addressOffset` stands for `addressOffset(PhysicalAddress)`. -/
structure TBE (n : ℕ) where
  addressOffset : ℕ := 0
  tbeState : State := .I
  dataBlk : DataBlock n := default
  len : ℕ := 0

/-- What a transition works on: the entry and the transient entry of its block, the queue heads it
may peek at, and what its actions send. -/
structure Ctx (C D A : Type) (n : ℕ) where
  entry : Entry C D n
  tbe : Option (TBE n)
  requestQueueIn : Option (RequestMsg C D A n) := none
  responseQueueIn : Option (ResponseMsg C D A n) := none
  memQueueIn : Option (MemoryMsg C D A n) := none
  forwardNetworkOut : List (RequestMsg C D A n) := []
  responseNetworkOut : List (ResponseMsg C D A n) := []
  memQueueOut : List (MemoryMsg C D A n) := []

/-- What is fixed while a transition runs. -/
structure Env (D A : Type) where
  machineID : D
  address : A
  time : ℕ

/-- The state of a block: the transient entry comes first. -/
def getState {C D : Type} {n : ℕ} (tbe : Option (TBE n)) (entry : Entry C D n) : State :=
  match tbe with
  | some t => t.tbeState
  | none => entry.directoryState

section Actions

variable {C D A : Type} [DecidableEq C] [DecidableEq D] {n : ℕ}

/-- Write the next state, with the assertions on entering `M` and `I`. -/
def setState (s : State) (x : Ctx C D A n) : Except Fault (Ctx C D A n) :=
  if (s = .M ∧ ¬ (x.entry.owner.card = 1 ∧ x.entry.sharers.card = 0)) ∨
      (s = .I ∧ ¬ (x.entry.owner.card = 0 ∧ x.entry.sharers.card = 0)) then
    .error .assertion
  else
    .ok { x with
      tbe := x.tbe.map fun t => { t with tbeState := s }
      entry := { x.entry with directoryState := s } }

/-- A message on the forward network. -/
def Env.forward (env : Env D A) (type : CoherenceRequestType) (requestor : MachineID C D)
    (destination : NetDest C D) : RequestMsg C D A n :=
  { address := env.address
    type := type
    requestor := requestor
    destination := destination
    time := env.time }

/-- Data for a requestor, with an acknowledgement count. -/
def Env.data (env : Env D A) (dest : MachineID C D) (dataBlk : DataBlock n) (ackCount : ℤ) :
    ResponseMsg C D A n :=
  { address := env.address
    type := .DATA_FROM_DIR
    sender := .Directory env.machineID
    destination := {dest}
    dataBlk := dataBlk
    ackCount := ackCount }

/-- A request to the memory controller. -/
def Env.memory (env : Env D A) (type : MemoryRequestType) (requestor : MachineID C D)
    (dataBlk : DataBlock n) : MemoryMsg C D A n :=
  { address := env.address
    type := type
    originalRequestorMachId := requestor
    dataBlk := dataBlk }

/-- Enqueue a message on the forward network. -/
def Ctx.sendForward (x : Ctx C D A n) (m : RequestMsg C D A n) : Ctx C D A n :=
  { x with forwardNetworkOut := x.forwardNetworkOut ++ [m] }

/-- Enqueue a message on the response network. -/
def Ctx.sendResponse (x : Ctx C D A n) (m : ResponseMsg C D A n) : Ctx C D A n :=
  { x with responseNetworkOut := x.responseNetworkOut ++ [m] }

/-- Enqueue a request to the memory controller. -/
def Ctx.sendMemory (x : Ctx C D A n) (m : MemoryMsg C D A n) : Ctx C D A n :=
  { x with memQueueOut := x.memQueueOut ++ [m] }

/-- Change the sharers of the block. -/
def Ctx.setSharers (x : Ctx C D A n) (sharers : NetDest C D) : Ctx C D A n :=
  { x with entry := { x.entry with sharers := sharers } }

/-- Change the owner of the block. -/
def Ctx.setOwner (x : Ctx C D A n) (owner : NetDest C D) : Ctx C D A n :=
  { x with entry := { x.entry with owner := owner } }

/-- Change the data of the block. -/
def Ctx.setData (x : Ctx C D A n) (dataBlk : DataBlock n) : Ctx C D A n :=
  { x with entry := { x.entry with dataBlk := dataBlk } }

open L1Cache (need)

/-- The effect of one action. -/
def Action.exec (env : Env D A) (x : Ctx C D A n) : Action → Except Fault (Ctx C D A n)
  | .kkRemoveRequestSharer => do
      let inMsg ← need x.requestQueueIn
      return x.setSharers (x.entry.sharers.erase inMsg.requestor)
  | .ars1AddRequestorToSharers => do
      let inMsg ← need x.memQueueIn
      return x.setSharers (insert inMsg.originalRequestorMachId x.entry.sharers)
  | .ars2AddRequestorToSharers => do
      let inMsg ← need x.requestQueueIn
      return x.setSharers (insert inMsg.requestor x.entry.sharers)
  | .aosAddOwnertoSharers => do
      let _ ← need x.requestQueueIn
      return x.setSharers (x.entry.sharers ∪ x.entry.owner)
  | .aSendWriteBackAck => do
      let inMsg ← need x.requestQueueIn
      return x.sendForward (env.forward .WB_ACK (.Directory env.machineID) {inMsg.requestor})
  | .laSendWriteBackAck => do
      let inMsg ← need x.memQueueIn
      return x.sendForward (env.forward .WB_ACK inMsg.originalRequestorMachId
        {inMsg.originalRequestorMachId})
  | .cClearOwner => .ok (x.setOwner ∅)
  | .csClearSharers => .ok (x.setSharers ∅)
  | .dSendData => do
      let inMsg ← need x.memQueueIn
      return x.sendResponse (env.data inMsg.originalRequestorMachId inMsg.dataBlk 0)
  | .dsSendSharedData => do
      let inMsg ← need x.requestQueueIn
      return x.sendResponse (env.data inMsg.requestor x.entry.dataBlk 0)
  | .ds2SendSharedData => do
      let inMsg ← need x.requestQueueIn
      return x.sendResponse (env.data inMsg.requestor x.entry.dataBlk
        (if inMsg.requestor ∈ x.entry.sharers then 1 - (x.entry.sharers.card : ℤ)
          else 0 - (x.entry.sharers.card : ℤ)))
  | .eOwnerIsRequestor => do
      let inMsg ← need x.requestQueueIn
      return x.setOwner (insert inMsg.requestor ∅)
  | .fForwardRequest => do
      let inMsg ← need x.requestQueueIn
      return x.sendForward (env.forward inMsg.type inMsg.requestor x.entry.owner)
  | .iPopIncomingRequestQueue => do
      let _ ← need x.requestQueueIn
      return { x with requestQueueIn := none }
  | .prPopIncomingResponseQueue => do
      let _ ← need x.responseQueueIn
      return { x with responseQueueIn := none }
  | .plWriteDataToDirectory => do
      let inMsg ← need x.requestQueueIn
      return x.setData inMsg.dataBlk
  | .pl2WriteDataToDirectory => do
      let inMsg ← need x.responseQueueIn
      return x.setData inMsg.dataBlk
  | .vvAllocateTBEFromRequestNet => do
      let inMsg ← need x.requestQueueIn
      match x.tbe with
      | some _ => .error .assertion
      | none => .ok { x with tbe := some { dataBlk := inMsg.dataBlk } }
  | .wDeallocateTBE => do
      let _ ← need x.tbe
      return { x with tbe := none }
  | .zStall => .ok x
  | .qfQueueMemoryFetchRequest => do
      let inMsg ← need x.requestQueueIn
      return x.sendMemory (env.memory .MEMORY_READ inMsg.requestor x.entry.dataBlk)
  | .qwtQueueMemoryWBRequestPartialTBE => do
      let inMsg ← need x.requestQueueIn
      let t ← need x.tbe
      return x.sendMemory (env.memory .MEMORY_WB inMsg.requestor
        ((default : DataBlock n).copyPartial t.dataBlk t.addressOffset t.len))
  | .lqQueueMemoryWBRequest => do
      let inMsg ← need x.requestQueueIn
      return x.sendMemory (env.memory .MEMORY_WB inMsg.requestor inMsg.dataBlk)
  | .lq2QueueMemoryWBRequest => do
      let inMsg ← need x.responseQueueIn
      return x.sendMemory (env.memory .MEMORY_WB inMsg.sender inMsg.dataBlk)
  | .qmPopMemQueue => do
      let _ ← need x.memQueueIn
      return { x with memQueueIn := none }
  | .wWriteDataToDirectoryFromTBE => do
      let t ← need x.tbe
      return x.setData (x.entry.dataBlk.copyPartial t.dataBlk t.addressOffset t.len)
  | .fwmSendFwdInvToSharersMinusRequestor => do
      let inMsg ← need x.requestQueueIn
      return x.sendForward (env.forward .INV inMsg.requestor
        (if inMsg.requestor ∈ x.entry.sharers then x.entry.sharers.erase inMsg.requestor
          else x.entry.sharers))

end Actions

/-- The transition table: the actions of a declared transition and its next state. -/
def transition : State → Event → Option (List Action × State)
  -- from I
  | .I, .GETS =>
      some ([.vvAllocateTBEFromRequestNet, .ars2AddRequestorToSharers, .qfQueueMemoryFetchRequest,
        .iPopIncomingRequestQueue], .IS_MD)
  | .I, .GETM =>
      some ([.vvAllocateTBEFromRequestNet, .eOwnerIsRequestor, .qfQueueMemoryFetchRequest,
        .iPopIncomingRequestQueue], .IM_MD)
  | .I, .PUTS_NotLast | .I, .PUTS_Last | .I, .PUTM_NotOwner =>
      some ([.aSendWriteBackAck, .iPopIncomingRequestQueue], .I)
  -- from IS_MD
  | .IS_MD, .Memory_Data =>
      some ([.dSendData, .wWriteDataToDirectoryFromTBE, .wDeallocateTBE, .qmPopMemQueue], .S)
  | .IS_MD, .GETS | .IS_MD, .GETM | .IS_MD, .PUTM_NotOwner | .IS_MD, .PUTS_Last
  | .IS_MD, .PUTS_NotLast => some ([.zStall], .IS_MD)
  -- from S
  | .S, .GETS =>
      some ([.dsSendSharedData, .ars2AddRequestorToSharers, .iPopIncomingRequestQueue], .S)
  | .S, .GETM =>
      some ([.ds2SendSharedData, .fwmSendFwdInvToSharersMinusRequestor, .csClearSharers,
        .eOwnerIsRequestor, .iPopIncomingRequestQueue], .M)
  | .S, .PUTS_NotLast | .S, .PUTM_NotOwner =>
      some ([.kkRemoveRequestSharer, .aSendWriteBackAck, .iPopIncomingRequestQueue], .S)
  | .S, .PUTS_Last =>
      some ([.kkRemoveRequestSharer, .aSendWriteBackAck, .iPopIncomingRequestQueue], .I)
  -- from IM_MD
  | .IM_MD, .Memory_Data =>
      some ([.dSendData, .wWriteDataToDirectoryFromTBE, .wDeallocateTBE, .qmPopMemQueue], .M)
  | .IM_MD, .GETS | .IM_MD, .GETM | .IM_MD, .PUTM_NotOwner | .IM_MD, .PUTS_Last
  | .IM_MD, .PUTS_NotLast => some ([.zStall], .IM_MD)
  -- from M
  | .M, .GETS =>
      some ([.vvAllocateTBEFromRequestNet, .fForwardRequest, .aosAddOwnertoSharers,
        .ars2AddRequestorToSharers, .cClearOwner, .iPopIncomingRequestQueue], .MS_OD)
  | .M, .GETM =>
      some ([.fForwardRequest, .cClearOwner, .eOwnerIsRequestor, .iPopIncomingRequestQueue], .M)
  | .M, .PUTS_NotLast | .M, .PUTS_Last | .M, .PUTM_NotOwner =>
      some ([.aSendWriteBackAck, .iPopIncomingRequestQueue], .M)
  | .M, .PUTM_Owner =>
      some ([.vvAllocateTBEFromRequestNet, .lqQueueMemoryWBRequest, .plWriteDataToDirectory,
        .iPopIncomingRequestQueue], .MI_MA)
  -- from MS_OD
  | .MS_OD, .Data =>
      some ([.lq2QueueMemoryWBRequest, .pl2WriteDataToDirectory, .prPopIncomingResponseQueue],
        .MS_MA)
  | .MS_OD, .GETS | .MS_OD, .GETM | .MS_OD, .PUTS_Last => some ([.zStall], .MS_OD)
  | .MS_OD, .PUTS_NotLast | .MS_OD, .PUTM_NotOwner | .MS_OD, .PUTM_Owner =>
      some ([.kkRemoveRequestSharer, .aSendWriteBackAck, .iPopIncomingRequestQueue], .MS_OD)
  -- from MS_MA
  | .MS_MA, .Memory_Ack => some ([.wDeallocateTBE, .cClearOwner, .qmPopMemQueue], .S)
  | .MS_MA, .GETS | .MS_MA, .GETM | .MS_MA, .PUTS_Last => some ([.zStall], .MS_MA)
  | .MS_MA, .PUTS_NotLast | .MS_MA, .PUTM_NotOwner | .MS_MA, .PUTM_Owner =>
      some ([.kkRemoveRequestSharer, .aSendWriteBackAck, .iPopIncomingRequestQueue], .MS_MA)
  -- from MI_MA
  | .MI_MA, .Memory_Ack =>
      some ([.laSendWriteBackAck, .wDeallocateTBE, .cClearOwner, .qmPopMemQueue], .I)
  | .MI_MA, .GETS | .MI_MA, .GETM | .MI_MA, .PUTS_Last => some ([.zStall], .MI_MA)
  | .MI_MA, .PUTM_NotOwner | .MI_MA, .PUTS_NotLast =>
      some ([.kkRemoveRequestSharer, .aSendWriteBackAck, .iPopIncomingRequestQueue], .MI_MA)
  | _, _ => none

section Ports

variable {C D A : Type} [DecidableEq C] [DecidableEq D] {n : ℕ}

/-- One transition: look the pair of state and event up, stall or run the actions in order, and
write the next state. -/
def doTransition (env : Env D A) (event : Event) (x : Ctx C D A n) : Outcome (Ctx C D A n) :=
  match transition (getState x.tbe x.entry) event with
  | none => .fault .invalidTransition
  | some (actions, next) =>
      if .zStall ∈ actions then .stall
      else
        match actions.foldlM (Action.exec env) x >>= setState next with
        | .error f => .fault f
        | .ok x' => .valid x'

/-- The event of a request: a `PUTM` is classified by whether its sender is the owner, a `PUTS` by
whether its sender is the last sharer. -/
def requestEvent (entry : Entry C D n) (m : RequestMsg C D A n) : Except Fault Event :=
  match m.type with
  | .GETS => .ok .GETS
  | .GETM => .ok .GETM
  | .PUTM => .ok (if m.requestor ∈ entry.owner then .PUTM_Owner else .PUTM_NotOwner)
  | .PUTS =>
      .ok (if entry.sharers.card < 2 ∧ m.requestor ∈ entry.sharers then .PUTS_Last
        else .PUTS_NotLast)
  | _ => .error (.error "Invalid message")

/-- The event of a response. -/
def responseEvent (m : ResponseMsg C D A n) : Except Fault Event :=
  match m.type with
  | .DATA => .ok .Data
  | _ => .error (.error "Directory: Invalid response message")

/-- The event of an answer of the memory controller. -/
def memEvent (m : MemoryMsg C D A n) : Event :=
  match m.type with
  | .MEMORY_READ => .Memory_Data
  | .MEMORY_WB => .Memory_Ack

/-- Trigger an event that an in port has determined. -/
def trigger (env : Env D A) (x : Ctx C D A n) : Except Fault Event → Outcome (Ctx C D A n)
  | .error f => .fault f
  | .ok ev => doTransition env ev x

/-- The in port of the request network. -/
def requestQueueIn (env : Env D A) (entry : Entry C D n) (tbe : Option (TBE n))
    (m : RequestMsg C D A n) : Outcome (Ctx C D A n) :=
  trigger env { entry := entry, tbe := tbe, requestQueueIn := some m } (requestEvent entry m)

/-- The in port of the response network. -/
def responseQueueIn (env : Env D A) (entry : Entry C D n) (tbe : Option (TBE n))
    (m : ResponseMsg C D A n) : Outcome (Ctx C D A n) :=
  trigger env { entry := entry, tbe := tbe, responseQueueIn := some m } (responseEvent m)

/-- The in port of the memory controller. -/
def memQueueIn (env : Env D A) (entry : Entry C D n) (tbe : Option (TBE n))
    (m : MemoryMsg C D A n) : Outcome (Ctx C D A n) :=
  trigger env { entry := entry, tbe := tbe, memQueueIn := some m } (.ok (memEvent m))

end Ports

end Msi.Directory
