/-
**The L1 cache controller of the MSI protocol.**

A translation of `MSI-cache.sm`.  SLICC separates a controller into *in ports*, which look at the
head of a queue and name an event, a *transition table*, which maps a state and an event to a list
of actions and a next state, and the *actions* themselves.  The model keeps the three apart: the
table `Msi.L1Cache.transition` is data, `Msi.L1Cache.Action.exec` says what an action does, and
`Msi.L1Cache.doTransition` runs the actions of a transition in order and then calls `setState`, as
the code that `StateMachine.py` generates does.

A transition works on one block, through the pointers `cache_entry` and `tbe`.  These, the message
at the head of the queue that triggered the transition and everything the actions send are collected
in `Msi.L1Cache.Ctx`.  A dequeue empties the slot of its queue, so that an action which peeked after
the dequeue would be reported as a failed assertion; no transition does.

Main definitions:

* `Msi.L1Cache.State`, `Msi.L1Cache.Event`, `Msi.L1Cache.Action` — the three enumerations;
* `Msi.L1Cache.transition` — the transition table;
* `Msi.L1Cache.doTransition` — one transition;
* `Msi.L1Cache.forwardRequestNetworkIn`, `Msi.L1Cache.responseNetworkIn`,
  `Msi.L1Cache.mandatoryQueueIn` — the in ports.
-/

import ArchLab.MsiCacheMemory

set_option relaxedAutoImplicit false
set_option autoImplicit false

namespace Msi.L1Cache

/-- The states of a block in a cache. -/
inductive State where
  | I | S | M
  | IS_D | IM_AD | IM_A | SM_AD | SM_A | MI_A | SI_A | II_A
  deriving DecidableEq

/-- What can happen to a block. -/
inductive Event where
  | Load | Ifetch | Store | Replacement
  | Fwd_GetS | Fwd_GetM | Inv | WB_Ack
  | Inv_Ack | Inv_Ack_all
  | Data_from_Dir_No_Acks | Data_from_Dir_Ack_Cnt | Data_from_Dir_Ack_Cnt_Last | Data_from_Owner
  deriving DecidableEq

/-- The actions of the controller. -/
inductive Action where
  | asIssueGetS | amIssueGetM | bsIssuePUTS | bmIssuePUTM
  | eSendDataFromCacheToRequestor | eeSendDataFromTBEToRequestor
  | deSendDataFromCacheToDir | deeSendDataFromTBEToDir | fiSendInvAck
  | iAllocateL1CacheBlock | hDeallocateL1CacheBlock
  | mPopMandatoryQueue | nPopResponseQueue | oPopForwardedRequestQueue | pProfileMiss
  | rLoadHit | rxLoadHit | sStoreHit | sxStoreHit
  | uWriteDataToCache | qUpdateAckCount | forwardEvictionToCpu
  | vAllocateTBE | wDeallocateTBE | xCopyDataFromCacheToTBE | zStall
  deriving DecidableEq

/-- A line of the cache. -/
structure Entry (n : ℕ) where
  cacheState : State := .I
  dataBlk : DataBlock n := default

/-- A transient block entry. -/
structure TBE (n : ℕ) where
  tbeState : State := .I
  dataBlk : DataBlock n := default
  pendingAcks : ℤ := 0

/-- What the controller tells the sequencer: a completed load with the data it returns, a completed
store with the data it leaves in the line, and an eviction. -/
inductive Callback (n : ℕ) where
  | read (data : DataBlock n)
  | write (data : DataBlock n)
  | eviction
  deriving DecidableEq

/-- The access permissions of the states. -/
inductive AccessPermission where
  | Read_Only | Read_Write | Invalid | NotPresent | Busy
  deriving DecidableEq

/-- The permission declared with a state. -/
def State.toPermission : State → AccessPermission
  | .I => .Invalid
  | .S => .Read_Only
  | .M => .Read_Write
  | _ => .Busy

/-- What a transition works on: the two pointers of its block, the queue heads it may peek at, and
what its actions send. -/
structure Ctx (C D A : Type) (n : ℕ) where
  cacheEntry : Option (Entry n) := none
  tbe : Option (TBE n) := none
  mandatoryQueueIn : Option (RubyRequest A) := none
  forwardRequestNetworkIn : Option (RequestMsg C D A n) := none
  responseNetworkIn : Option (ResponseMsg C D A n) := none
  requestNetworkOut : List (RequestMsg C D A n) := []
  responseNetworkOut : List (ResponseMsg C D A n) := []
  callbacks : List (Callback n) := []

/-- What is fixed while a transition runs. -/
structure Env (C D A : Type) (n : ℕ) where
  /-- The cache that runs the transition. -/
  machineID : C
  /-- The block it is about. -/
  address : A
  /-- `map_Address_to_Directory(address)`. -/
  home : D
  /-- `cacheMemory.cacheAvail(address)`. -/
  cacheAvail : Bool
  /-- The parameter `send_evictions`. -/
  sendEvictions : Bool
  /-- The current time, stamped on every message. -/
  time : ℕ
  /-- What a store that completes in this transition leaves in the line. -/
  storeData : DataBlock n

/-- The state of a block: the transient entry comes first, then the line. -/
def getState {n : ℕ} (tbe : Option (TBE n)) (cacheEntry : Option (Entry n)) : State :=
  match tbe, cacheEntry with
  | some t, _ => t.tbeState
  | none, some e => e.cacheState
  | none, none => .I

/-- The permission of a block, looked up in the same order. -/
def getAccessPermission {n : ℕ} (tbe : Option (TBE n)) (cacheEntry : Option (Entry n)) :
    AccessPermission :=
  match tbe, cacheEntry with
  | some t, _ => t.tbeState.toPermission
  | none, some e => e.cacheState.toPermission
  | none, none => .NotPresent

/-- Write the next state into whichever of the two structures is there. -/
def setState {C D A : Type} {n : ℕ} (s : State) (x : Ctx C D A n) : Ctx C D A n :=
  { x with
    tbe := x.tbe.map fun t => { t with tbeState := s }
    cacheEntry := x.cacheEntry.map fun e => { e with cacheState := s } }

/-- The pointer or queue head a statement needs; its absence is a failed assertion. -/
def need {α : Type} : Option α → Except Fault α
  | some a => .ok a
  | none => .error .assertion

section Actions

variable {C D A : Type} {n : ℕ}

/-- A request to the home directory of the block. -/
def Env.request (env : Env C D A n) (type : CoherenceRequestType) (dataBlk : DataBlock n) :
    RequestMsg C D A n :=
  { address := env.address
    type := type
    requestor := .L1Cache env.machineID
    destination := {.Directory env.home}
    dataBlk := dataBlk
    time := env.time }

/-- A response to one machine. -/
def Env.response (env : Env C D A n) (type : CoherenceResponseType) (dest : MachineID C D)
    (dataBlk : DataBlock n) (ackCount : ℤ) : ResponseMsg C D A n :=
  { address := env.address
    type := type
    sender := .L1Cache env.machineID
    destination := {dest}
    dataBlk := dataBlk
    ackCount := ackCount }

/-- Enqueue a message on the request network. -/
def Ctx.sendRequest (x : Ctx C D A n) (m : RequestMsg C D A n) : Ctx C D A n :=
  { x with requestNetworkOut := x.requestNetworkOut ++ [m] }

/-- Enqueue a message on the response network. -/
def Ctx.sendResponse (x : Ctx C D A n) (m : ResponseMsg C D A n) : Ctx C D A n :=
  { x with responseNetworkOut := x.responseNetworkOut ++ [m] }

/-- Call the sequencer. -/
def Ctx.call (x : Ctx C D A n) (k : Callback n) : Ctx C D A n :=
  { x with callbacks := x.callbacks ++ [k] }

/-- The effect of one action. -/
def Action.exec (env : Env C D A n) (x : Ctx C D A n) : Action → Except Fault (Ctx C D A n)
  | .asIssueGetS => .ok (x.sendRequest (env.request .GETS default))
  | .amIssueGetM => .ok (x.sendRequest (env.request .GETM default))
  | .bsIssuePUTS => do
      let e ← need x.cacheEntry
      return x.sendRequest (env.request .PUTS e.dataBlk)
  | .bmIssuePUTM => do
      let e ← need x.cacheEntry
      return x.sendRequest (env.request .PUTM e.dataBlk)
  | .eSendDataFromCacheToRequestor => do
      let inMsg ← need x.forwardRequestNetworkIn
      let e ← need x.cacheEntry
      return x.sendResponse (env.response .DATA_FROM_OWNER inMsg.requestor e.dataBlk 0)
  | .eeSendDataFromTBEToRequestor => do
      let inMsg ← need x.forwardRequestNetworkIn
      let t ← need x.tbe
      return x.sendResponse (env.response .DATA_FROM_OWNER inMsg.requestor t.dataBlk 0)
  | .deSendDataFromCacheToDir => do
      let e ← need x.cacheEntry
      return x.sendResponse (env.response .DATA (.Directory env.home) e.dataBlk 0)
  | .deeSendDataFromTBEToDir => do
      let t ← need x.tbe
      return x.sendResponse (env.response .DATA (.Directory env.home) t.dataBlk 0)
  | .fiSendInvAck => do
      let inMsg ← need x.forwardRequestNetworkIn
      return x.sendResponse (env.response .ACK inMsg.requestor default 1)
  | .iAllocateL1CacheBlock =>
      match x.cacheEntry with
      | some _ =>
          if getAccessPermission x.tbe x.cacheEntry ≠ .Invalid then
            .error (.error
              "Should not get an allocate request for a block that has not Invalid permissions")
          else .ok x
      | none => if env.cacheAvail then .ok { x with cacheEntry := some {} } else .error .assertion
  | .hDeallocateL1CacheBlock => .ok { x with cacheEntry := none }
  | .mPopMandatoryQueue => do
      let _ ← need x.mandatoryQueueIn
      return { x with mandatoryQueueIn := none }
  | .nPopResponseQueue => do
      let _ ← need x.responseNetworkIn
      return { x with responseNetworkIn := none }
  | .oPopForwardedRequestQueue => do
      let _ ← need x.forwardRequestNetworkIn
      return { x with forwardRequestNetworkIn := none }
  | .pProfileMiss => do
      let _ ← need x.mandatoryQueueIn
      return x
  | .rLoadHit => do
      let e ← need x.cacheEntry
      return x.call (.read e.dataBlk)
  | .rxLoadHit => do
      let _ ← need x.responseNetworkIn
      let e ← need x.cacheEntry
      return x.call (.read e.dataBlk)
  | .sStoreHit => do
      let e ← need x.cacheEntry
      return { x with cacheEntry := some { e with dataBlk := env.storeData } }.call
        (.write env.storeData)
  | .sxStoreHit => do
      let _ ← need x.responseNetworkIn
      let e ← need x.cacheEntry
      return { x with cacheEntry := some { e with dataBlk := env.storeData } }.call
        (.write env.storeData)
  | .uWriteDataToCache => do
      let inMsg ← need x.responseNetworkIn
      let e ← need x.cacheEntry
      return { x with cacheEntry := some { e with dataBlk := inMsg.dataBlk } }
  | .qUpdateAckCount => do
      let inMsg ← need x.responseNetworkIn
      let t ← need x.tbe
      return { x with tbe := some { t with pendingAcks := t.pendingAcks - inMsg.ackCount } }
  | .forwardEvictionToCpu => .ok (if env.sendEvictions then x.call .eviction else x)
  | .vAllocateTBE =>
      match x.tbe with
      | some _ => .error .assertion
      | none => .ok { x with tbe := some {} }
  | .wDeallocateTBE => do
      let _ ← need x.tbe
      return { x with tbe := none }
  | .xCopyDataFromCacheToTBE => do
      let e ← need x.cacheEntry
      let t ← need x.tbe
      return { x with tbe := some { t with dataBlk := e.dataBlk } }
  | .zStall => .ok x

end Actions

/-- The transition table: the actions of a declared transition and its next state. -/
def transition : State → Event → Option (List Action × State)
  -- from I
  | .I, .Load | .I, .Ifetch =>
      some ([.iAllocateL1CacheBlock, .vAllocateTBE, .pProfileMiss, .asIssueGetS,
        .mPopMandatoryQueue], .IS_D)
  | .I, .Store =>
      some ([.iAllocateL1CacheBlock, .vAllocateTBE, .pProfileMiss, .amIssueGetM,
        .mPopMandatoryQueue], .IM_AD)
  | .I, .Inv => some ([.fiSendInvAck, .oPopForwardedRequestQueue], .I)
  -- from IS_D
  | .IS_D, .Load | .IS_D, .Ifetch | .IS_D, .Store | .IS_D, .Replacement | .IS_D, .Inv =>
      some ([.zStall], .IS_D)
  | .IS_D, .Data_from_Dir_No_Acks | .IS_D, .Data_from_Owner =>
      some ([.uWriteDataToCache, .rxLoadHit, .wDeallocateTBE, .nPopResponseQueue], .S)
  -- from IM_AD
  | .IM_AD, .Load | .IM_AD, .Ifetch | .IM_AD, .Store | .IM_AD, .Replacement
  | .IM_AD, .Fwd_GetS | .IM_AD, .Fwd_GetM => some ([.zStall], .IM_AD)
  | .IM_AD, .Data_from_Dir_No_Acks | .IM_AD, .Data_from_Owner =>
      some ([.uWriteDataToCache, .sxStoreHit, .wDeallocateTBE, .nPopResponseQueue], .M)
  | .IM_AD, .Data_from_Dir_Ack_Cnt =>
      some ([.uWriteDataToCache, .qUpdateAckCount, .nPopResponseQueue], .IM_A)
  | .IM_AD, .Data_from_Dir_Ack_Cnt_Last =>
      some ([.uWriteDataToCache, .qUpdateAckCount, .sxStoreHit, .wDeallocateTBE,
        .nPopResponseQueue], .M)
  | .IM_AD, .Inv_Ack => some ([.qUpdateAckCount, .nPopResponseQueue], .IM_AD)
  -- from IM_A
  | .IM_A, .Load | .IM_A, .Ifetch | .IM_A, .Store | .IM_A, .Replacement
  | .IM_A, .Fwd_GetS | .IM_A, .Fwd_GetM => some ([.zStall], .IM_A)
  | .IM_A, .Inv_Ack => some ([.qUpdateAckCount, .nPopResponseQueue], .IM_A)
  | .IM_A, .Inv_Ack_all =>
      some ([.qUpdateAckCount, .sxStoreHit, .wDeallocateTBE, .nPopResponseQueue], .M)
  -- from S
  | .S, .Load | .S, .Ifetch => some ([.rLoadHit, .mPopMandatoryQueue], .S)
  | .S, .Store =>
      some ([.vAllocateTBE, .pProfileMiss, .amIssueGetM, .xCopyDataFromCacheToTBE,
        .mPopMandatoryQueue], .SM_AD)
  | .S, .Replacement => some ([.vAllocateTBE, .bsIssuePUTS, .xCopyDataFromCacheToTBE], .SI_A)
  | .S, .Inv =>
      some ([.forwardEvictionToCpu, .fiSendInvAck, .hDeallocateL1CacheBlock,
        .oPopForwardedRequestQueue], .I)
  -- from SM_AD
  | .SM_AD, .Load | .SM_AD, .Ifetch => some ([.rLoadHit, .mPopMandatoryQueue], .SM_AD)
  | .SM_AD, .Store | .SM_AD, .Replacement | .SM_AD, .Fwd_GetS | .SM_AD, .Fwd_GetM =>
      some ([.zStall], .SM_AD)
  | .SM_AD, .Inv => some ([.fiSendInvAck, .oPopForwardedRequestQueue], .IM_AD)
  | .SM_AD, .Data_from_Dir_No_Acks | .SM_AD, .Data_from_Owner =>
      some ([.uWriteDataToCache, .sxStoreHit, .wDeallocateTBE, .nPopResponseQueue], .M)
  | .SM_AD, .Data_from_Dir_Ack_Cnt =>
      some ([.uWriteDataToCache, .qUpdateAckCount, .nPopResponseQueue], .SM_A)
  | .SM_AD, .Data_from_Dir_Ack_Cnt_Last =>
      some ([.qUpdateAckCount, .uWriteDataToCache, .wDeallocateTBE, .sxStoreHit,
        .nPopResponseQueue], .M)
  | .SM_AD, .Inv_Ack => some ([.qUpdateAckCount, .nPopResponseQueue], .SM_AD)
  -- from SM_A
  | .SM_A, .Load | .SM_A, .Ifetch => some ([.rLoadHit, .mPopMandatoryQueue], .SM_A)
  | .SM_A, .Store | .SM_A, .Replacement | .SM_A, .Fwd_GetS | .SM_A, .Fwd_GetM =>
      some ([.zStall], .SM_A)
  | .SM_A, .Inv_Ack => some ([.qUpdateAckCount, .nPopResponseQueue], .SM_A)
  | .SM_A, .Inv_Ack_all =>
      some ([.qUpdateAckCount, .sxStoreHit, .wDeallocateTBE, .nPopResponseQueue], .M)
  -- from M
  | .M, .Load | .M, .Ifetch => some ([.rLoadHit, .mPopMandatoryQueue], .M)
  | .M, .Store => some ([.sStoreHit, .mPopMandatoryQueue], .M)
  | .M, .Replacement => some ([.vAllocateTBE, .bmIssuePUTM, .xCopyDataFromCacheToTBE], .MI_A)
  | .M, .Fwd_GetS =>
      some ([.eSendDataFromCacheToRequestor, .deSendDataFromCacheToDir,
        .oPopForwardedRequestQueue], .S)
  | .M, .Fwd_GetM =>
      some ([.eSendDataFromCacheToRequestor, .forwardEvictionToCpu, .hDeallocateL1CacheBlock,
        .oPopForwardedRequestQueue], .I)
  -- from MI_A
  | .MI_A, .Load | .MI_A, .Ifetch | .MI_A, .Store | .MI_A, .Replacement =>
      some ([.zStall], .MI_A)
  | .MI_A, .Fwd_GetS =>
      some ([.eeSendDataFromTBEToRequestor, .deeSendDataFromTBEToDir,
        .oPopForwardedRequestQueue], .SI_A)
  | .MI_A, .Fwd_GetM =>
      some ([.eeSendDataFromTBEToRequestor, .oPopForwardedRequestQueue], .II_A)
  | .MI_A, .WB_Ack =>
      some ([.forwardEvictionToCpu, .hDeallocateL1CacheBlock, .wDeallocateTBE,
        .oPopForwardedRequestQueue], .I)
  -- from SI_A
  | .SI_A, .Load | .SI_A, .Ifetch | .SI_A, .Store | .SI_A, .Replacement =>
      some ([.zStall], .SI_A)
  | .SI_A, .Inv => some ([.fiSendInvAck, .oPopForwardedRequestQueue], .II_A)
  | .SI_A, .WB_Ack =>
      some ([.forwardEvictionToCpu, .hDeallocateL1CacheBlock, .wDeallocateTBE,
        .oPopForwardedRequestQueue], .I)
  -- from II_A
  | .II_A, .Load | .II_A, .Ifetch | .II_A, .Store | .II_A, .Replacement =>
      some ([.zStall], .II_A)
  | .II_A, .WB_Ack =>
      some ([.forwardEvictionToCpu, .hDeallocateL1CacheBlock, .wDeallocateTBE,
        .oPopForwardedRequestQueue], .I)
  | _, _ => none

section Ports

variable {C D A : Type} {n : ℕ}

/-- One transition: look the pair of state and event up, stall or run the actions in order, and
write the next state. -/
def doTransition (env : Env C D A n) (event : Event) (x : Ctx C D A n) : Outcome (Ctx C D A n) :=
  match transition (getState x.tbe x.cacheEntry) event with
  | none => .fault .invalidTransition
  | some (actions, next) =>
      if .zStall ∈ actions then .stall
      else
        match actions.foldlM (Action.exec env) x with
        | .error f => .fault f
        | .ok x' => .valid (setState next x')

/-- The event of a processor request. -/
def mandatoryRequestTypeToEvent : RubyRequestType → Except Fault Event
  | .LD => .ok .Load
  | .IFETCH => .ok .Ifetch
  | .ST => .ok .Store
  | .ATOMIC => .ok .Store
  | _ => .error (.error "Invalid RubyRequestType")

/-- The event of a message on the forward network. -/
def forwardEvent (m : RequestMsg C D A n) : Except Fault Event :=
  match m.type with
  | .GETM => .ok .Fwd_GetM
  | .GETS => .ok .Fwd_GetS
  | .INV => .ok .Inv
  | .WB_ACK => .ok .WB_Ack
  | _ => .error (.error "MSI_example L1 - Unexpected message in forwardToCache buffer")

/-- The event of a message on the response network.  `getPendingAcks` dereferences the transient
entry, so its absence is a fault where the count is needed. -/
def responseEvent (tbe : Option (TBE n)) (m : ResponseMsg C D A n) : Except Fault Event :=
  match m.type with
  | .DATA_FROM_DIR =>
      if m.ackCount = 0 then .ok .Data_from_Dir_No_Acks
      else do
        let t ← need tbe
        return if t.pendingAcks - m.ackCount = 0 then .Data_from_Dir_Ack_Cnt_Last
          else .Data_from_Dir_Ack_Cnt
  | .DATA_FROM_OWNER => .ok .Data_from_Owner
  | .ACK => do
      let t ← need tbe
      return if t.pendingAcks - m.ackCount = 0 then .Inv_Ack_all else .Inv_Ack
  | _ => .error (.error "MSI_example L1 - Unexpected message in reponseToCache buffer")

/-- Trigger an event that an in port has determined. -/
def trigger (env : Env C D A n) (x : Ctx C D A n) : Except Fault Event → Outcome (Ctx C D A n)
  | .error f => .fault f
  | .ok ev => doTransition env ev x

/-- The in port of the forward network. -/
def forwardRequestNetworkIn (env : Env C D A n) (cacheEntry : Option (Entry n))
    (tbe : Option (TBE n)) (m : RequestMsg C D A n) : Outcome (Ctx C D A n) :=
  trigger env { cacheEntry := cacheEntry, tbe := tbe, forwardRequestNetworkIn := some m }
    (forwardEvent m)

/-- The in port of the response network. -/
def responseNetworkIn (env : Env C D A n) (cacheEntry : Option (Entry n)) (tbe : Option (TBE n))
    (m : ResponseMsg C D A n) : Outcome (Ctx C D A n) :=
  trigger env { cacheEntry := cacheEntry, tbe := tbe, responseNetworkIn := some m }
    (responseEvent tbe m)

/-- The in port of the mandatory queue, for a request that needs no replacement. -/
def mandatoryQueueIn (env : Env C D A n) (cacheEntry : Option (Entry n)) (tbe : Option (TBE n))
    (m : RubyRequest A) : Outcome (Ctx C D A n) :=
  trigger env { cacheEntry := cacheEntry, tbe := tbe, mandatoryQueueIn := some m }
    (mandatoryRequestTypeToEvent m.type)

/-- The in port of the mandatory queue, for a request that has to make room first: the event is
`Replacement`, and the block is the victim. -/
def mandatoryQueueInReplacement (env : Env C D A n) (cacheEntry : Option (Entry n))
    (tbe : Option (TBE n)) (m : RubyRequest A) : Outcome (Ctx C D A n) :=
  trigger env { cacheEntry := cacheEntry, tbe := tbe, mandatoryQueueIn := some m }
    (.ok .Replacement)

end Ports

end Msi.L1Cache
