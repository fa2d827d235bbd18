/-
**The life of a block in one cache: phases of a coherence transaction.**

The eleven states of the cache controller say too little about where a transaction stands: in `IS_D`
the request may still be on its way, or waiting at the directory's memory controller, or forwarded
to an owner, or the data may be in flight, with or without an invalidation behind it.  A *phase* is
a state together with exactly this information for one cache and one block.  It is an abstract view:
nothing in the source stores it, and `ArchLab/MsiRefine.lean` proves that the messages in flight
around a cache are always those its phase describes.

Only the combinations that occur are representable, so that a proof that knows the phase of a cache
knows all that is in flight for it.

Main definitions:

* `Msi.Src` — where the data that a cache waits for is;
* `Msi.Phase` — the phases;
* `Msi.Phase.st`, `inv`, `own`, `src`, `role`, `tok`, … — what can be read off a phase:
  the state, the forwarded requests in the queue of the cache, the source of its data, its role in
  the directory, and whether it holds the *token* of the block, the right to hand out its data.
-/

import ArchLab.MsiDirectory

set_option relaxedAutoImplicit false
set_option autoImplicit false

namespace Msi

/-- The two requests that a directory forwards to an owner. -/
inductive Kind where
  | GETS | GETM
  deriving DecidableEq

/-- The two writeback requests. -/
inductive Put where
  | PUTS | PUTM
  deriving DecidableEq

/-- An invalidation in the queue of a cache: the cache that collects the acknowledgement, and when
the directory sent it. -/
abbrev PendingInv (C : Type) : Type := Option (C × ℕ)

/-- A forwarded request in the queue of an owner: its kind, the cache that waits for the data, and
when the directory sent it. -/
abbrev PendingFwd (C : Type) : Type := Option (Kind × C × ℕ)

/-- Where the data is that a cache waits for: being fetched from memory, in a message of the
directory that announces `n` acknowledgements, in a message of the former owner `o`, or still to be
sent by `o`, whose queue holds the forwarded request. -/
inductive Src (C V : Type) where
  | mem
  | dir (d : V) (n : ℕ)
  | owner (o : C) (d : V)
  | fwd (o : C)

/-- The data of a message in flight. -/
@[simp, grind] def Src.data? {C V : Type} : Src C V → Option V
  | .dir d _ => some d
  | .owner _ d => some d
  | .mem => none
  | .fwd _ => none

/-- The phases of a block in a cache. -/
inductive Phase (C V : Type) where
  /-- `I`. -/
  | idle
  /-- `S`. -/
  | shared (i : PendingInv C)
  /-- `M`. -/
  | modified (o : PendingFwd C)
  /-- `IS_D`, the `GETS` is on its way. -/
  | loadSent
  /-- `IS_D`, the `GETS` has been accepted. -/
  | loadWait (w : Src C V) (i : PendingInv C)
  /-- `IM_AD`, the `GETM` is on its way. -/
  | storeSent
  /-- `SM_AD`, the `GETM` is on its way. -/
  | upgradeSent (i : PendingInv C)
  /-- `IM_AD`, the `GETM` has been accepted. -/
  | storeWait (w : Src C V) (o : PendingFwd C)
  /-- `SM_AD`, the directory has sent the data. -/
  | upgradeData (d : V) (n : ℕ) (o : PendingFwd C)
  /-- `SM_AD`, the request was forwarded to `f`; an invalidation is in the queue. -/
  | upgradeFwd (f : C) (i : C × ℕ) (o : PendingFwd C)
  /-- `IM_A`. -/
  | storeAcks (o : PendingFwd C)
  /-- `SM_A`. -/
  | upgradeAcks (o : PendingFwd C)
  /-- `MI_A`, the `PUTM` is on its way. -/
  | evictM (o : PendingFwd C)
  /-- `MI_A`, the directory is writing the data back. -/
  | evictMem
  /-- `MI_A`, the `WB_ACK` is on its way. -/
  | evictAcked (o : PendingFwd C)
  /-- `SI_A`, the writeback request is on its way. -/
  | evictS (k : Put) (i : PendingInv C)
  /-- `SI_A`, the `WB_ACK` is on its way. -/
  | evictSAcked (i : PendingInv C)
  /-- `II_A`, the writeback request is on its way. -/
  | evictI (k : Put)
  /-- `II_A`, the `WB_ACK` is on its way. -/
  | evictIAcked

namespace Phase

variable {C V : Type}

/-- The state of the cache controller. -/
@[simp, grind] def st : Phase C V → L1Cache.State
  | idle => .I
  | shared _ => .S
  | modified _ => .M
  | loadSent => .IS_D
  | loadWait _ _ => .IS_D
  | storeSent => .IM_AD
  | upgradeSent _ => .SM_AD
  | storeWait _ _ => .IM_AD
  | upgradeData _ _ _ => .SM_AD
  | upgradeFwd _ _ _ => .SM_AD
  | storeAcks _ => .IM_A
  | upgradeAcks _ => .SM_A
  | evictM _ => .MI_A
  | evictMem => .MI_A
  | evictAcked _ => .MI_A
  | evictS _ _ => .SI_A
  | evictSAcked _ => .SI_A
  | evictI _ => .II_A
  | evictIAcked => .II_A

/-- The invalidation in the queue. -/
@[simp, grind] def inv : Phase C V → PendingInv C
  | shared i => i
  | loadWait _ i => i
  | upgradeSent i => i
  | upgradeFwd _ i _ => some i
  | evictS _ i => i
  | evictSAcked i => i
  | idle | modified _ | loadSent | storeSent | storeWait _ _ | upgradeData _ _ _ | storeAcks _
  | upgradeAcks _ | evictM _ | evictMem | evictAcked _ | evictI _ | evictIAcked => none

/-- The forwarded request in the queue. -/
@[simp, grind] def own : Phase C V → PendingFwd C
  | modified o => o
  | storeWait _ o => o
  | upgradeData _ _ o => o
  | upgradeFwd _ _ o => o
  | storeAcks o => o
  | upgradeAcks o => o
  | evictM o => o
  | evictAcked o => o
  | idle | shared _ | loadSent | loadWait _ _ | storeSent | upgradeSent _ | evictMem | evictS _ _
  | evictSAcked _ | evictI _ | evictIAcked => none

/-- The source of the data the cache waits for. -/
@[simp, grind] def src : Phase C V → Option (Src C V)
  | loadWait w _ => some w
  | storeWait w _ => some w
  | upgradeData d n _ => some (.dir d n)
  | upgradeFwd f _ _ => some (.fwd f)
  | idle | shared _ | modified _ | loadSent | storeSent | upgradeSent _ | storeAcks _
  | upgradeAcks _ | evictM _ | evictMem | evictAcked _ | evictS _ _ | evictSAcked _ | evictI _
  | evictIAcked => none

/-- The owner whose queue holds the request of the cache. -/
@[simp, grind] def fwd : Phase C V → Option C
  | loadWait (.fwd f) _ => some f
  | storeWait (.fwd f) _ => some f
  | upgradeFwd f _ _ => some f
  | loadWait .mem _ | loadWait (.dir _ _) _ | loadWait (.owner _ _) _ | storeWait .mem _
  | storeWait (.dir _ _) _ | storeWait (.owner _ _) _ | idle | shared _ | modified _ | loadSent
  | storeSent | upgradeSent _ | upgradeData _ _ _ | storeAcks _ | upgradeAcks _ | evictM _
  | evictMem | evictAcked _ | evictS _ _ | evictSAcked _ | evictI _ | evictIAcked => none

/-- Whether the cache waits for the memory controller. -/
@[simp, grind] def fetching : Phase C V → Bool
  | loadWait .mem _ => true
  | storeWait .mem _ => true
  | loadWait (.fwd _) _ | loadWait (.dir _ _) _ | loadWait (.owner _ _) _ | storeWait (.fwd _) _
  | storeWait (.dir _ _) _ | storeWait (.owner _ _) _ | idle | shared _ | modified _ | loadSent
  | storeSent | upgradeSent _ | upgradeData _ _ _ | upgradeFwd _ _ _ | storeAcks _
  | upgradeAcks _ | evictM _ | evictMem | evictAcked _ | evictS _ _ | evictSAcked _ | evictI _
  | evictIAcked => false

/-- Whether the memory controller is writing the data of the cache back. -/
@[simp, grind] def writing : Phase C V → Bool
  | evictMem => true
  | idle | shared _ | modified _ | loadSent | loadWait _ _ | storeSent | upgradeSent _
  | storeWait _ _ | upgradeData _ _ _ | upgradeFwd _ _ _ | storeAcks _ | upgradeAcks _ | evictM _
  | evictAcked _ | evictS _ _ | evictSAcked _ | evictI _ | evictIAcked => false

/-- The role of a cache the directory has made owner: it stays the owner until a request is
forwarded to it, and becomes a sharer if that request was a `GETS`. -/
@[simp, grind] def fwdRole : PendingFwd C → Bool × Bool
  | none => (false, true)
  | some (.GETS, _, _) => (true, false)
  | some (.GETM, _, _) => (false, false)

/-- The role of a cache in the directory entry: whether it is listed as a sharer, and whether as the
owner. -/
@[simp, grind] def role : Phase C V → Bool × Bool
  | shared i => (i.isNone, false)
  | loadWait _ i => (i.isNone, false)
  | upgradeSent i => (i.isNone, false)
  | evictS _ i => (i.isNone, false)
  | modified o => fwdRole o
  | storeWait _ o => fwdRole o
  | upgradeData _ _ o => fwdRole o
  | upgradeFwd _ _ o => fwdRole o
  | storeAcks o => fwdRole o
  | upgradeAcks o => fwdRole o
  | evictM o => fwdRole o
  | evictMem => (false, true)
  | idle | loadSent | storeSent | evictAcked _ | evictSAcked _ | evictI _ | evictIAcked =>
      (false, false)

/-- Whether the cache holds the token of the block: it has exclusive data, or exclusive data is in
flight to it. -/
@[simp, grind] def tok : Phase C V → Bool
  | storeWait w _ => w.data?.isSome
  | evictAcked o => o.isSome
  | modified _ | upgradeData _ _ _ | storeAcks _ | upgradeAcks _ | evictM _ => true
  | idle | shared _ | loadSent | loadWait _ _ | storeSent | upgradeSent _ | upgradeFwd _ _ _
  | evictMem | evictS _ _ | evictSAcked _ | evictI _ | evictIAcked => false

/-- Whether the cache waits for the data of a load. -/
@[simp, grind] def loading : Phase C V → Bool
  | loadWait _ _ => true
  | idle | shared _ | modified _ | loadSent | storeSent | upgradeSent _ | storeWait _ _
  | upgradeData _ _ _ | upgradeFwd _ _ _ | storeAcks _ | upgradeAcks _ | evictM _ | evictMem
  | evictAcked _ | evictS _ _ | evictSAcked _ | evictI _ | evictIAcked => false

/-- Whether the line holds the current value. -/
@[simp, grind] def copy : Phase C V → Bool
  | shared _ | modified _ | upgradeSent _ | upgradeData _ _ _ | upgradeFwd _ _ _ | storeAcks _
  | upgradeAcks _ => true
  | idle | loadSent | loadWait _ _ | storeSent | storeWait _ _ | evictM _ | evictMem
  | evictAcked _ | evictS _ _ | evictSAcked _ | evictI _ | evictIAcked => false

/-- Whether the transient entry holds the current value. -/
@[simp, grind] def tbeCopy : Phase C V → Bool
  | evictM _ => true
  | evictAcked o => o.isSome
  | idle | shared _ | modified _ | loadSent | loadWait _ _ | storeSent | upgradeSent _
  | storeWait _ _ | upgradeData _ _ _ | upgradeFwd _ _ _ | storeAcks _ | upgradeAcks _ | evictMem
  | evictS _ _ | evictSAcked _ | evictI _ | evictIAcked => false

/-- The data in flight to the cache. -/
@[simp, grind] def incoming : Phase C V → Option V
  | loadWait w _ => w.data?
  | storeWait w _ => w.data?
  | upgradeData d _ _ => some d
  | idle | shared _ | modified _ | loadSent | storeSent | upgradeSent _ | upgradeFwd _ _ _
  | storeAcks _ | upgradeAcks _ | evictM _ | evictMem | evictAcked _ | evictS _ _
  | evictSAcked _ | evictI _ | evictIAcked => none

/-- The number of acknowledgements that a cache waits for, if it is collecting them: those in its
counter `k` once the data has come, and before that those announced less those counted down. -/
@[simp, grind] def pending (k : ℤ) : Phase C V → Option ℤ
  | storeWait (.dir _ n) _ => some (k + n)
  | upgradeData _ n _ => some (k + n)
  | storeAcks _ => some k
  | upgradeAcks _ => some k
  | storeWait .mem _ | storeWait (.fwd _) _ | storeWait (.owner _ _) _ | idle | shared _
  | modified _ | loadSent | loadWait _ _ | storeSent | upgradeSent _ | upgradeFwd _ _ _
  | evictM _ | evictMem | evictAcked _ | evictS _ _ | evictSAcked _ | evictI _ | evictIAcked =>
      none

/-- The writeback request on its way to the directory. -/
@[simp, grind] def put : Phase C V → Option Put
  | evictM _ => some .PUTM
  | evictS k _ => some k
  | evictI k => some k
  | idle | shared _ | modified _ | loadSent | loadWait _ _ | storeSent | upgradeSent _
  | storeWait _ _ | upgradeData _ _ _ | upgradeFwd _ _ _ | storeAcks _ | upgradeAcks _ | evictMem
  | evictAcked _ | evictSAcked _ | evictIAcked => none

/-- The phase of a cache whose writeback request has been answered. -/
@[simp] def putAcked : Phase C V → Phase C V
  | evictM o => evictAcked o
  | evictS _ i => evictSAcked i
  | evictI _ => evictIAcked
  | p => p

/-- Replace the forwarded request of a cache that can have one. -/
@[simp] def setOwn (o : PendingFwd C) : Phase C V → Phase C V
  | modified _ => modified o
  | storeWait w _ => storeWait w o
  | upgradeData d n _ => upgradeData d n o
  | upgradeFwd f i _ => upgradeFwd f i o
  | storeAcks _ => storeAcks o
  | upgradeAcks _ => upgradeAcks o
  | evictM _ => evictM o
  | p => p

/-- Replace the invalidation of a cache that can have one. -/
@[simp] def setInv (i : PendingInv C) : Phase C V → Phase C V
  | shared _ => shared i
  | loadWait w _ => loadWait w i
  | upgradeSent _ => upgradeSent i
  | evictS k _ => evictS k i
  | p => p

end Phase

end Msi
