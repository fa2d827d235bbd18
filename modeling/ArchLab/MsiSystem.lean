/-
**The MSI system: caches, directories and the three networks.**

The state of the whole system and the moves it can make.  A move is a choice of the environment or
of the scheduler: the processor of a cache issues a request, the network hands over a message, the
memory controller answers a request, or a controller processes the head of one of its queues.
`Msi.System.exec` is the effect of a move; where the head of a queue is processed, it is the outcome
of the in port of `ArchLab/MsiL1Cache.lean` or `ArchLab/MsiDirectory.lean`.

Between the sender of a message and the queue of its receiver there is one channel for each pair of
machines and each virtual network.  A channel is a FIFO; messages of different channels reach a
queue in any order.  A multicast puts one copy into the channel of each destination.  A stall leaves
the head of a queue where it is, so that it blocks everything behind it, whatever block that is
about.

Main definitions:

* `Msi.Cache`, `Msi.Dir`, `Msi.System` — the state of a cache controller, of a directory controller
  with its memory controller, and of the system;
* `Msi.Move`, `Msi.System.exec` — the moves and their effect;
* `Msi.Report` — what a cache transition has done, for the properties that speak about loads, stores
  and evictions;
* `Msi.Step`, `Msi.System.init` — the transition system, and `Msi.Carried`, the cases of a step;
* `Msi.trace`, `Msi.ghost` — what the sequencers are told about a block along a run, and its value
  according to the stores among that.
-/

import ArchLab.Lts
import ArchLab.MsiDirectory

set_option relaxedAutoImplicit false
set_option autoImplicit false

namespace Msi

/-- A cache controller with its incoming queues. -/
structure Cache (C D A : Type) (n : ℕ) (cfg : Config D A) where
  cacheMemory : CacheMemory A (L1Cache.Entry n) cfg.addressToCacheSet cfg.assoc
  tbes : A → Option (L1Cache.TBE n)
  mandatoryQueue : List (RubyRequest A)
  forwardToCache : List (RequestMsg C D A n)
  responseToCache : List (ResponseMsg C D A n)

/-- A directory controller with its incoming queues, and the two queues of its memory controller:
the requests it has accepted and those it has answered. -/
structure Dir (C D A : Type) (n : ℕ) where
  directory : A → Directory.Entry C D n
  tbes : A → Option (Directory.TBE n)
  requestToDir : List (RequestMsg C D A n)
  responseToDir : List (ResponseMsg C D A n)
  memInput : List (MemoryMsg C D A n)
  memResponse : List (MemoryMsg C D A n)

/-- The state of the system. -/
structure System (C D A : Type) (n : ℕ) (cfg : Config D A) where
  l1 : C → Cache C D A n cfg
  dir : D → Dir C D A n
  /-- Virtual network 2, from caches to directories. -/
  requestNet : C → D → List (RequestMsg C D A n)
  /-- Virtual network 3, from directories to caches. -/
  forwardNet : D → C → List (RequestMsg C D A n)
  /-- Virtual network 4, between any two machines. -/
  responseNet : MachineID C D → MachineID C D → List (ResponseMsg C D A n)
  /-- The number of moves made so far. -/
  time : ℕ

/-- The choices of processors, networks, memory and scheduler. -/
inductive Move (C D A : Type) (n : ℕ) (cfg : Config D A) where
  /-- The processor puts a request into the mandatory queue. -/
  | issue (c : C) (r : RubyRequest A)
  /-- A cache looks at its mandatory queue.  `victim` is the way the replacement policy names if
  the set is full, `storeData` what a store leaves in the line. -/
  | mandatory (c : C) (victim : Fin cfg.assoc) (storeData : DataBlock n)
  /-- A cache looks at its forward queue. -/
  | forward (c : C)
  /-- A cache looks at its response queue. -/
  | response (c : C) (storeData : DataBlock n)
  /-- A directory looks at its request queue. -/
  | request (d : D)
  /-- A directory looks at its response queue. -/
  | dirResponse (d : D)
  /-- A directory looks at the answers of its memory controller. -/
  | memory (d : D)
  /-- The memory controller answers the `i`-th of the requests it holds. -/
  | memAnswer (d : D) (i : ℕ)
  /-- The request network hands a message over. -/
  | deliverRequest (c : C) (d : D)
  /-- The forward network hands a message over. -/
  | deliverForward (d : D) (c : C)
  /-- The response network hands a message over. -/
  | deliverResponse (src dst : MachineID C D)

/-- What a transition of a cache has done: the cache, the block, the forwarded request that
triggered it (if one did), the state it started from, and all it sent. -/
structure Report (C D A : Type) (n : ℕ) where
  cache : C
  address : A
  trigger : Option (RequestMsg C D A n)
  state : L1Cache.State
  result : L1Cache.Ctx C D A n

namespace System

variable {C D A : Type} [DecidableEq C] [DecidableEq D] [DecidableEq A] {n : ℕ} {cfg : Config D A}

/-- All caches and directories in `I`, memory as given, nothing in flight. -/
def init (cfg : Config D A) (mem : A → DataBlock n) : System C D A n cfg where
  l1 _ :=
    { cacheMemory := CacheMemory.empty
      tbes := fun _ => none
      mandatoryQueue := []
      forwardToCache := []
      responseToCache := [] }
  dir _ :=
    { directory := fun a => { dataBlk := mem a }
      tbes := fun _ => none
      requestToDir := []
      responseToDir := []
      memInput := []
      memResponse := [] }
  requestNet _ _ := []
  forwardNet _ _ := []
  responseNet _ _ := []
  time := 0

/-- The line of a block in a cache. -/
def entry (s : System C D A n cfg) (c : C) (a : A) : Option (L1Cache.Entry n) :=
  (s.l1 c).cacheMemory.lookup a

/-- The state of a block in a cache. -/
def state (s : System C D A n cfg) (c : C) (a : A) : L1Cache.State :=
  L1Cache.getState ((s.l1 c).tbes a) (s.entry c a)

/-- The directory entry of a block, at its home. -/
def dirEntry (s : System C D A n cfg) (a : A) : Directory.Entry C D n :=
  (s.dir (cfg.mapAddressToDirectory a)).directory a

/-- The transient entry of a block, at its home. -/
def dirTbe (s : System C D A n cfg) (a : A) : Option (Directory.TBE n) :=
  (s.dir (cfg.mapAddressToDirectory a)).tbes a

/-- The state of a block in its home directory. -/
def dirState (s : System C D A n cfg) (a : A) : Directory.State :=
  Directory.getState (s.dirTbe a) (s.dirEntry a)

/-- The environment in which a transition of cache `c` on block `a` runs. -/
def l1Env (s : System C D A n cfg) (c : C) (a : A) (storeData : DataBlock n) :
    L1Cache.Env C D A n where
  machineID := c
  address := a
  home := cfg.mapAddressToDirectory a
  cacheAvail := (s.l1 c).cacheMemory.cacheAvail a
  sendEvictions := cfg.sendEvictions
  time := s.time
  storeData := storeData

/-- The environment in which a transition of directory `d` on block `a` runs. -/
def dirEnv (s : System C D A n cfg) (d : D) (a : A) : Directory.Env D A where
  machineID := d
  address := a
  time := s.time

/-- Carry a transition of cache `c` on block `a` over to the system: the line and the transient
entry, the queues as the in port leaves them, and the messages sent. -/
def l1Finish (s : System C D A n cfg) (c : C) (a : A) (x : L1Cache.Ctx C D A n)
    (queues : Cache C D A n cfg → Cache C D A n cfg) : System C D A n cfg :=
  { s with
    l1 := Function.update s.l1 c (queues
      { s.l1 c with
        cacheMemory := (s.l1 c).cacheMemory.assign a x.cacheEntry
        tbes := Function.update (s.l1 c).tbes a x.tbe })
    requestNet := Function.update s.requestNet c fun d =>
      s.requestNet c d ++ x.requestNetworkOut.filter fun m => .Directory d ∈ m.destination
    responseNet := Function.update s.responseNet (.L1Cache c) fun dst =>
      s.responseNet (.L1Cache c) dst ++ x.responseNetworkOut.filter fun m => dst ∈ m.destination
    time := s.time + 1 }

/-- Carry a transition of directory `d` on block `a` over to the system. -/
def dirFinish (s : System C D A n cfg) (d : D) (a : A) (x : Directory.Ctx C D A n)
    (queues : Dir C D A n → Dir C D A n) : System C D A n cfg :=
  { s with
    dir := Function.update s.dir d (queues
      { s.dir d with
        directory := Function.update (s.dir d).directory a x.entry
        tbes := Function.update (s.dir d).tbes a x.tbe
        memInput := (s.dir d).memInput ++ x.memQueueOut })
    forwardNet := Function.update s.forwardNet d fun c =>
      s.forwardNet d c ++ x.forwardNetworkOut.filter fun m => .L1Cache c ∈ m.destination
    responseNet := Function.update s.responseNet (.Directory d) fun dst =>
      s.responseNet (.Directory d) dst ++ x.responseNetworkOut.filter fun m => dst ∈ m.destination
    time := s.time + 1 }

/-- A queue after a transition that was shown its head: shorter if the transition dequeued it. -/
def popped {α : Type} (head : Option α) (q : List α) : List α := if head.isNone then q.tail else q

/-- The effect of a move. -/
def exec (s : System C D A n cfg) :
    Move C D A n cfg → Outcome (System C D A n cfg × Option (Report C D A n))
  | .issue c r =>
      .valid ({ s with
        l1 := Function.update s.l1 c
          { s.l1 c with mandatoryQueue := (s.l1 c).mandatoryQueue ++ [r] }
        time := s.time + 1 }, none)
  | .mandatory c victim storeData =>
      match (s.l1 c).mandatoryQueue with
      | [] => .idle
      | r :: _ =>
          if s.entry c r.lineAddress = none ∧
              (s.l1 c).cacheMemory.cacheAvail r.lineAddress = false then
            match (s.l1 c).cacheMemory.cacheProbe r.lineAddress victim with
            | none => .fault .assertion
            | some a =>
                (L1Cache.mandatoryQueueInReplacement (s.l1Env c a storeData) (s.entry c a)
                  ((s.l1 c).tbes a) r).map fun x =>
                    (s.l1Finish c a x fun k =>
                      { k with mandatoryQueue := popped x.mandatoryQueueIn k.mandatoryQueue },
                    some ⟨c, a, none, s.state c a, x⟩)
          else
            let a := r.lineAddress
            (L1Cache.mandatoryQueueIn (s.l1Env c a storeData) (s.entry c a)
              ((s.l1 c).tbes a) r).map fun x =>
                (s.l1Finish c a x fun k =>
                  { k with mandatoryQueue := popped x.mandatoryQueueIn k.mandatoryQueue },
                some ⟨c, a, none, s.state c a, x⟩)
  | .forward c =>
      match (s.l1 c).forwardToCache with
      | [] => .idle
      | m :: _ =>
          (L1Cache.forwardRequestNetworkIn (s.l1Env c m.address default) (s.entry c m.address)
            ((s.l1 c).tbes m.address) m).map fun x =>
              (s.l1Finish c m.address x fun k =>
                { k with forwardToCache := popped x.forwardRequestNetworkIn k.forwardToCache },
              some ⟨c, m.address, some m, s.state c m.address, x⟩)
  | .response c storeData =>
      match (s.l1 c).responseToCache with
      | [] => .idle
      | m :: _ =>
          (L1Cache.responseNetworkIn (s.l1Env c m.address storeData) (s.entry c m.address)
            ((s.l1 c).tbes m.address) m).map fun x =>
              (s.l1Finish c m.address x fun k =>
                { k with responseToCache := popped x.responseNetworkIn k.responseToCache },
              some ⟨c, m.address, none, s.state c m.address, x⟩)
  | .request d =>
      match (s.dir d).requestToDir with
      | [] => .idle
      | m :: _ =>
          (Directory.requestQueueIn (s.dirEnv d m.address) ((s.dir d).directory m.address)
            ((s.dir d).tbes m.address) m).map fun x =>
              (s.dirFinish d m.address x fun k =>
                { k with requestToDir := popped x.requestQueueIn k.requestToDir }, none)
  | .dirResponse d =>
      match (s.dir d).responseToDir with
      | [] => .idle
      | m :: _ =>
          (Directory.responseQueueIn (s.dirEnv d m.address) ((s.dir d).directory m.address)
            ((s.dir d).tbes m.address) m).map fun x =>
              (s.dirFinish d m.address x fun k =>
                { k with responseToDir := popped x.responseQueueIn k.responseToDir }, none)
  | .memory d =>
      match (s.dir d).memResponse with
      | [] => .idle
      | m :: _ =>
          (Directory.memQueueIn (s.dirEnv d m.address) ((s.dir d).directory m.address)
            ((s.dir d).tbes m.address) m).map fun x =>
              (s.dirFinish d m.address x fun k =>
                { k with memResponse := popped x.memQueueIn k.memResponse }, none)
  | .memAnswer d i =>
      match (s.dir d).memInput[i]? with
      | none => .idle
      | some m =>
          .valid ({ s with
            dir := Function.update s.dir d
              { s.dir d with
                memInput := (s.dir d).memInput.eraseIdx i
                memResponse := (s.dir d).memResponse ++ [m] }
            time := s.time + 1 }, none)
  | .deliverRequest c d =>
      match s.requestNet c d with
      | [] => .idle
      | m :: rest =>
          .valid ({ s with
            dir := Function.update s.dir d
              { s.dir d with requestToDir := (s.dir d).requestToDir ++ [m] }
            requestNet := Function.update s.requestNet c (Function.update (s.requestNet c) d rest)
            time := s.time + 1 }, none)
  | .deliverForward d c =>
      match s.forwardNet d c with
      | [] => .idle
      | m :: rest =>
          .valid ({ s with
            l1 := Function.update s.l1 c
              { s.l1 c with forwardToCache := (s.l1 c).forwardToCache ++ [m] }
            forwardNet := Function.update s.forwardNet d (Function.update (s.forwardNet d) c rest)
            time := s.time + 1 }, none)
  | .deliverResponse src dst =>
      match s.responseNet src dst with
      | [] => .idle
      | m :: rest =>
          let s' : System C D A n cfg :=
            { s with
              responseNet :=
                Function.update s.responseNet src (Function.update (s.responseNet src) dst rest)
              time := s.time + 1 }
          match dst with
          | .L1Cache c =>
              .valid ({ s' with
                l1 := Function.update s.l1 c
                  { s.l1 c with responseToCache := (s.l1 c).responseToCache ++ [m] } }, none)
          | .Directory d =>
              .valid ({ s' with
                dir := Function.update s.dir d
                  { s.dir d with responseToDir := (s.dir d).responseToDir ++ [m] } }, none)

end System

section Runs

variable {C D A : Type} [DecidableEq C] [DecidableEq D] [DecidableEq A] {n : ℕ} {cfg : Config D A}

/-- The label of a step: the move, and what it reported. -/
abbrev Label (C D A : Type) (n : ℕ) (cfg : Config D A) : Type :=
  Move C D A n cfg × Option (Report C D A n)

/-- A step is a move that is carried out. -/
def Step (s : System C D A n cfg) (l : Label C D A n cfg) (s' : System C D A n cfg) : Prop :=
  s.exec l.1 = .valid (s', l.2)

open Msi.System (popped)

/-- A move that is carried out, case by case. -/
inductive Carried (s : System C D A n cfg) :
    Move C D A n cfg → Option (Report C D A n) → System C D A n cfg → Prop
  | issue (c : C) (r : RubyRequest A) : Carried s (.issue c r) none
      { s with
        l1 := Function.update s.l1 c
          { s.l1 c with mandatoryQueue := (s.l1 c).mandatoryQueue ++ [r] }
        time := s.time + 1 }
  /-- The head of the mandatory queue needs a line, and the set of its block is full. -/
  | replacement (c : C) (victim : Fin cfg.assoc) (v : DataBlock n) (r : RubyRequest A) (a : A)
      (x : L1Cache.Ctx C D A n)
      (hfull : (s.l1 c).cacheMemory.cacheAvail r.lineAddress = false)
      (ha : (s.l1 c).cacheMemory.cacheProbe r.lineAddress victim = some a)
      (hx : L1Cache.mandatoryQueueInReplacement (s.l1Env c a v) (s.entry c a) ((s.l1 c).tbes a) r =
        .valid x) :
      Carried s (.mandatory c victim v) (some ⟨c, a, none, s.state c a, x⟩)
        (s.l1Finish c a x fun k =>
          { k with mandatoryQueue := popped x.mandatoryQueueIn k.mandatoryQueue })
  | mandatory (c : C) (victim : Fin cfg.assoc) (v : DataBlock n) (r : RubyRequest A)
      (x : L1Cache.Ctx C D A n)
      (hroom : ¬ (s.entry c r.lineAddress = none ∧
        (s.l1 c).cacheMemory.cacheAvail r.lineAddress = false))
      (hx : L1Cache.mandatoryQueueIn (s.l1Env c r.lineAddress v) (s.entry c r.lineAddress)
        ((s.l1 c).tbes r.lineAddress) r = .valid x) :
      Carried s (.mandatory c victim v)
        (some ⟨c, r.lineAddress, none, s.state c r.lineAddress, x⟩)
        (s.l1Finish c r.lineAddress x fun k =>
          { k with mandatoryQueue := popped x.mandatoryQueueIn k.mandatoryQueue })
  | forward (c : C) (m : RequestMsg C D A n) (q : List (RequestMsg C D A n))
      (x : L1Cache.Ctx C D A n) (hq : (s.l1 c).forwardToCache = m :: q)
      (hx : L1Cache.forwardRequestNetworkIn (s.l1Env c m.address default) (s.entry c m.address)
        ((s.l1 c).tbes m.address) m = .valid x) :
      Carried s (.forward c) (some ⟨c, m.address, some m, s.state c m.address, x⟩)
        (s.l1Finish c m.address x fun k =>
          { k with forwardToCache := popped x.forwardRequestNetworkIn k.forwardToCache })
  | response (c : C) (v : DataBlock n) (m : ResponseMsg C D A n) (q : List (ResponseMsg C D A n))
      (x : L1Cache.Ctx C D A n) (hq : (s.l1 c).responseToCache = m :: q)
      (hx : L1Cache.responseNetworkIn (s.l1Env c m.address v) (s.entry c m.address)
        ((s.l1 c).tbes m.address) m = .valid x) :
      Carried s (.response c v) (some ⟨c, m.address, none, s.state c m.address, x⟩)
        (s.l1Finish c m.address x fun k =>
          { k with responseToCache := popped x.responseNetworkIn k.responseToCache })
  | request (d : D) (m : RequestMsg C D A n) (q : List (RequestMsg C D A n))
      (x : Directory.Ctx C D A n) (hq : (s.dir d).requestToDir = m :: q)
      (hx : Directory.requestQueueIn (s.dirEnv d m.address) ((s.dir d).directory m.address)
        ((s.dir d).tbes m.address) m = .valid x) :
      Carried s (.request d) none (s.dirFinish d m.address x fun k =>
        { k with requestToDir := popped x.requestQueueIn k.requestToDir })
  | dirResponse (d : D) (m : ResponseMsg C D A n) (q : List (ResponseMsg C D A n))
      (x : Directory.Ctx C D A n) (hq : (s.dir d).responseToDir = m :: q)
      (hx : Directory.responseQueueIn (s.dirEnv d m.address) ((s.dir d).directory m.address)
        ((s.dir d).tbes m.address) m = .valid x) :
      Carried s (.dirResponse d) none (s.dirFinish d m.address x fun k =>
        { k with responseToDir := popped x.responseQueueIn k.responseToDir })
  | memory (d : D) (m : MemoryMsg C D A n) (q : List (MemoryMsg C D A n))
      (x : Directory.Ctx C D A n) (hq : (s.dir d).memResponse = m :: q)
      (hx : Directory.memQueueIn (s.dirEnv d m.address) ((s.dir d).directory m.address)
        ((s.dir d).tbes m.address) m = .valid x) :
      Carried s (.memory d) none (s.dirFinish d m.address x fun k =>
        { k with memResponse := popped x.memQueueIn k.memResponse })
  | memAnswer (d : D) (i : ℕ) (m : MemoryMsg C D A n) (hm : (s.dir d).memInput[i]? = some m) :
      Carried s (.memAnswer d i) none
        { s with
          dir := Function.update s.dir d
            { s.dir d with
              memInput := (s.dir d).memInput.eraseIdx i
              memResponse := (s.dir d).memResponse ++ [m] }
          time := s.time + 1 }
  | deliverRequest (c : C) (d : D) (m : RequestMsg C D A n) (q : List (RequestMsg C D A n))
      (hq : s.requestNet c d = m :: q) :
      Carried s (.deliverRequest c d) none
        { s with
          dir := Function.update s.dir d
            { s.dir d with requestToDir := (s.dir d).requestToDir ++ [m] }
          requestNet := Function.update s.requestNet c (Function.update (s.requestNet c) d q)
          time := s.time + 1 }
  | deliverForward (d : D) (c : C) (m : RequestMsg C D A n) (q : List (RequestMsg C D A n))
      (hq : s.forwardNet d c = m :: q) :
      Carried s (.deliverForward d c) none
        { s with
          l1 := Function.update s.l1 c
            { s.l1 c with forwardToCache := (s.l1 c).forwardToCache ++ [m] }
          forwardNet := Function.update s.forwardNet d (Function.update (s.forwardNet d) c q)
          time := s.time + 1 }
  | deliverToCache (src : MachineID C D) (c : C) (m : ResponseMsg C D A n)
      (q : List (ResponseMsg C D A n)) (hq : s.responseNet src (.L1Cache c) = m :: q) :
      Carried s (.deliverResponse src (.L1Cache c)) none
        { s with
          l1 := Function.update s.l1 c
            { s.l1 c with responseToCache := (s.l1 c).responseToCache ++ [m] }
          responseNet := Function.update s.responseNet src
            (Function.update (s.responseNet src) (.L1Cache c) q)
          time := s.time + 1 }
  | deliverToDir (src : MachineID C D) (d : D) (m : ResponseMsg C D A n)
      (q : List (ResponseMsg C D A n)) (hq : s.responseNet src (.Directory d) = m :: q) :
      Carried s (.deliverResponse src (.Directory d)) none
        { s with
          dir := Function.update s.dir d
            { s.dir d with responseToDir := (s.dir d).responseToDir ++ [m] }
          responseNet := Function.update s.responseNet src
            (Function.update (s.responseNet src) (.Directory d) q)
          time := s.time + 1 }

/-- **The cases of a step.** -/
theorem Step.carried {s s' : System C D A n cfg} {mv : Move C D A n cfg}
    {rep : Option (Report C D A n)} (h : Step s (mv, rep) s') : Carried s mv rep s' := by
  cases mv with
  | issue c r =>
      cases h
      exact .issue c r
  | mandatory c victim v =>
      simp only [Step, System.exec] at h
      split at h
      · cases h
      · next r _ _ =>
          split at h
          · next hfull =>
              split at h
              · cases h
              · next a ha =>
                  obtain ⟨x, hx, e⟩ := Outcome.map_eq_valid.1 h
                  cases e
                  exact .replacement c victim v r a x hfull.2 ha hx
          · next hroom =>
              obtain ⟨x, hx, e⟩ := Outcome.map_eq_valid.1 h
              cases e
              exact .mandatory c victim v r x hroom hx
  | forward c =>
      simp only [Step, System.exec] at h
      split at h
      · cases h
      · next m q hq =>
          obtain ⟨x, hx, e⟩ := Outcome.map_eq_valid.1 h
          cases e
          exact .forward c m q x hq hx
  | response c v =>
      simp only [Step, System.exec] at h
      split at h
      · cases h
      · next m q hq =>
          obtain ⟨x, hx, e⟩ := Outcome.map_eq_valid.1 h
          cases e
          exact .response c v m q x hq hx
  | request d =>
      simp only [Step, System.exec] at h
      split at h
      · cases h
      · next m q hq =>
          obtain ⟨x, hx, e⟩ := Outcome.map_eq_valid.1 h
          cases e
          exact .request d m q x hq hx
  | dirResponse d =>
      simp only [Step, System.exec] at h
      split at h
      · cases h
      · next m q hq =>
          obtain ⟨x, hx, e⟩ := Outcome.map_eq_valid.1 h
          cases e
          exact .dirResponse d m q x hq hx
  | memory d =>
      simp only [Step, System.exec] at h
      split at h
      · cases h
      · next m q hq =>
          obtain ⟨x, hx, e⟩ := Outcome.map_eq_valid.1 h
          cases e
          exact .memory d m q x hq hx
  | memAnswer d i =>
      simp only [Step, System.exec] at h
      split at h
      · cases h
      · next m hm =>
          cases h
          exact .memAnswer d i m hm
  | deliverRequest c d =>
      simp only [Step, System.exec] at h
      split at h
      · cases h
      · next m q hq =>
          cases h
          exact .deliverRequest c d m q hq
  | deliverForward d c =>
      simp only [Step, System.exec] at h
      split at h
      · cases h
      · next m q hq =>
          cases h
          exact .deliverForward d c m q hq
  | deliverResponse src dst =>
      simp only [Step, System.exec] at h
      split at h
      · cases h
      · next m q hq =>
          cases dst with
          | L1Cache c =>
              cases h
              exact .deliverToCache src c m q hq
          | Directory d =>
              cases h
              exact .deliverToDir src d m q hq

/-- The value of a block after the sequencer has been told something: a store overwrites it. -/
def L1Cache.Callback.overwrite (g : DataBlock n) : L1Cache.Callback n → DataBlock n
  | .write data => data
  | .read _ | .eviction => g

/-- What a step that reports `rep` tells the sequencers about a block. -/
def callbacksOf (a : A) (rep : Option (Report C D A n)) : List (L1Cache.Callback n) :=
  ((rep.filter fun r => r.address = a).map fun r => r.result.callbacks).getD []

/-- All that the sequencers are told about a block along a run. -/
def trace (ls : List (Label C D A n cfg)) (a : A) : List (L1Cache.Callback n) :=
  ls.flatMap fun l => callbacksOf a l.2

/-- The ghost value of a block after a run: its content in memory at the start, overwritten by every
store. -/
def ghost (mem : A → DataBlock n) (ls : List (Label C D A n cfg)) (a : A) : DataBlock n :=
  (trace ls a).foldl L1Cache.Callback.overwrite (mem a)

/-- The runs from a given memory content. -/
def Run (mem : A → DataBlock n) : List (Label C D A n cfg) → System C D A n cfg → Prop :=
  Lts.Run (· = System.init cfg mem) Step

/-- The states the system can reach from a given memory content. -/
def Reachable (mem : A → DataBlock n) : System C D A n cfg → Prop :=
  Lts.Reachable (· = System.init cfg mem) Step

/-- Carry out a list of moves: the labels and the state they lead to, if all can be carried out. -/
def System.play (s : System C D A n cfg) :
    List (Move C D A n cfg) → Option (List (Label C D A n cfg) × System C D A n cfg)
  | [] => some ([], s)
  | mv :: ms =>
      match s.exec mv with
      | .valid (s', rep) => (s'.play ms).map fun p => ((mv, rep) :: p.1, p.2)
      | _ => none

/-- Moves that can be carried out continue a run, of this system and of any that allows them. -/
theorem System.play_run {init : System C D A n cfg → Prop} {P : Move C D A n cfg → Prop}
    {ms : List (Move C D A n cfg)} {s t : System C D A n cfg} {ls ls' : List (Label C D A n cfg)}
    (hP : ∀ mv ∈ ms, P mv) (hr : Lts.Run init (fun s l s' => Step s l s' ∧ P l.1) ls s)
    (h : s.play ms = some (ls', t)) :
    Lts.Run init (fun s l s' => Step s l s' ∧ P l.1) (ls ++ ls') t := by
  induction ms generalizing s ls ls' with
  | nil =>
      cases h
      rwa [List.append_nil]
  | cons mv ms ih =>
      unfold play at h
      split at h
      · next s' rep he =>
          obtain ⟨p, hp, e⟩ := Option.map_eq_some_iff.1 h
          cases e
          have hstep := hr.snoc (l := (mv, rep)) ⟨he, hP mv List.mem_cons_self⟩
          have hrest := ih (fun mv' hm => hP mv' (List.mem_cons_of_mem mv hm)) hstep hp
          rwa [List.append_assoc] at hrest
      · cases h

end Runs

end Msi
