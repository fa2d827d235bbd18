/-
**The sequencers, on top of the protocol.**

Between a processor and its cache controller stands a sequencer (`Sequencer.cc`).  It accepts the
packets of the processor, notes them in one of two request tables and puts a request into the
mandatory queue; when the controller reports that a load or a store has been done, it takes the
request out of its table, moves the data between the packet and the line, and hands the packet back.
A packet for a block for which the same processor has a request outstanding is refused, and so is
every packet while too many requests are outstanding.

Load-linked and store-conditional are both stores to the protocol.  They are told apart by a lock on
the line (`CacheMemory.cc`): a load-linked sets it, every other store of the same processor clears
it, and a store-conditional succeeds if it finds the lock set.  The lock disappears with the line.

The sequencers do not trust the protocol: a callback for a block that is in no table, or in the
wrong one, stops the simulator, and so does a counter that disagrees with the tables.

Main definitions:

* `Msi.Packet`, `Msi.SequencerRequest`, `Msi.Sequencer` — packets, requests and the sequencer;
* `Msi.Sequencer.makeRequest`, `Msi.Sequencer.readCallback`, `Msi.Sequencer.writeCallback` — what
  the processor and the controller call;
* `Msi.Ruby`, `Msi.Ruby.exec` — the system of `ArchLab/MsiSystem.lean` with its sequencers, and its
  moves;
* `Msi.RubyStep`, `Msi.RubyRun` — steps and runs, and `Msi.Ruby.Carried`, the cases of a step.
-/

import Mathlib.Data.List.AList
import ArchLab.MsiServed

set_option relaxedAutoImplicit false
set_option autoImplicit false

namespace Msi

/-! ### Packets -/

namespace DataBlock

variable {n : ℕ}

/-- Copy bytes into a block. -/
def setData (blk : DataBlock n) (bytes : List UInt8) (offset : ℕ) : DataBlock n :=
  fun i => if offset ≤ i.val ∧ i.val < offset + bytes.length then bytes.getD (i.val - offset) 0
    else blk i

/-- Copy bytes out of a block. -/
def getData (blk : DataBlock n) (offset len : ℕ) (h : offset + len ≤ n) : List UInt8 :=
  List.ofFn fun k : Fin len => blk ⟨offset + k, by omega⟩

end DataBlock

/-- A packet of a processor: the command, the place in a block, and the bytes.  A packet does not
cross the end of its block. -/
structure Packet (A : Type) (n : ℕ) where
  isRead : Bool
  isWrite : Bool
  isInstFetch : Bool
  isLLSC : Bool
  isFlush : Bool
  lineAddress : A
  offset : ℕ
  data : List UInt8
  fits : offset + data.length ≤ n

/-- What becomes of the attempt to make a request. -/
inductive RequestStatus where
  | Ready | Issued | BufferFull | Aliased
  deriving DecidableEq

/-- The types of a request: the one that the sequencer remembers, and the one it tells the
controller. -/
def Packet.requestTypes {A : Type} {n : ℕ} (pkt : Packet A n) :
    Except Fault (RubyRequestType × RubyRequestType) :=
  if pkt.isLLSC then
    if pkt.isWrite then .ok (.Store_Conditional, .ATOMIC)
    else if pkt.isRead then .ok (.Load_Linked, .ATOMIC)
    else .error .assertion
  else if pkt.isRead then
    if pkt.isInstFetch then .ok (.IFETCH, .IFETCH) else .ok (.LD, .LD)
  else if pkt.isWrite then .ok (.ST, .ST)
  else if pkt.isFlush then .ok (.FLUSH, .FLUSH)
  else .error (.error "Unsupported ruby packet type\n")

/-- The packets that the protocol supports: all but flushes. -/
def Packet.Supported {A : Type} {n : ℕ} (pkt : Packet A n) : Prop :=
  pkt.isRead = true ∨ pkt.isWrite = true

instance {A : Type} {n : ℕ} (pkt : Packet A n) : Decidable pkt.Supported :=
  inferInstanceAs (Decidable (_ ∨ _))

/-! ### The sequencer -/

/-- A request that the sequencer has accepted. -/
structure SequencerRequest (A : Type) (n : ℕ) where
  pkt : Packet A n
  type : RubyRequestType
  issueTime : ℕ

/-- A request table: at most one request for each block. -/
abbrev RequestTable (A : Type) (n : ℕ) : Type := AList fun _ : A => SequencerRequest A n

/-- The number of requests in a table. -/
def RequestTable.size {A : Type} {n : ℕ} (t : RequestTable A n) : ℤ := t.keys.length

/-- A sequencer. -/
structure Sequencer (A : Type) (n : ℕ) where
  readRequestTable : RequestTable A n
  writeRequestTable : RequestTable A n
  outstandingCount : ℤ
  storeWaitingOnLoadCycles : ℕ
  storeWaitingOnStoreCycles : ℕ
  loadWaitingOnStoreCycles : ℕ
  loadWaitingOnLoadCycles : ℕ

/-- A packet that the sequencer hands back to its processor. -/
structure Done (C A : Type) (n : ℕ) where
  cache : C
  address : A
  type : RubyRequestType
  pkt : Packet A n
  success : Bool

/-- The types of the requests in the write table. -/
def writeTypes : List RubyRequestType :=
  [.ST, .RMW_Read, .RMW_Write, .Load_Linked, .Store_Conditional, .Locked_RMW_Read,
    .Locked_RMW_Write, .FLUSH]

/-- The types of requests for which data is copied from the line to the packet. -/
def loadTypes : List RubyRequestType :=
  [.LD, .IFETCH, .RMW_Read, .Locked_RMW_Read, .Load_Linked]

namespace Sequencer

variable {A : Type} [DecidableEq A] {n : ℕ}

/-- No request is outstanding. -/
def init : Sequencer A n where
  readRequestTable := ∅
  writeRequestTable := ∅
  outstandingCount := 0
  storeWaitingOnLoadCycles := 0
  storeWaitingOnStoreCycles := 0
  loadWaitingOnStoreCycles := 0
  loadWaitingOnLoadCycles := 0

/-- The assertion on the counter. -/
def checkCount (q : Sequencer A n) : Except Fault (Sequencer A n) :=
  if q.outstandingCount = q.writeRequestTable.size + q.readRequestTable.size then .ok q
  else .error .assertion

/-- Note a request in its table, unless another one for the same block is outstanding. -/
def insertRequest (q : Sequencer A n) (pkt : Packet A n) (type : RubyRequestType) (time : ℕ) :
    Except Fault (Sequencer A n × RequestStatus) := do
  let q ← q.checkCount
  if type ∈ writeTypes then
    if pkt.lineAddress ∈ q.readRequestTable then
      return ({ q with storeWaitingOnLoadCycles := q.storeWaitingOnLoadCycles + 1 }, .Aliased)
    else if pkt.lineAddress ∈ q.writeRequestTable then
      return ({ q with storeWaitingOnStoreCycles := q.storeWaitingOnStoreCycles + 1 }, .Aliased)
    else
      let q ← { q with
        writeRequestTable := q.writeRequestTable.insert pkt.lineAddress ⟨pkt, type, time⟩
        outstandingCount := q.outstandingCount + 1 }.checkCount
      return (q, .Ready)
  else
    if pkt.lineAddress ∈ q.writeRequestTable then
      return ({ q with loadWaitingOnStoreCycles := q.loadWaitingOnStoreCycles + 1 }, .Aliased)
    else if pkt.lineAddress ∈ q.readRequestTable then
      return ({ q with loadWaitingOnLoadCycles := q.loadWaitingOnLoadCycles + 1 }, .Aliased)
    else
      let q ← { q with
        readRequestTable := q.readRequestTable.insert pkt.lineAddress ⟨pkt, type, time⟩
        outstandingCount := q.outstandingCount + 1 }.checkCount
      return (q, .Ready)

/-- The processor makes a request: its fate, and what is put into the mandatory queue. -/
def makeRequest (maxOutstandingRequests : ℤ) (q : Sequencer A n) (pkt : Packet A n) (time : ℕ) :
    Except Fault (Sequencer A n × RequestStatus × Option (RubyRequest A)) :=
  if maxOutstandingRequests ≤ q.outstandingCount then .ok (q, .BufferFull, none)
  else do
    let (primary, secondary) ← pkt.requestTypes
    let (q, status) ← q.insertRequest pkt primary time
    if status ≠ .Ready then return (q, status, none)
    else return (q, .Issued, some ⟨pkt.lineAddress, secondary⟩)

/-- One request less. -/
def markRemoved (q : Sequencer A n) : Except Fault (Sequencer A n) :=
  { q with outstandingCount := q.outstandingCount - 1 }.checkCount

/-- The effect of a store on the lock of its line, and whether it succeeds.  `present` says whether
the line is there; asking for the lock of a line that is not there is a failed assertion. -/
def handleLlsc (type : RubyRequestType) (present locked : Bool) : Except Fault (Bool × Bool) :=
  match type with
  | .Store_Conditional => if present then .ok (locked, false) else .error .assertion
  | .Load_Linked => if present then .ok (true, true) else .error .assertion
  | _ => .ok (true, if present && locked then false else locked)

/-- The block after the request has been done, and the packet. -/
def hitCallback (r : SequencerRequest A n) (data : DataBlock n) (time : ℕ) :
    Except Fault (DataBlock n × Packet A n) :=
  if time < r.issueTime then .error .assertion
  else if r.type ∈ loadTypes then
    .ok (data,
      { r.pkt with
        data := data.getData r.pkt.offset r.pkt.data.length r.pkt.fits
        fits := by
          have := r.pkt.fits
          simpa [DataBlock.getData] using this })
  else .ok (data.setData r.pkt.data r.pkt.offset, r.pkt)

/-- The controller reports a load. -/
def readCallback {C : Type} (q : Sequencer A n) (cache : C) (address : A) (data : DataBlock n)
    (time : ℕ) : Except Fault (Sequencer A n × Done C A n) := do
  let r ← L1Cache.need (q.readRequestTable.lookup address)
  let q ← { q with readRequestTable := q.readRequestTable.erase address }.markRemoved
  if r.type = .LD ∨ r.type = .IFETCH then
    let (_, pkt) ← hitCallback r data time
    return (q, ⟨cache, address, r.type, pkt, true⟩)
  else throw .assertion

/-- The controller reports a store: what becomes of the lock, of the block and of the packet. -/
def writeCallback {C : Type} (q : Sequencer A n) (cache : C) (address : A) (data : DataBlock n)
    (present locked : Bool) (time : ℕ) :
    Except Fault (Sequencer A n × Bool × DataBlock n × Done C A n) := do
  let r ← L1Cache.need (q.writeRequestTable.lookup address)
  let q ← { q with writeRequestTable := q.writeRequestTable.erase address }.markRemoved
  if r.type ∈ writeTypes ∨ r.type = .ATOMIC then
    let (success, locked) ← handleLlsc r.type present locked
    let (data, pkt) ← hitCallback r data time
    return (q, locked, data, ⟨cache, address, r.type, pkt, success⟩)
  else throw .assertion

end Sequencer

/-! ### The system with its sequencers -/

/-- The system, a sequencer for each cache, and the locks of the lines. -/
structure Ruby (C D A : Type) (n : ℕ) (cfg : Config D A) where
  sys : System C D A n cfg
  sequencer : C → Sequencer A n
  /-- Whether `m_locked` of a line is the number of its sequencer. -/
  locked : C → A → Bool

/-- The moves: a processor makes a request, a cache looks at one of the two queues whose messages
can complete a request, or something else happens in the protocol. -/
inductive RubyMove (C D A : Type) (n : ℕ) (cfg : Config D A) where
  | makeRequest (c : C) (pkt : Packet A n)
  | mandatory (c : C) (victim : Fin cfg.assoc)
  | response (c : C)
  | network (mv : Move C D A n cfg)

/-- The move does not involve a sequencer. -/
def Move.silent {C D A : Type} {n : ℕ} {cfg : Config D A} : Move C D A n cfg → Bool
  | .issue _ _ | .mandatory _ _ _ | .response _ _ => false
  | _ => true

/-- What a step of the system with its sequencers has done: the step of the protocol, if there was
one, and the packets that went back to the processors. -/
structure RubyLabel (C D A : Type) (n : ℕ) (cfg : Config D A) where
  move : RubyMove C D A n cfg
  step : Option (Label C D A n cfg)
  done : List (Done C A n)

namespace Ruby

variable {C D A : Type} [DecidableEq C] [DecidableEq D] [DecidableEq A] {n : ℕ} {cfg : Config D A}

/-- Memory as given, and nothing asked for yet. -/
def init (cfg : Config D A) (mem : A → DataBlock n) : Ruby C D A n cfg where
  sys := System.init cfg mem
  sequencer _ := Sequencer.init
  locked _ _ := false

/-- The data of a line. -/
def line (w : Ruby C D A n cfg) (c : C) (a : A) : DataBlock n :=
  ((w.sys.entry c a).map fun e => e.dataBlk).getD default

/-- What a store to a block leaves in a line that holds `data` before it. -/
def storeData (w : Ruby C D A n cfg) (c : C) (a : A) (data : DataBlock n) : DataBlock n :=
  match (w.sequencer c).writeRequestTable.lookup a with
  | none => data
  | some r =>
      match Sequencer.hitCallback r data w.sys.time with
      | .error _ => data
      | .ok p => p.1

/-- One callback, on the sequencer and the lock of a line whose data is `data`. -/
def call (rep : Report C D A n) (data : DataBlock n) (time : ℕ)
    (x : Sequencer A n × Bool × List (Done C A n)) :
    L1Cache.Callback n → Except Fault (Sequencer A n × Bool × List (Done C A n))
  | .read d => do
      let (q, done) ← x.1.readCallback rep.cache rep.address d time
      return (q, x.2.1, x.2.2 ++ [done])
  | .write _ => do
      let (q, locked, _, done) ←
        x.1.writeCallback rep.cache rep.address data rep.result.cacheEntry.isSome x.2.1 time
      return (q, locked, x.2.2 ++ [done])
  | .eviction => .ok x

/-- All callbacks of a transition.  The lock is clear in a line that the transition has added. -/
def calls (w : Ruby C D A n cfg) (rep : Report C D A n) (data : DataBlock n) :
    Except Fault (Sequencer A n × Bool × List (Done C A n)) :=
  rep.result.callbacks.foldlM (call rep data w.sys.time)
    (w.sequencer rep.cache,
      (w.sys.entry rep.cache rep.address).isSome && w.locked rep.cache rep.address, [])

/-- The lock of a line after a transition: it goes with the line, and with its permissions. -/
def keepLock (rep : Report C D A n) (locked : Bool) : Bool :=
  locked && rep.result.cacheEntry.isSome &&
    (L1Cache.getAccessPermission rep.result.tbe rep.result.cacheEntry != .Invalid)

/-- Carry out a move of the protocol.  `data` is what the line holds when a store of the move is
done. -/
def run (w : Ruby C D A n cfg) (mv : Move C D A n cfg) (data : DataBlock n) :
    Outcome (Ruby C D A n cfg × Option (Label C D A n cfg) × List (Done C A n)) :=
  match w.sys.exec mv with
  | .idle => .idle
  | .stall => .stall
  | .fault f => .fault f
  | .valid (s', none) => .valid ({ w with sys := s' }, some (mv, none), [])
  | .valid (s', some rep) =>
      match w.calls rep data with
      | .error f => .fault f
      | .ok (q, locked, done) =>
          .valid
            ({ sys := s'
               sequencer := Function.update w.sequencer rep.cache q
               locked := Function.update w.locked rep.cache
                 (Function.update (w.locked rep.cache) rep.address (keepLock rep locked)) },
              some (mv, some rep), done)

/-- The block of the line that a response is about, once its data, if it has any, is in the line. -/
def lineOfResponse (w : Ruby C D A n cfg) (c : C) (m : ResponseMsg C D A n) : DataBlock n :=
  match m.type with
  | .DATA_FROM_DIR | .DATA_FROM_OWNER => m.dataBlk
  | _ => w.line c m.address

/-- The effect of a move. -/
def exec (maxOutstandingRequests : ℤ) (w : Ruby C D A n cfg) :
    RubyMove C D A n cfg →
      Outcome (Ruby C D A n cfg × Option (Label C D A n cfg) × List (Done C A n))
  | .makeRequest c pkt =>
      match (w.sequencer c).makeRequest maxOutstandingRequests pkt w.sys.time with
      | .error f => .fault f
      | .ok (q, _, none) =>
          .valid ({ w with sequencer := Function.update w.sequencer c q }, none, [])
      | .ok (q, _, some r) =>
          { w with sequencer := Function.update w.sequencer c q }.run (.issue c r) default
  | .mandatory c victim =>
      match (w.sys.l1 c).mandatoryQueue with
      | [] => .idle
      | r :: _ =>
          let data := w.line c r.lineAddress
          w.run (.mandatory c victim (w.storeData c r.lineAddress data)) data
  | .response c =>
      match (w.sys.l1 c).responseToCache with
      | [] => .idle
      | m :: _ =>
          let data := w.lineOfResponse c m
          w.run (.response c (w.storeData c m.address data)) data
  | .network mv => if mv.silent then w.run mv default else .idle

end Ruby

/-! ### Steps -/

section Steps

variable {C D A : Type} [DecidableEq C] [DecidableEq D] [DecidableEq A] {n : ℕ} {cfg : Config D A}

/-- A step of the system with its sequencers is a move that is carried out. -/
def RubyStep (max : ℤ) (w : Ruby C D A n cfg) (l : RubyLabel C D A n cfg) (w' : Ruby C D A n cfg) :
    Prop :=
  w.exec max l.move = .valid (w', l.step, l.done)

/-- The packets of the move are supported. -/
def RubyMove.Supported : RubyMove C D A n cfg → Prop
  | .makeRequest _ pkt => pkt.Supported
  | _ => True

/-- The runs of the system with its sequencers, on supported packets. -/
def RubyRun (max : ℤ) (mem : A → DataBlock n) :
    List (RubyLabel C D A n cfg) → Ruby C D A n cfg → Prop :=
  Lts.Run (· = Ruby.init cfg mem) fun w l w' => RubyStep max w l w' ∧ l.move.Supported

namespace Ruby

variable {w w' : Ruby C D A n cfg} {max : ℤ}

/-- A move of the protocol that has been carried out, with its callbacks. -/
inductive Ran (w : Ruby C D A n cfg) (mv : Move C D A n cfg) (data : DataBlock n) :
    Ruby C D A n cfg → Option (Label C D A n cfg) → List (Done C A n) → Prop
  | quiet (s' : System C D A n cfg) (hs : Step w.sys (mv, none) s') :
      Ran w mv data { w with sys := s' } (some (mv, none)) []
  | calls (s' : System C D A n cfg) (rep : Report C D A n) (q : Sequencer A n) (locked : Bool)
      (done : List (Done C A n)) (hs : Step w.sys (mv, some rep) s')
      (hcalls : w.calls rep data = .ok (q, locked, done)) :
      Ran w mv data
        { sys := s'
          sequencer := Function.update w.sequencer rep.cache q
          locked := Function.update w.locked rep.cache
            (Function.update (w.locked rep.cache) rep.address (keepLock rep locked)) }
        (some (mv, some rep)) done

theorem run_eq_valid {mv : Move C D A n cfg} {data : DataBlock n}
    {l : Option (Label C D A n cfg)} {done : List (Done C A n)}
    (h : w.run mv data = .valid (w', l, done)) : Ran w mv data w' l done := by
  unfold run at h
  split at h
  · cases h
  · cases h
  · cases h
  · next s' hs =>
      cases h
      exact .quiet s' hs
  · next s' rep hs =>
      split at h
      · cases h
      · next q locked done hcalls =>
          cases h
          exact .calls s' rep q locked done hs hcalls

/-- **The cases of a step** of the system with its sequencers. -/
inductive Carried (max : ℤ) (w : Ruby C D A n cfg) : RubyMove C D A n cfg → Ruby C D A n cfg →
    Option (Label C D A n cfg) → List (Done C A n) → Prop
  | refused (c : C) (pkt : Packet A n) (q : Sequencer A n) (status : RequestStatus)
      (hq : (w.sequencer c).makeRequest max pkt w.sys.time = .ok (q, status, none)) :
      Carried max w (.makeRequest c pkt) { w with sequencer := Function.update w.sequencer c q }
        none []
  | issued (c : C) (pkt : Packet A n) (q : Sequencer A n) (status : RequestStatus)
      (r : RubyRequest A) (s' : System C D A n cfg)
      (hq : (w.sequencer c).makeRequest max pkt w.sys.time = .ok (q, status, some r))
      (hs : Step w.sys (.issue c r, none) s') :
      Carried max w (.makeRequest c pkt)
        { w with sys := s', sequencer := Function.update w.sequencer c q }
        (some (.issue c r, none)) []
  | mandatory (c : C) (victim : Fin cfg.assoc) (r : RubyRequest A) (rest : List (RubyRequest A))
      (w' : Ruby C D A n cfg) (l : Option (Label C D A n cfg)) (done : List (Done C A n))
      (hq : (w.sys.l1 c).mandatoryQueue = r :: rest)
      (hr : Ran w (.mandatory c victim (w.storeData c r.lineAddress (w.line c r.lineAddress)))
        (w.line c r.lineAddress) w' l done) :
      Carried max w (.mandatory c victim) w' l done
  | response (c : C) (m : ResponseMsg C D A n) (rest : List (ResponseMsg C D A n))
      (w' : Ruby C D A n cfg) (l : Option (Label C D A n cfg)) (done : List (Done C A n))
      (hq : (w.sys.l1 c).responseToCache = m :: rest)
      (hr : Ran w (.response c (w.storeData c m.address (w.lineOfResponse c m)))
        (w.lineOfResponse c m) w' l done) :
      Carried max w (.response c) w' l done
  | network (mv : Move C D A n cfg) (w' : Ruby C D A n cfg) (l : Option (Label C D A n cfg))
      (done : List (Done C A n)) (hmv : mv.silent = true) (hr : Ran w mv default w' l done) :
      Carried max w (.network mv) w' l done

end Ruby

theorem RubyStep.carried {max : ℤ} {w w' : Ruby C D A n cfg} {l : RubyLabel C D A n cfg}
    (h : RubyStep max w l w') : Ruby.Carried max w l.move w' l.step l.done := by
  obtain ⟨mv, step, done⟩ := l
  cases mv with
  | makeRequest c pkt =>
      simp only [RubyStep, Ruby.exec] at h
      split at h
      · cases h
      · next q status hq =>
          cases h
          exact .refused c pkt q status hq
      · next q status r hq =>
          cases h
          exact .issued c pkt q status r _ hq rfl
  | mandatory c victim =>
      simp only [RubyStep, Ruby.exec] at h
      split at h
      · cases h
      · next r rest hq => exact .mandatory c victim r rest w' step done hq (Ruby.run_eq_valid h)
  | response c =>
      simp only [RubyStep, Ruby.exec] at h
      split at h
      · cases h
      · next m rest hq => exact .response c m rest w' step done hq (Ruby.run_eq_valid h)
  | network mv =>
      simp only [RubyStep, Ruby.exec] at h
      split at h
      · next hmv => exact .network mv w' step done hmv (Ruby.run_eq_valid h)
      · cases h

theorem Step.time_eq {s s' : System C D A n cfg} {l : Label C D A n cfg} (h : Step s l s') :
    s'.time = s.time + 1 := by
  obtain ⟨mv, rep⟩ := l
  cases h.carried <;> rfl

/-- Carry out a list of moves: the labels and the state they lead to, if all can be carried out. -/
def Ruby.play (max : ℤ) (w : Ruby C D A n cfg) :
    List (RubyMove C D A n cfg) → Option (List (RubyLabel C D A n cfg) × Ruby C D A n cfg)
  | [] => some ([], w)
  | mv :: ms =>
      match w.exec max mv with
      | .valid (w', step, done) => (w'.play max ms).map fun p => (⟨mv, step, done⟩ :: p.1, p.2)
      | _ => none

/-- Moves on supported packets that can be carried out are a run. -/
theorem Ruby.play_run {max : ℤ} {mem : A → DataBlock n} {ms : List (RubyMove C D A n cfg)}
    {w t : Ruby C D A n cfg} {ls ls' : List (RubyLabel C D A n cfg)}
    (hP : ∀ mv ∈ ms, mv.Supported) (hr : RubyRun max mem ls w)
    (h : w.play max ms = some (ls', t)) : RubyRun max mem (ls ++ ls') t := by
  induction ms generalizing w ls ls' with
  | nil =>
      cases h
      rwa [List.append_nil]
  | cons mv ms ih =>
      unfold play at h
      split at h
      · next w' step done he =>
          obtain ⟨p, hp, e⟩ := Option.map_eq_some_iff.1 h
          cases e
          have hstep : RubyRun max mem (ls ++ [⟨mv, step, done⟩]) w' :=
            hr.snoc ⟨he, hP mv List.mem_cons_self⟩
          have hrest := ih (fun mv' hm => hP mv' (List.mem_cons_of_mem mv hm)) hstep hp
          rwa [List.append_assoc] at hrest
      · cases h

end Steps

end Msi
