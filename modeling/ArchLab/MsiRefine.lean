/-
**The controllers refine the abstract protocol.**

`ArchLab/MsiBlock.lean` reads the system as one view for each block.  This module says what it means
that the view of a block is described by an abstract state (`ArchLab/MsiAbs.lean`): lines, transient
entries and the directory entry are those of the abstract state, and the messages in flight are
exactly those that the phases imply.  The simulation itself — each transition of a controller is a
transition of the abstract protocol — follows in `ArchLab/MsiSimCache.lean` and
`ArchLab/MsiSimDir.lean`.

Main definitions:

* `Msi.Fwd`, `Msi.Resp` — what a message on the forward network and on the response network says;
* `Msi.Phase.fwds`, `Msi.Abs.resps` — the messages that an abstract state implies;
* `Msi.Rel` — the view of a block is described by an abstract state.

Main results:

* `Msi.Rel.homed` — messages about a block stay with its home directory;
* `Msi.Rel.l1Finish`, `Msi.Rel.dirFinish` — what has to be checked after a transition.
-/

import ArchLab.MsiAbsDir
import ArchLab.MsiRoute
import Mathlib.Data.Finset.Image
import Mathlib.Data.List.Forall2

set_option relaxedAutoImplicit false
set_option autoImplicit false

namespace Msi

/-! ### Messages -/

/-- The request type of a forwarded request. -/
def Kind.type : Kind → CoherenceRequestType
  | .GETS => .GETS
  | .GETM => .GETM

/-- The request type of a writeback. -/
def Put.type : Put → CoherenceRequestType
  | .PUTS => .PUTS
  | .PUTM => .PUTM

/-- What a message on the forward network says. -/
inductive Fwd (C : Type) where
  | inv (r : C) (t : ℕ)
  | own (k : Kind) (r : C) (t : ℕ)
  | wbAck

/-- A message on the forward network that says this. -/
def Fwd.Matches {C D A : Type} {n : ℕ} : Fwd C → RequestMsg C D A n → Prop
  | .inv r t, m => m.type = .INV ∧ m.requestor = .L1Cache r ∧ m.time = t
  | .own k r t, m => m.type = k.type ∧ m.requestor = .L1Cache r ∧ m.time = t
  | .wbAck, m => m.type = .WB_ACK

/-- What a message on the response network says. -/
inductive Resp (V : Type) where
  /-- Data of the directory, with the number of acknowledgements to wait for. -/
  | dir (d : V) (n : ℕ)
  /-- Data of the former owner. -/
  | owner (d : V)
  /-- An invalidation is acknowledged. -/
  | ack
  /-- Data of the former owner for the directory. -/
  | toDir (d : V)

/-- A message on the response network that says this. -/
def Resp.Matches {C D A : Type} {n : ℕ} : Resp (DataBlock n) → ResponseMsg C D A n → Prop
  | .dir d k, m => m.type = .DATA_FROM_DIR ∧ m.dataBlk = d ∧ m.ackCount = -k
  | .owner d, m => m.type = .DATA_FROM_OWNER ∧ m.dataBlk = d
  | .ack, m => m.type = .ACK ∧ m.ackCount = 1
  | .toDir d, m => m.type = .DATA ∧ m.dataBlk = d

namespace Phase

variable {C V : Type}

/-- Whether the acknowledgement of a writeback is on its way. -/
def acked : Phase C V → Bool
  | evictAcked _ | evictSAcked _ | evictIAcked => true
  | _ => false

/-- The messages in the forward queue, in their order. -/
def fwds (p : Phase C V) : List (Fwd C) :=
  (p.inv.toList.map fun i => .inv i.1 i.2) ++ (p.own.toList.map fun o => .own o.1 o.2.1 o.2.2) ++
    if p.acked then [.wbAck] else []

/-- The request on its way to the directory. -/
def req : Phase C V → Option CoherenceRequestType
  | loadSent => some .GETS
  | storeSent | upgradeSent _ => some .GETM
  | evictM _ => some .PUTM
  | evictS k _ | evictI k => some k.type
  | _ => none

/-- The data on its way from the directory. -/
def fromDir (p : Phase C V) : List (Resp V) :=
  match p.src with
  | some (.dir d n) => [.dir d n]
  | _ => []

/-- The data on its way from a former owner. -/
def fromOwner [DecidableEq C] (b : C) (p : Phase C V) : List (Resp V) :=
  match p.src with
  | some (.owner o d) => if o = b then [.owner d] else []
  | _ => []

end Phase

/-! ### Lines and entries -/

namespace Cell

variable {C D A : Type} {n : ℕ}

/-- The line of a cell. -/
def entry (x : Cell C (DataBlock n)) : Option (L1Cache.Entry n) :=
  match x.ph.st with
  | .I => none
  | q => some ⟨q, x.data⟩

/-- The transient entry of a cell. -/
def tbe (x : Cell C (DataBlock n)) : Option (L1Cache.TBE n) :=
  match x.ph.st with
  | .I | .S | .M => none
  | q => some ⟨q, x.tdata, x.acks⟩

/-- The request of a cell on its way. -/
def ReqOk (c : C) (x : Cell C (DataBlock n)) (q : List (RequestMsg C D A n)) : Prop :=
  match x.ph.req with
  | none => q = []
  | some t => ∃ m, q = [m] ∧ m.type = t ∧ m.requestor = .L1Cache c ∧
      (x.ph.put ≠ none → m.dataBlk = x.tdata)

theorem ReqOk.congr {c : C} {x y : Cell C (DataBlock n)} {q : List (RequestMsg C D A n)}
    (h : ReqOk c y q) (hr : x.ph.req = y.ph.req) (hp : x.ph.put = y.ph.put)
    (ht : x.tdata = y.tdata) : ReqOk c x q := by
  unfold ReqOk at h ⊢
  rwa [hr, hp, ht]

/-- Two cells that the cache and its requests cannot tell apart. -/
structure Same (x y : Cell C (DataBlock n)) : Prop where
  st : x.ph.st = y.ph.st
  data : x.data = y.data
  tdata : x.tdata = y.tdata
  acks : x.acks = y.acks
  req : x.ph.req = y.ph.req
  put : x.ph.put = y.ph.put

theorem Same.entry {x y : Cell C (DataBlock n)} (h : Same x y) : x.entry = y.entry := by
  simp only [Cell.entry, h.st, h.data]

theorem Same.tbe {x y : Cell C (DataBlock n)} (h : Same x y) : x.tbe = y.tbe := by
  simp only [Cell.tbe, h.st, h.tdata, h.acks]

theorem Same.reqOk {x y : Cell C (DataBlock n)} (h : Same x y) {c : C}
    {q : List (RequestMsg C D A n)} (hq : ReqOk c y q) : ReqOk c x q :=
  hq.congr h.req h.put h.tdata

theorem Same.refl (x : Cell C (DataBlock n)) : Same x x := ⟨rfl, rfl, rfl, rfl, rfl, rfl⟩

end Cell

/-- The caches of a set, as destinations. -/
def caches {C : Type} (D : Type) (sh : Finset C) : NetDest C D :=
  sh.map ⟨MachineID.L1Cache, fun _ _ h => MachineID.L1Cache.inj h⟩

section Caches

variable {C D : Type}

@[simp] theorem mem_caches {sh : Finset C} {c : C} : .L1Cache c ∈ caches D sh ↔ c ∈ sh :=
  Finset.mem_map' ⟨MachineID.L1Cache, fun _ _ h => MachineID.L1Cache.inj h⟩

@[simp] theorem card_caches (sh : Finset C) : (caches D sh).card = sh.card := Finset.card_map _

@[simp] theorem caches_empty : caches D (∅ : Finset C) = ∅ := rfl

@[simp] theorem caches_singleton (c : C) : caches D {c} = {.L1Cache c} := Finset.map_singleton _ _

variable [DecidableEq C] [DecidableEq D]

theorem caches_insert (c : C) (sh : Finset C) :
    caches D (insert c sh) = insert (.L1Cache c) (caches D sh) := Finset.map_insert _ _ _

theorem caches_erase (c : C) (sh : Finset C) :
    caches D (sh.erase c) = (caches D sh).erase (.L1Cache c) := Finset.map_erase _ _ _

theorem caches_union (sh ow : Finset C) : caches D (sh ∪ ow) = caches D sh ∪ caches D ow :=
  Finset.map_union _ _

end Caches

namespace Abs

variable {C D : Type} {n : ℕ}

/-- The directory entry of an abstract state. -/
def dirEntry (s : Abs C (DataBlock n)) : Directory.Entry C D n where
  directoryState := s.dst
  dataBlk := s.ddata
  sharers := caches D s.sharers
  owner := caches D s.owner

/-- The responses on their way from one machine to another. -/
def resps {V : Type} [DecidableEq C] [DecidableEq D] (home : D) (s : Abs C V) :
    MachineID C D → MachineID C D → List (Resp V)
  | .Directory d, .L1Cache c => if d = home then (s.ph c).fromDir else []
  | .L1Cache b, .L1Cache c => (s.ph c).fromOwner b ++ if b ∈ s.ackIn c then [.ack] else []
  | .L1Cache b, .Directory d =>
      match s.toDir with
      | some (o, v) => if o = b ∧ d = home then [.toDir v] else []
      | none => []
  | .Directory _, .Directory _ => []

section Resps

variable {V : Type} [DecidableEq C] [DecidableEq D] {home : D} {s s' : Abs C V}

/-- The responses on their way depend on the data in flight to the caches, on the acknowledgements
and on the data for the directory only. -/
theorem resps_congr (hdir : ∀ z, (s'.ph z).fromDir = (s.ph z).fromDir)
    (howner : ∀ z o, (s'.ph z).fromOwner o = (s.ph z).fromOwner o) (hack : s'.ackIn = s.ackIn)
    (htd : s'.toDir = s.toDir) (src dst : MachineID C D) :
    s'.resps home src dst = s.resps home src dst := by
  cases src <;> cases dst <;> simp only [resps, hdir, howner, hack, htd]

/-- An acknowledgement is sent. -/
theorem resps_ack {c r : C} (hsrc : ∀ z, (s'.ph z).src = (s.ph z).src)
    (hack : s'.ackIn = Function.update s.ackIn r (insert c (s.ackIn r))) (hc : c ∉ s.ackIn r)
    (htd : s'.toDir = s.toDir) (src dst : MachineID C D) :
    s'.resps home src dst = s.resps home src dst ++
      if src = .L1Cache c ∧ dst = .L1Cache r then [.ack] else [] := by
  cases src with
  | Directory d => cases dst <;> simp [resps, Phase.fromDir, hsrc, -Phase.src]
  | L1Cache o =>
      cases dst with
      | Directory d => simp [resps, htd]
      | L1Cache z =>
          have hsrc' : (s'.ph z).fromOwner o = (s.ph z).fromOwner o := by
            simp only [Phase.fromOwner, hsrc]
          simp only [resps, hsrc', hack]
          by_cases hz : z = r
          · subst hz
            by_cases ho : o = c
            · subst ho
              simp [hc]
            · simp [ho]
          · simp [hz]

/-- An acknowledgement is received. -/
theorem resps_unack {c r : C} (hsrc : ∀ z, (s'.ph z).src = (s.ph z).src)
    (hack : s'.ackIn = Function.update s.ackIn r ((s.ackIn r).erase c))
    (htd : s'.toDir = s.toDir) (hno : (s.ph r).fromOwner c = []) (src dst : MachineID C D) :
    s'.resps home src dst =
      if src = .L1Cache c ∧ dst = .L1Cache r then [] else s.resps home src dst := by
  cases src with
  | Directory d => cases dst <;> simp [resps, Phase.fromDir, hsrc, -Phase.src]
  | L1Cache o =>
      cases dst with
      | Directory d => simp [resps, htd]
      | L1Cache z =>
          have hsrc' : (s'.ph z).fromOwner o = (s.ph z).fromOwner o := by
            simp only [Phase.fromOwner, hsrc]
          simp only [resps, hsrc', hack]
          by_cases hz : z = r
          · subst hz
            by_cases ho : o = c
            · subst ho
              simp [hno]
            · simp [ho]
          · simp [hz]

/-- The former owner `c` sends its data to `r`. -/
theorem resps_serve {c r : C} {f : C} {v : V} (hsrc : ∀ z, z ≠ r → (s'.ph z).src = (s.ph z).src)
    (hr : (s.ph r).src = some (.fwd f)) (hr' : (s'.ph r).src = some (.owner c v))
    (hack : s'.ackIn = s.ackIn) (hno : c ∉ s.ackIn r) (z : C) (src : MachineID C D) :
    s'.resps home src (.L1Cache z) = s.resps home src (.L1Cache z) ++
      if src = .L1Cache c ∧ z = r then [.owner v] else [] := by
  by_cases hz : z = r
  · subst hz
    cases src with
    | Directory d => simp [resps, Phase.fromDir, hr, hr', -Phase.src]
    | L1Cache o =>
        simp only [resps, Phase.fromOwner, hr, hr', hack]
        by_cases ho : o = c
        · subst ho
          simp [hno]
        · simp [ho, Ne.symm ho]
  · cases src with
    | Directory d => simp [resps, Phase.fromDir, hsrc z hz, -Phase.src]
    | L1Cache o => simp [resps, Phase.fromOwner, hsrc z hz, hz, hack, -Phase.src]

/-- The data that a cache waits for is received from the directory. -/
theorem resps_fromDir {c : C} {v : V} {k : ℕ} (hsrc : ∀ z, z ≠ c → (s'.ph z).src = (s.ph z).src)
    (hc : (s.ph c).src = some (.dir v k)) (hc' : (s'.ph c).src = none)
    (hack : s'.ackIn = s.ackIn) (htd : s'.toDir = s.toDir) (src dst : MachineID C D) :
    s'.resps home src dst =
      if src = .Directory home ∧ dst = .L1Cache c then [] else s.resps home src dst := by
  cases dst with
  | Directory d => cases src <;> simp [resps, htd]
  | L1Cache z =>
      by_cases hz : z = c
      · subst hz
        cases src <;> simp [resps, Phase.fromDir, Phase.fromOwner, hc, hc', hack, -Phase.src]
      · cases src <;> simp [resps, Phase.fromDir, Phase.fromOwner, hsrc z hz, hz, -Phase.src, hack]

/-- The data that a cache waits for is received from the former owner. -/
theorem resps_fromOwner {c o : C} {v : V} (hsrc : ∀ z, z ≠ c → (s'.ph z).src = (s.ph z).src)
    (hc : (s.ph c).src = some (.owner o v)) (hc' : (s'.ph c).src = none) (hno : o ∉ s.ackIn c)
    (hack : s'.ackIn = s.ackIn) (htd : s'.toDir = s.toDir) (src dst : MachineID C D) :
    s'.resps home src dst =
      if src = .L1Cache o ∧ dst = .L1Cache c then [] else s.resps home src dst := by
  cases dst with
  | Directory d => cases src <;> simp [resps, htd]
  | L1Cache z =>
      by_cases hz : z = c
      · subst hz
        cases src with
        | Directory d => simp [resps, Phase.fromDir, hc, hc', -Phase.src]
        | L1Cache y =>
            by_cases hy : y = o
            · subst hy
              simp [resps, Phase.fromOwner, hc', hack, hno, -Phase.src]
            · simp [resps, Phase.fromOwner, hc, hc', hack, hy, Ne.symm hy, -Phase.src]
      · cases src <;> simp [resps, Phase.fromDir, Phase.fromOwner, hsrc z hz, hz, -Phase.src, hack]

end Resps

end Abs

/-- The transient entry of the directory in a state. -/
def DtbeOk {n : ℕ} (t : Option (Directory.TBE n)) : Directory.State → Prop
  | .I | .S | .M => t = none
  | d => ∃ off blk, t = some ⟨off, d, blk, 0⟩

/-- The request at the memory controller. -/
def MemOk {C D A : Type} {n : ℕ} (q : Multiset (MemoryMsg C D A n)) :
    Option (MemoryRequestType × C × DataBlock n) → Prop
  | none => q = 0
  | some (t, c, d) => ∃ m, q = {m} ∧ m.type = t ∧ m.originalRequestorMachId = .L1Cache c ∧
      m.dataBlk = d

/-! ### The relation -/

section Rel

variable {C D A : Type} [DecidableEq C] [DecidableEq D] {n : ℕ}

/-- **The view of a block is described by an abstract state.** -/
structure Rel (home : D) (b : Block C D A n) (s : Abs C (DataBlock n)) : Prop where
  entry : ∀ c, b.entry c = (s.cell c).entry
  tbe : ∀ c, b.tbe c = (s.cell c).tbe
  dentry : b.dentry = s.dirEntry
  dtbe : DtbeOk b.dtbe s.dst
  req : ∀ c, (s.cell c).ReqOk c (b.req c home)
  away : ∀ c d, d ≠ home → b.req c d = []
  fwd : ∀ c, List.Forall₂ Fwd.Matches (s.ph c).fwds (b.fwd c)
  stray : ∀ d c, b.stray d c = []
  resp : ∀ src dst, List.Forall₂ Resp.Matches (s.resps home src dst) (b.resp src dst)
  mem : MemOk (b.mem home) s.mem
  memAway : ∀ d, d ≠ home → b.mem d = 0
  time : s.time = b.time

namespace Rel

variable {home : D} {b b₁ : Block C D A n} {s s' : Abs C (DataBlock n)} {c : C}

/-- Messages about a block stay with its home directory. -/
theorem homed (h : Rel home b s) : b.Homed home where
  req := h.away
  stray := h.stray
  resp src d hd := by
    have hr := h.resp src (.Directory d)
    have he : s.resps home src (.Directory d) = [] := by
      cases src with
      | L1Cache o =>
          simp only [Abs.resps]
          split
          · rw [if_neg (fun e => hd e.2)]
          · rfl
      | Directory _ => rfl
    rw [he] at hr
    exact List.forall₂_nil_left_iff.1 hr
  mem := h.memAway

/-- Time passes. -/
theorem tick (h : Rel home b s) :
    Rel home { b with time := b.time + 1 } { s with time := s.time + 1 } :=
  ⟨h.entry, h.tbe, h.dentry, h.dtbe, h.req, h.away, h.fwd, h.stray, h.resp, h.mem, h.memAway,
    congrArg (· + 1) h.time⟩

/-- A view with the same lines, entries, requests and memory requests. -/
structure Aside (b₁ b : Block C D A n) : Prop where
  entry : b₁.entry = b.entry
  tbe : b₁.tbe = b.tbe
  dentry : b₁.dentry = b.dentry
  dtbe : b₁.dtbe = b.dtbe
  req : b₁.req = b.req
  stray : b₁.stray = b.stray
  mem : b₁.mem = b.mem
  time : b₁.time = b.time

omit [DecidableEq C] [DecidableEq D] in
theorem Aside.refl (b : Block C D A n) : Aside b b := ⟨rfl, rfl, rfl, rfl, rfl, rfl, rfl, rfl⟩

omit [DecidableEq D] in
theorem Aside.setFwd (b : Block C D A n) (c : C) (q : List (RequestMsg C D A n)) :
    Aside (b.setFwd c q) b := ⟨rfl, rfl, rfl, rfl, rfl, rfl, rfl, rfl⟩

theorem Aside.setResp (b : Block C D A n) (src dst : MachineID C D)
    (q : List (ResponseMsg C D A n)) : Aside (b.setResp src dst q) b :=
  ⟨rfl, rfl, rfl, rfl, rfl, rfl, rfl, rfl⟩

/-- The responses after a cache transition. -/
theorem resp_l1Finish (b : Block C D A n) (c : C) (x : L1Cache.Ctx C D A n)
    (src dst : MachineID C D) :
    (b.l1Finish c x).resp src dst = b.resp src dst ++
      if src = .L1Cache c then x.responseNetworkOut.filter fun m => dst ∈ m.destination
      else [] := by
  by_cases h : src = .L1Cache c
  · subst h
    simp [Block.l1Finish]
  · simp [Block.l1Finish, h]

/-- The responses after a directory transition. -/
theorem resp_dirFinish (b : Block C D A n) (home : D) (x : Directory.Ctx C D A n)
    (src dst : MachineID C D) :
    (b.dirFinish home x).resp src dst = b.resp src dst ++
      if src = .Directory home then x.responseNetworkOut.filter fun m => dst ∈ m.destination
      else [] := by
  by_cases h : src = .Directory home
  · subst h
    simp [Block.dirFinish]
  · simp [Block.dirFinish, h]

/-- A message of the right list matches one of the left list. -/
theorem exists_left_of_mem {α β : Type} {R : α → β → Prop} {l : List α} {l' : List β}
    (h : List.Forall₂ R l l') {y : β} (hy : y ∈ l') : ∃ x ∈ l, R x y := by
  induction h with
  | nil => exact absurd hy List.not_mem_nil
  | @cons x z l l' hxz _ ih =>
      rcases List.mem_cons.1 hy with rfl | hy
      · exact ⟨x, List.mem_cons_self, hxz⟩
      · obtain ⟨w, hw, hwy⟩ := ih hy
        exact ⟨w, List.mem_cons_of_mem x hw, hwy⟩

/-- A message of the left list is matched by one of the right list. -/
theorem exists_right_of_mem {α β : Type} {R : α → β → Prop} {l : List α} {l' : List β}
    (h : List.Forall₂ R l l') {x : α} (hx : x ∈ l) : ∃ y ∈ l', R x y :=
  exists_left_of_mem (R := flip R) h.flip hx

/-- One message more on both sides, under the same condition. -/
theorem forall₂_ite {α β : Type} {R : α → β → Prop} {p q : Prop} [Decidable p] [Decidable q]
    {a : α} {m : β} (hpq : p ↔ q) (h : R a m) :
    List.Forall₂ R (if p then [a] else []) (if q then [m] else []) := by
  by_cases hp : p
  · rw [if_pos hp, if_pos (hpq.1 hp)]
    exact List.Forall₂.cons h List.Forall₂.nil
  · rw [if_neg hp, if_neg fun hq => hp (hpq.2 hq)]
    exact List.Forall₂.nil

/-- Two abstract states with the same directory, one move apart. -/
structure SameDir (s' s : Abs C (DataBlock n)) : Prop where
  dst : s'.dst = s.dst
  ddata : s'.ddata = s.ddata
  sharers : s'.sharers = s.sharers
  owner : s'.owner = s.owner
  mem : s'.mem = s.mem
  time : s'.time = s.time + 1

/-- What has to be checked after a cache transition that dequeued a message or none. -/
theorem l1Finish (h : Rel home b s) (hb : Aside b₁ b) {x : L1Cache.Ctx C D A n}
    (hentry : x.cacheEntry = (s'.cell c).entry) (htbe : x.tbe = (s'.cell c).tbe)
    (hother : ∀ z, z ≠ c → (s'.cell z).Same (s.cell z))
    (hreq : (s'.cell c).ReqOk c
      (b.req c home ++ x.requestNetworkOut.filter fun m => .Directory home ∈ m.destination))
    (haway : ∀ d, d ≠ home →
      (x.requestNetworkOut.filter fun m => .Directory d ∈ m.destination) = [])
    (hfwd : ∀ z, List.Forall₂ Fwd.Matches (s'.ph z).fwds (b₁.fwd z))
    (hresp : ∀ src dst, List.Forall₂ Resp.Matches (s'.resps home src dst)
      ((b₁.l1Finish c x).resp src dst))
    (hd : SameDir s' s) : Rel home (b₁.l1Finish c x) s' where
  entry z := by
    simp only [Block.l1Finish, hb.entry]
    by_cases hz : z = c
    · subst hz
      rw [Function.update_self, hentry]
    · rw [Function.update_of_ne hz, h.entry, (hother z hz).entry]
  tbe z := by
    simp only [Block.l1Finish, hb.tbe]
    by_cases hz : z = c
    · subst hz
      rw [Function.update_self, htbe]
    · rw [Function.update_of_ne hz, h.tbe, (hother z hz).tbe]
  dentry := by
    change b₁.dentry = _
    rw [hb.dentry, h.dentry]
    simp only [Abs.dirEntry, hd.dst, hd.ddata, hd.sharers, hd.owner]
  dtbe := by
    change DtbeOk b₁.dtbe _
    rw [hb.dtbe, hd.dst]
    exact h.dtbe
  req z := by
    simp only [Block.l1Finish, hb.req]
    by_cases hz : z = c
    · subst hz
      rw [Function.update_self]
      exact hreq
    · rw [Function.update_of_ne hz]
      exact (hother z hz).reqOk (h.req z)
  away z d hne := by
    simp only [Block.l1Finish, hb.req]
    by_cases hz : z = c
    · subst hz
      rw [Function.update_self, h.away z d hne, haway d hne]
      rfl
    · rw [Function.update_of_ne hz]
      exact h.away z d hne
  fwd := hfwd
  stray := by
    change ∀ d c, b₁.stray d c = []
    rw [hb.stray]
    exact h.stray
  resp := hresp
  mem := by
    change MemOk (b₁.mem home) _
    rw [hb.mem, hd.mem]
    exact h.mem
  memAway := by
    change ∀ d, d ≠ home → b₁.mem d = 0
    rw [hb.mem]
    exact h.memAway
  time := by
    change _ = b₁.time + 1
    rw [hb.time, hd.time, h.time]

/-- What has to be checked after a directory transition that dequeued a message or none. -/
theorem dirFinish (h : Rel home b s) (hentry : b₁.entry = b.entry) (htbe : b₁.tbe = b.tbe)
    (hstray : b₁.stray = b.stray) (htime₁ : b₁.time = b.time)
    (hreqs : ∀ z d, d ≠ home → b₁.req z d = b.req z d)
    (hmems : ∀ d, d ≠ home → b₁.mem d = b.mem d) {x : Directory.Ctx C D A n}
    (hcell : ∀ z, (s'.cell z).entry = (s.cell z).entry ∧ (s'.cell z).tbe = (s.cell z).tbe)
    (hdentry : x.entry = s'.dirEntry) (hdtbe : DtbeOk x.tbe s'.dst)
    (hreq : ∀ z, (s'.cell z).ReqOk z (b₁.req z home))
    (hfwd : ∀ z, List.Forall₂ Fwd.Matches (s'.ph z).fwds
      (b₁.fwd z ++ x.forwardNetworkOut.filter fun m => .L1Cache z ∈ m.destination))
    (hresp : ∀ src dst, List.Forall₂ Resp.Matches (s'.resps home src dst)
      ((b₁.dirFinish home x).resp src dst))
    (hmem : MemOk (b₁.mem home + (x.memQueueOut : Multiset _)) s'.mem)
    (htime : s'.time = s.time + 1) :
    Rel home (b₁.dirFinish home x) s' where
  entry z := by
    change b₁.entry z = _
    rw [hentry, h.entry, (hcell z).1]
  tbe z := by
    change b₁.tbe z = _
    rw [htbe, h.tbe, (hcell z).2]
  dentry := hdentry
  dtbe := hdtbe
  req := hreq
  away z d hd := (hreqs z d hd).trans (h.away z d hd)
  fwd := hfwd
  stray := by
    change ∀ d c, b₁.stray d c = []
    rw [hstray]
    exact h.stray
  resp := hresp
  mem := by
    simp only [Block.dirFinish, Function.update_self]
    exact hmem
  memAway d hd := by
    simp only [Block.dirFinish, Function.update_of_ne hd]
    exact (hmems d hd).trans (h.memAway d hd)
  time := by
    change _ = b₁.time + 1
    rw [htime₁, htime, h.time]

end Rel

end Rel

end Msi
