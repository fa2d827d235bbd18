/-
**One block of the MSI system.**

Controllers work on one block at a time, so the system can be read as many small systems, one for
each block.  The *view* of a block collects what the caches and the home directory hold of it and
the messages about it, wherever they are on their way: a message that the network hands over stays
in the view.  This module defines the view and computes what the effects of moves do to it;
`ArchLab/MsiRoute.lean` concludes that every step of the system is, for every block, a transition of
one controller on it, or nothing at all.

The networks keep the messages of one sender to one receiver in order, and so does the view:
requests of a cache, forwarded requests to a cache, and responses from one machine to another are
lists.  The memory controller answers in any order; its requests are a multiset.

Main definitions:

* `Msi.Block`, `Msi.System.block` — the view of a block;
* `Msi.BlockStep` — a transition of one controller on the block.

Main results:

* `Msi.System.block_l1Finish_self`, `Msi.System.block_dirFinish_self` and the lemmas around them —
  what a transition does to the views;
* `Msi.System.block_deliverRequest` and the lemmas around it — a message that is handed over leaves
  them as they are.
-/

import ArchLab.MsiSends
import ArchLab.MsiSystem
import Mathlib.Data.Multiset.AddSub
import Mathlib.Data.Multiset.Filter

set_option relaxedAutoImplicit false
set_option autoImplicit false

namespace Msi

/-! ### The view of a block -/

/-- What the system holds of one block: the lines and transient entries of the caches, the entries
of the home directory, and the messages on their way. -/
@[ext] structure Block (C D A : Type) (n : ℕ) where
  entry : C → Option (L1Cache.Entry n)
  tbe : C → Option (L1Cache.TBE n)
  dentry : Directory.Entry C D n
  dtbe : Option (Directory.TBE n)
  /-- The requests of a cache to a directory. -/
  req : C → D → List (RequestMsg C D A n)
  /-- What the home directory has sent to a cache on the forward network. -/
  fwd : C → List (RequestMsg C D A n)
  /-- What another directory has sent to a cache on the forward network. -/
  stray : D → C → List (RequestMsg C D A n)
  /-- The responses of a machine to a machine. -/
  resp : MachineID C D → MachineID C D → List (ResponseMsg C D A n)
  /-- The requests at the memory controller of a directory, answered or not. -/
  mem : D → Multiset (MemoryMsg C D A n)
  time : ℕ

namespace Block

variable {C D A : Type} [DecidableEq C] [DecidableEq D] {n : ℕ}

/-- The state of the block in a cache. -/
def state (b : Block C D A n) (c : C) : L1Cache.State := L1Cache.getState (b.tbe c) (b.entry c)

/-- The environment of a cache transition on the block. -/
def l1Env (b : Block C D A n) (cfg : Config D A) (a : A) (c : C) (avail : Bool)
    (storeData : DataBlock n) : L1Cache.Env C D A n where
  machineID := c
  address := a
  home := cfg.mapAddressToDirectory a
  cacheAvail := avail
  sendEvictions := cfg.sendEvictions
  time := b.time
  storeData := storeData

/-- The environment of a directory transition on the block. -/
def dirEnv (b : Block C D A n) (cfg : Config D A) (a : A) : Directory.Env D A where
  machineID := cfg.mapAddressToDirectory a
  address := a
  time := b.time

/-- The block after a transition of cache `c`. -/
def l1Finish (b : Block C D A n) (c : C) (x : L1Cache.Ctx C D A n) : Block C D A n :=
  { b with
    entry := Function.update b.entry c x.cacheEntry
    tbe := Function.update b.tbe c x.tbe
    req := Function.update b.req c fun d =>
      b.req c d ++ x.requestNetworkOut.filter fun m => .Directory d ∈ m.destination
    resp := Function.update b.resp (.L1Cache c) fun dst =>
      b.resp (.L1Cache c) dst ++ x.responseNetworkOut.filter fun m => dst ∈ m.destination
    time := b.time + 1 }

/-- The block after a transition of its home directory. -/
def dirFinish (b : Block C D A n) (home : D) (x : Directory.Ctx C D A n) : Block C D A n :=
  { b with
    dentry := x.entry
    dtbe := x.tbe
    fwd := fun c =>
      b.fwd c ++ x.forwardNetworkOut.filter fun m => .L1Cache c ∈ m.destination
    resp := Function.update b.resp (.Directory home) fun dst =>
      b.resp (.Directory home) dst ++ x.responseNetworkOut.filter fun m => dst ∈ m.destination
    mem := Function.update b.mem home (b.mem home + x.memQueueOut)
    time := b.time + 1 }

/-- Replace the requests of a cache to a directory. -/
def setReq (b : Block C D A n) (c : C) (d : D) (q : List (RequestMsg C D A n)) : Block C D A n :=
  { b with req := Function.update b.req c (Function.update (b.req c) d q) }

/-- Replace what a cache is sent by the home directory. -/
def setFwd (b : Block C D A n) (c : C) (q : List (RequestMsg C D A n)) : Block C D A n :=
  { b with fwd := Function.update b.fwd c q }

/-- Replace the responses of a machine to a machine. -/
def setResp (b : Block C D A n) (src dst : MachineID C D) (q : List (ResponseMsg C D A n)) :
    Block C D A n :=
  { b with resp := Function.update b.resp src (Function.update (b.resp src) dst q) }

/-- Replace the requests at the memory controller of a directory. -/
def setMem (b : Block C D A n) (d : D) (q : Multiset (MemoryMsg C D A n)) : Block C D A n :=
  { b with mem := Function.update b.mem d q }

omit [DecidableEq D] in
@[simp] theorem fwd_setFwd_self (b : Block C D A n) (c : C) (q : List (RequestMsg C D A n)) :
    (b.setFwd c q).fwd c = q := by
  simp [setFwd]

omit [DecidableEq D] in
theorem fwd_setFwd_of_ne (b : Block C D A n) {c z : C} (q : List (RequestMsg C D A n))
    (h : z ≠ c) : (b.setFwd c q).fwd z = b.fwd z := by
  simp [setFwd, h]

theorem req_setReq (b : Block C D A n) (c z : C) (d e : D) (q : List (RequestMsg C D A n)) :
    (b.setReq c d q).req z e = if z = c ∧ e = d then q else b.req z e := by
  by_cases hz : z = c
  · subst hz
    by_cases he : e = d
    · subst he
      simp [setReq]
    · simp [setReq, he]
  · simp [setReq, hz]

theorem resp_setResp (b : Block C D A n) (src dst src' dst' : MachineID C D)
    (q : List (ResponseMsg C D A n)) :
    (b.setResp src dst q).resp src' dst' =
      if src' = src ∧ dst' = dst then q else b.resp src' dst' := by
  by_cases hs : src' = src
  · subst hs
    by_cases hd : dst' = dst
    · subst hd
      simp [setResp]
    · simp [setResp, hd]
  · simp [setResp, hs]

omit [DecidableEq C] in
@[simp] theorem mem_setMem_self (b : Block C D A n) (d : D) (q : Multiset (MemoryMsg C D A n)) :
    (b.setMem d q).mem d = q := by
  simp [setMem]

omit [DecidableEq C] in
theorem mem_setMem_of_ne (b : Block C D A n) {d e : D} (q : Multiset (MemoryMsg C D A n))
    (h : e ≠ d) : (b.setMem d q).mem e = b.mem e := by
  simp [setMem, h]

/-- All messages about the block are at its home directory or on the way to or from it. -/
structure Homed (home : D) (b : Block C D A n) : Prop where
  req : ∀ c d, d ≠ home → b.req c d = []
  stray : ∀ d c, b.stray d c = []
  resp : ∀ src d, d ≠ home → b.resp src (.Directory d) = []
  mem : ∀ d, d ≠ home → b.mem d = 0

end Block

open Msi.System (popped)

/-- A transition of one controller on the block, with what it reports. -/
inductive BlockStep {C D A : Type} [DecidableEq C] [DecidableEq D] {n : ℕ}
    (cfg : Config D A) (a : A) (b : Block C D A n) : Option (Report C D A n) → Block C D A n → Prop
  /-- Something else happens. -/
  | quiet : BlockStep cfg a b none { b with time := b.time + 1 }
  /-- A cache processes a request of its processor. -/
  | mandatory (c : C) (r : RubyRequest A) (avail : Bool) (v : DataBlock n)
      (x : L1Cache.Ctx C D A n) (hav : b.entry c = none → avail = true)
      (hx : L1Cache.mandatoryQueueIn (b.l1Env cfg a c avail v) (b.entry c) (b.tbe c) r = .valid x) :
      BlockStep cfg a b (some ⟨c, a, none, b.state c, x⟩) (b.l1Finish c x)
  /-- A cache makes room for another block. -/
  | replacement (c : C) (r : RubyRequest A) (avail : Bool) (v : DataBlock n)
      (x : L1Cache.Ctx C D A n) (he : b.entry c ≠ none)
      (hx : L1Cache.mandatoryQueueInReplacement (b.l1Env cfg a c avail v) (b.entry c) (b.tbe c) r =
        .valid x) :
      BlockStep cfg a b (some ⟨c, a, none, b.state c, x⟩) (b.l1Finish c x)
  /-- A cache processes a message of the home directory. -/
  | forward (c : C) (avail : Bool) (m : RequestMsg C D A n) (q : List (RequestMsg C D A n))
      (x : L1Cache.Ctx C D A n) (hq : b.fwd c = m :: q)
      (hx : L1Cache.forwardRequestNetworkIn (b.l1Env cfg a c avail default) (b.entry c)
        (b.tbe c) m =
        .valid x) :
      BlockStep cfg a b (some ⟨c, a, some m, b.state c, x⟩)
        ((b.setFwd c (popped x.forwardRequestNetworkIn (m :: q))).l1Finish c x)
  /-- A cache processes a response. -/
  | response (c : C) (avail : Bool) (v : DataBlock n) (src : MachineID C D)
      (m : ResponseMsg C D A n) (q : List (ResponseMsg C D A n)) (x : L1Cache.Ctx C D A n)
      (hm : m.sender = src) (hq : b.resp src (.L1Cache c) = m :: q)
      (hx : L1Cache.responseNetworkIn (b.l1Env cfg a c avail v) (b.entry c) (b.tbe c) m =
        .valid x) :
      BlockStep cfg a b (some ⟨c, a, none, b.state c, x⟩)
        ((b.setResp src (.L1Cache c) (popped x.responseNetworkIn (m :: q))).l1Finish c x)
  /-- The home directory processes a request. -/
  | request (c : C) (m : RequestMsg C D A n) (q : List (RequestMsg C D A n))
      (x : Directory.Ctx C D A n) (hm : m.requestor = .L1Cache c)
      (hq : b.req c (cfg.mapAddressToDirectory a) = m :: q)
      (hx : Directory.requestQueueIn (b.dirEnv cfg a) b.dentry b.dtbe m = .valid x) :
      BlockStep cfg a b none
        ((b.setReq c (cfg.mapAddressToDirectory a) (popped x.requestQueueIn (m :: q))).dirFinish
          (cfg.mapAddressToDirectory a) x)
  /-- The home directory processes a response. -/
  | dirResponse (src : MachineID C D) (m : ResponseMsg C D A n) (q : List (ResponseMsg C D A n))
      (x : Directory.Ctx C D A n) (hm : m.sender = src)
      (hq : b.resp src (.Directory (cfg.mapAddressToDirectory a)) = m :: q)
      (hx : Directory.responseQueueIn (b.dirEnv cfg a) b.dentry b.dtbe m = .valid x) :
      BlockStep cfg a b none
        ((b.setResp src (.Directory (cfg.mapAddressToDirectory a))
          (popped x.responseQueueIn (m :: q))).dirFinish (cfg.mapAddressToDirectory a) x)
  /-- The home directory processes an answer of its memory controller. -/
  | memory (m : MemoryMsg C D A n) (q : Multiset (MemoryMsg C D A n)) (x : Directory.Ctx C D A n)
      (hq : b.mem (cfg.mapAddressToDirectory a) = m ::ₘ q)
      (hx : Directory.memQueueIn (b.dirEnv cfg a) b.dentry b.dtbe m = .valid x) :
      BlockStep cfg a b none
        ((b.setMem (cfg.mapAddressToDirectory a)
          (if x.memQueueIn.isNone then q else m ::ₘ q)).dirFinish (cfg.mapAddressToDirectory a) x)

namespace System

variable {C D A : Type} [DecidableEq C] [DecidableEq D] [DecidableEq A] {n : ℕ} {cfg : Config D A}

/-- The response queue of a machine. -/
def responseQueue (s : System C D A n cfg) : MachineID C D → List (ResponseMsg C D A n)
  | .L1Cache c => (s.l1 c).responseToCache
  | .Directory d => (s.dir d).responseToDir

/-- The view of a block. -/
def block (s : System C D A n cfg) (a : A) : Block C D A n where
  entry c := s.entry c a
  tbe c := (s.l1 c).tbes a
  dentry := s.dirEntry a
  dtbe := s.dirTbe a
  req c d :=
    ((s.dir d).requestToDir.filter fun m => m.address = a ∧ m.requestor = .L1Cache c) ++
      (s.requestNet c d).filter fun m => m.address = a
  fwd c :=
    ((s.l1 c).forwardToCache.filter fun m => m.address = a) ++
      (s.forwardNet (cfg.mapAddressToDirectory a) c).filter fun m => m.address = a
  stray d c :=
    if d = cfg.mapAddressToDirectory a then []
    else (s.forwardNet d c).filter fun m => m.address = a
  resp src dst :=
    ((s.responseQueue dst).filter fun m => m.address = a ∧ m.sender = src) ++
      (s.responseNet src dst).filter fun m => m.address = a
  mem d := (((s.dir d).memInput ++ (s.dir d).memResponse).filter fun m => m.address = a : List _)
  time := s.time

/-! ### The effect of a transition on the views -/

/-- Taking the head of a queue away and looking for messages of one kind, if the head is one. -/
theorem popped_filter_pos {α : Type} {p : α → Bool} {h : Option α} {m : α} {q l : List α}
    (hm : p m = true) :
    (popped h (m :: q)).filter p ++ l = popped h (m :: (q.filter p ++ l)) := by
  unfold popped
  split
  · rfl
  · simp [hm]

/-- The same, if the head is of another kind. -/
theorem popped_filter_neg {α : Type} {p : α → Bool} {h : Option α} {m : α} {q : List α}
    (hm : p m = false) : (popped h (m :: q)).filter p = (m :: q).filter p := by
  unfold popped
  split
  · simp [hm]
  · rfl

/-- Messages about one block, seen from another. -/
theorem filter_sent_of_ne {α : Type} {f : α → A} {l : List α} {a a' : A} (p : α → Bool)
    (h : ∀ m ∈ l, f m = a) (ha : a' ≠ a) : (l.filter p).filter (fun m => f m = a') = [] := by
  rw [List.filter_eq_nil_iff]
  intro m hm e
  exact ha ((of_decide_eq_true e).symm.trans (h m (List.mem_of_mem_filter hm)))

/-- Replace a cache. -/
def setCache (s : System C D A n cfg) (c : C) (k : Cache C D A n cfg) : System C D A n cfg :=
  { s with l1 := Function.update s.l1 c k }

/-- Replace a directory. -/
def setDir (s : System C D A n cfg) (d : D) (k : Dir C D A n) : System C D A n cfg :=
  { s with dir := Function.update s.dir d k }

section L1

variable {s : System C D A n cfg} {c : C} {a : A} {x : L1Cache.Ctx C D A n} {v : DataBlock n}

theorem responseQueue_l1Finish (dst : MachineID C D) :
    (s.l1Finish c a x id).responseQueue dst = s.responseQueue dst := by
  cases dst with
  | L1Cache c' =>
      by_cases hc : c' = c
      · subst hc
        simp [responseQueue, l1Finish]
      · simp [responseQueue, l1Finish, hc]
  | Directory d => rfl

/-- A cache transition, seen from its block. -/
theorem block_l1Finish_self (hs : L1Cache.Sends (s.l1Env c a v) (s.entry c a) x) :
    (s.l1Finish c a x id).block a = (s.block a).l1Finish c x := by
  ext1
  · funext c'
    by_cases hc : c' = c
    · subst hc
      simpa [block, entry, l1Finish, Block.l1Finish] using
        CacheMemory.lookup_assign_self _ _ _ fun h₁ h₂ => hs.room h₁ h₂
    · simp [block, entry, l1Finish, Block.l1Finish, hc]
  · funext c'
    by_cases hc : c' = c
    · subst hc
      simp [block, l1Finish, Block.l1Finish]
    · simp [block, l1Finish, Block.l1Finish, hc]
  · rfl
  · rfl
  · funext c' d
    by_cases hc : c' = c
    · subst hc
      simpa [block, l1Finish, Block.l1Finish, l1Env, List.filter_append, -List.filter_filter] using
        fun m hm _ => (hs.request m hm).1
    · simp [block, l1Finish, Block.l1Finish, hc]
  · funext c'
    by_cases hc : c' = c
    · subst hc
      simp [block, l1Finish, Block.l1Finish]
    · simp [block, l1Finish, Block.l1Finish, hc]
  · rfl
  · funext src dst
    by_cases hc : src = .L1Cache c
    · subst hc
      simp only [block, Block.l1Finish, responseQueue_l1Finish, Function.update_self]
      simpa [l1Finish, l1Env, List.filter_append, -List.filter_filter] using
        fun m hm _ => (hs.response m hm).1
    · simp only [block, Block.l1Finish, responseQueue_l1Finish, Function.update_of_ne hc]
      simp [l1Finish, hc]
  · rfl
  · rfl

/-- A cache transition, seen from another block. -/
theorem block_l1Finish_of_ne (hs : L1Cache.Sends (s.l1Env c a v) (s.entry c a) x) {a' : A}
    (ha : a' ≠ a) :
    (s.l1Finish c a x id).block a' = { s.block a' with time := s.time + 1 } := by
  ext1
  · funext c'
    by_cases hc : c' = c
    · subst hc
      simpa [block, entry, l1Finish] using CacheMemory.lookup_assign_of_ne _ _ ha
    · simp [block, entry, l1Finish, hc]
  · funext c'
    by_cases hc : c' = c
    · subst hc
      simp [block, l1Finish, ha]
    · simp [block, l1Finish, hc]
  · rfl
  · rfl
  · funext c' d
    by_cases hc : c' = c
    · subst hc
      have hf := filter_sent_of_ne (fun m => decide (MachineID.Directory d ∈ m.destination))
        (fun m hm => (hs.request m hm).1) ha
      simp [block, l1Finish, List.filter_append, -List.filter_filter, hf]
    · simp [block, l1Finish, hc]
  · funext c'
    by_cases hc : c' = c
    · subst hc
      simp [block, l1Finish]
    · simp [block, l1Finish, hc]
  · rfl
  · funext src dst
    by_cases hc : src = .L1Cache c
    · subst hc
      have hf := filter_sent_of_ne (fun m => decide (dst ∈ m.destination))
        (fun m hm => (hs.response m hm).1) ha
      simp only [block, responseQueue_l1Finish]
      simp [l1Finish, List.filter_append, -List.filter_filter, hf]
    · simp only [block, responseQueue_l1Finish]
      simp [l1Finish, hc]
  · rfl
  · rfl

end L1

section Directory

variable {s : System C D A n cfg} {d : D} {a : A} {x : Directory.Ctx C D A n}

theorem responseQueue_dirFinish (dst : MachineID C D) :
    (s.dirFinish d a x id).responseQueue dst = s.responseQueue dst := by
  cases dst with
  | L1Cache c => rfl
  | Directory d' =>
      by_cases hd : d' = d
      · subst hd
        simp [responseQueue, dirFinish]
      · simp [responseQueue, dirFinish, hd]

/-- A transition of the home directory, seen from its block. -/
theorem block_dirFinish_self (hs : Directory.Sends (s.dirEnv d a) x)
    (hd : cfg.mapAddressToDirectory a = d) :
    (s.dirFinish d a x id).block a = (s.block a).dirFinish d x := by
  subst hd
  ext1
  · rfl
  · rfl
  · simp [block, dirEntry, dirFinish, Block.dirFinish]
  · simp [block, dirTbe, dirFinish, Block.dirFinish]
  · funext c d
    by_cases hd : d = cfg.mapAddressToDirectory a
    · subst hd
      simp [block, dirFinish, Block.dirFinish]
    · simp [block, dirFinish, Block.dirFinish, hd]
  · funext c
    simpa [block, dirFinish, Block.dirFinish, dirEnv, List.filter_append, -List.filter_filter] using
      fun m hm _ => (hs.forward m hm).1
  · funext d c
    by_cases hd : d = cfg.mapAddressToDirectory a
    · simp [block, Block.dirFinish, hd]
    · simp [block, dirFinish, Block.dirFinish, hd]
  · funext src dst
    by_cases hc : src = .Directory (cfg.mapAddressToDirectory a)
    · subst hc
      simp only [block, Block.dirFinish, responseQueue_dirFinish, Function.update_self]
      simpa [dirFinish, dirEnv, List.filter_append, -List.filter_filter] using
        fun m hm _ => (hs.response m hm).1
    · simp only [block, Block.dirFinish, responseQueue_dirFinish, Function.update_of_ne hc]
      simp [dirFinish, hc]
  · funext d
    by_cases hd : d = cfg.mapAddressToDirectory a
    · subst hd
      have hf : x.memQueueOut.filter (fun m => m.address = a) = x.memQueueOut := by
        rw [List.filter_eq_self]
        exact fun m hm => decide_eq_true (hs.memory m hm)
      simp only [block, dirFinish, Block.dirFinish, Function.update_self, id,
        List.filter_append, hf,
        Multiset.coe_add, List.append_assoc]
      exact Multiset.coe_eq_coe.2 (List.perm_append_comm.append_left _)
    · simp [block, dirFinish, Block.dirFinish, hd]
  · rfl

/-- A transition of a directory, seen from another block. -/
theorem block_dirFinish_of_ne (hs : Directory.Sends (s.dirEnv d a) x) {a' : A} (ha : a' ≠ a) :
    (s.dirFinish d a x id).block a' = { s.block a' with time := s.time + 1 } := by
  ext1
  · rfl
  · rfl
  · by_cases hd : cfg.mapAddressToDirectory a' = d
    · subst hd
      simp [block, dirEntry, dirFinish, ha]
    · simp [block, dirEntry, dirFinish, hd]
  · by_cases hd : cfg.mapAddressToDirectory a' = d
    · subst hd
      simp [block, dirTbe, dirFinish, ha]
    · simp [block, dirTbe, dirFinish, hd]
  · funext c d'
    by_cases hd : d' = d
    · subst hd
      simp [block, dirFinish]
    · simp [block, dirFinish, hd]
  · funext c
    by_cases hd : cfg.mapAddressToDirectory a' = d
    · subst hd
      have hf := filter_sent_of_ne (fun m => decide (MachineID.L1Cache c ∈ m.destination))
        (fun m hm => (hs.forward m hm).1) ha
      simp [block, dirFinish, List.filter_append, -List.filter_filter, hf]
    · simp [block, dirFinish, hd]
  · funext d' c
    by_cases hd : d' = d
    · subst hd
      have hf := filter_sent_of_ne (fun m => decide (MachineID.L1Cache c ∈ m.destination))
        (fun m hm => (hs.forward m hm).1) ha
      simp [block, dirFinish, List.filter_append, -List.filter_filter, hf]
    · simp [block, dirFinish, hd]
  · funext src dst
    by_cases hc : src = .Directory d
    · subst hc
      have hf := filter_sent_of_ne (fun m => decide (dst ∈ m.destination))
        (fun m hm => (hs.response m hm).1) ha
      simp only [block, responseQueue_dirFinish]
      simp [dirFinish, List.filter_append, -List.filter_filter, hf]
    · simp only [block, responseQueue_dirFinish]
      simp [dirFinish, hc]
  · funext d'
    by_cases hd : d' = d
    · subst hd
      have hf : x.memQueueOut.filter (fun m => m.address = a') = [] := by
        rw [List.filter_eq_nil_iff]
        exact fun m hm e => ha ((of_decide_eq_true e).symm.trans (hs.memory m hm))
      simp [block, dirFinish, List.filter_append, hf]
    · simp [block, dirFinish, hd]
  · rfl

end Directory

section Queues

variable {s : System C D A n cfg} {c : C} {d : D} {a : A}

theorem l1Finish_mandatory (x : L1Cache.Ctx C D A n)
    (f : List (RubyRequest A) → List (RubyRequest A)) :
    (s.l1Finish c a x fun k => { k with mandatoryQueue := f k.mandatoryQueue }) =
      (s.setCache c { s.l1 c with mandatoryQueue := f (s.l1 c).mandatoryQueue }).l1Finish c a x
        id := by
  simp [l1Finish, setCache]

theorem l1Finish_forward (x : L1Cache.Ctx C D A n)
    (f : List (RequestMsg C D A n) → List (RequestMsg C D A n)) :
    (s.l1Finish c a x fun k => { k with forwardToCache := f k.forwardToCache }) =
      (s.setCache c { s.l1 c with forwardToCache := f (s.l1 c).forwardToCache }).l1Finish c a x
        id := by
  simp [l1Finish, setCache]

theorem l1Finish_response (x : L1Cache.Ctx C D A n)
    (f : List (ResponseMsg C D A n) → List (ResponseMsg C D A n)) :
    (s.l1Finish c a x fun k => { k with responseToCache := f k.responseToCache }) =
      (s.setCache c { s.l1 c with responseToCache := f (s.l1 c).responseToCache }).l1Finish c a x
        id := by
  simp [l1Finish, setCache]

/-- The view after the queues of a cache have been replaced. -/
theorem block_setCache {k : Cache C D A n cfg} (hk : k.cacheMemory = (s.l1 c).cacheMemory)
    (ht : k.tbes = (s.l1 c).tbes) :
    (s.setCache c k).block a =
      { s.block a with
        fwd := Function.update (s.block a).fwd c
          ((k.forwardToCache.filter fun m => m.address = a) ++
            (s.forwardNet (cfg.mapAddressToDirectory a) c).filter fun m => m.address = a)
        resp := fun src => Function.update ((s.block a).resp src) (.L1Cache c)
          ((k.responseToCache.filter fun m => m.address = a ∧ m.sender = src) ++
            (s.responseNet src (.L1Cache c)).filter fun m => m.address = a) } := by
  ext1
  · funext c'
    by_cases hc : c' = c
    · subst hc
      simp [block, entry, setCache, hk]
    · simp [block, entry, setCache, hc]
  · funext c'
    by_cases hc : c' = c
    · subst hc
      simp [block, setCache, ht]
    · simp [block, setCache, hc]
  · rfl
  · rfl
  · rfl
  · funext c'
    by_cases hc : c' = c
    · subst hc
      simp [block, setCache]
    · simp [block, setCache, hc]
  · rfl
  · funext src dst
    by_cases hc : dst = .L1Cache c
    · subst hc
      simp [block, setCache, responseQueue]
    · cases dst with
      | Directory d => simp [block, setCache, responseQueue]
      | L1Cache c' =>
          have hc' : c' ≠ c := fun e => hc (by rw [e])
          simp [block, setCache, responseQueue, hc']
  · rfl
  · rfl

/-- The mandatory queue belongs to no block. -/
theorem block_setMandatory (q : List (RubyRequest A)) (a : A) :
    (s.setCache c { s.l1 c with mandatoryQueue := q }).block a = s.block a := by
  rw [block_setCache (by rfl) (by rfl)]
  ext1 <;> try rfl
  · exact Function.update_eq_self_iff.2 rfl
  · funext src
    exact Function.update_eq_self_iff.2 rfl

/-- The head of a forward queue is taken, seen from the block it is about. -/
theorem block_popForward_self {m : RequestMsg C D A n} {q : List (RequestMsg C D A n)}
    {h : Option (RequestMsg C D A n)} (hq : (s.l1 c).forwardToCache = m :: q)
    (hm : m.address = a) :
    ∃ l, (s.block a).fwd c = m :: l ∧
      (s.setCache c { s.l1 c with forwardToCache := popped h (m :: q) }).block a =
        (s.block a).setFwd c (popped h (m :: l)) := by
  refine ⟨(q.filter fun m => m.address = a) ++
    (s.forwardNet (cfg.mapAddressToDirectory a) c).filter fun m => m.address = a, ?_, ?_⟩
  · simp [block, hq, hm]
  · rw [block_setCache (by rfl) (by rfl)]
    ext1 <;> try rfl
    · simp only [Block.setFwd]
      rw [popped_filter_pos (by simpa using hm)]
    · funext src
      exact Function.update_eq_self_iff.2 rfl

/-- The head of a forward queue is taken, seen from another block. -/
theorem block_popForward_of_ne {m : RequestMsg C D A n} {q : List (RequestMsg C D A n)}
    {h : Option (RequestMsg C D A n)} (hq : (s.l1 c).forwardToCache = m :: q)
    (hm : a ≠ m.address) :
    (s.setCache c { s.l1 c with forwardToCache := popped h (m :: q) }).block a = s.block a := by
  rw [block_setCache (by rfl) (by rfl)]
  ext1 <;> try rfl
  · refine Function.update_eq_self_iff.2 ?_
    simp only
    rw [popped_filter_neg (by simpa using Ne.symm hm), ← hq]
    rfl
  · funext src
    exact Function.update_eq_self_iff.2 rfl

/-- The head of a response queue is taken, seen from the block it is about. -/
theorem block_popResponse_self {m : ResponseMsg C D A n} {q : List (ResponseMsg C D A n)}
    {h : Option (ResponseMsg C D A n)} (hq : (s.l1 c).responseToCache = m :: q)
    (hm : m.address = a) :
    ∃ l, (s.block a).resp m.sender (.L1Cache c) = m :: l ∧
      (s.setCache c { s.l1 c with responseToCache := popped h (m :: q) }).block a =
        (s.block a).setResp m.sender (.L1Cache c) (popped h (m :: l)) := by
  refine ⟨(q.filter fun m' => m'.address = a ∧ m'.sender = m.sender) ++
    (s.responseNet m.sender (.L1Cache c)).filter fun m => m.address = a, ?_, ?_⟩
  · simp [block, responseQueue, hq, hm]
  · rw [block_setCache (by rfl) (by rfl)]
    ext1 <;> try rfl
    · exact Function.update_eq_self_iff.2 rfl
    · funext src
      by_cases hsrc : src = m.sender
      · subst hsrc
        simp only [Block.setResp, Function.update_self]
        rw [popped_filter_pos (by simpa using hm)]
      · simp only [Block.setResp, Function.update_of_ne hsrc]
        refine Function.update_eq_self_iff.2 ?_
        rw [popped_filter_neg (by simp [Ne.symm hsrc]), ← hq]
        rfl

/-- The head of a response queue is taken, seen from another block. -/
theorem block_popResponse_of_ne {m : ResponseMsg C D A n} {q : List (ResponseMsg C D A n)}
    {h : Option (ResponseMsg C D A n)} (hq : (s.l1 c).responseToCache = m :: q)
    (hm : a ≠ m.address) :
    (s.setCache c { s.l1 c with responseToCache := popped h (m :: q) }).block a = s.block a := by
  rw [block_setCache (by rfl) (by rfl)]
  ext1 <;> try rfl
  · exact Function.update_eq_self_iff.2 rfl
  · funext src
    refine Function.update_eq_self_iff.2 ?_
    simp only
    rw [popped_filter_neg (by simp [Ne.symm hm]), ← hq]
    rfl

theorem dirFinish_request (x : Directory.Ctx C D A n)
    (f : List (RequestMsg C D A n) → List (RequestMsg C D A n)) :
    (s.dirFinish d a x fun k => { k with requestToDir := f k.requestToDir }) =
      (s.setDir d { s.dir d with requestToDir := f (s.dir d).requestToDir }).dirFinish d a x
        id := by
  simp [dirFinish, setDir]

theorem dirFinish_response (x : Directory.Ctx C D A n)
    (f : List (ResponseMsg C D A n) → List (ResponseMsg C D A n)) :
    (s.dirFinish d a x fun k => { k with responseToDir := f k.responseToDir }) =
      (s.setDir d { s.dir d with responseToDir := f (s.dir d).responseToDir }).dirFinish d a x
        id := by
  simp [dirFinish, setDir]

theorem dirFinish_memory (x : Directory.Ctx C D A n)
    (f : List (MemoryMsg C D A n) → List (MemoryMsg C D A n)) :
    (s.dirFinish d a x fun k => { k with memResponse := f k.memResponse }) =
      (s.setDir d { s.dir d with memResponse := f (s.dir d).memResponse }).dirFinish d a x
        id := by
  simp [dirFinish, setDir]

/-- The view after the queues of a directory have been replaced. -/
theorem block_setDir {k : Dir C D A n} (hk : k.directory = (s.dir d).directory)
    (ht : k.tbes = (s.dir d).tbes) :
    (s.setDir d k).block a =
      { s.block a with
        req := fun c => Function.update ((s.block a).req c) d
          ((k.requestToDir.filter fun m => m.address = a ∧ m.requestor = .L1Cache c) ++
            (s.requestNet c d).filter fun m => m.address = a)
        resp := fun src => Function.update ((s.block a).resp src) (.Directory d)
          ((k.responseToDir.filter fun m => m.address = a ∧ m.sender = src) ++
            (s.responseNet src (.Directory d)).filter fun m => m.address = a)
        mem := Function.update (s.block a).mem d
          ((k.memInput ++ k.memResponse).filter fun m => m.address = a : List _) } := by
  ext1
  · rfl
  · rfl
  · by_cases hd : cfg.mapAddressToDirectory a = d
    · subst hd
      simp [block, dirEntry, setDir, hk]
    · simp [block, dirEntry, setDir, hd]
  · by_cases hd : cfg.mapAddressToDirectory a = d
    · subst hd
      simp [block, dirTbe, setDir, ht]
    · simp [block, dirTbe, setDir, hd]
  · funext c d'
    by_cases hd : d' = d
    · subst hd
      simp [block, setDir]
    · simp [block, setDir, hd]
  · rfl
  · rfl
  · funext src dst
    by_cases hc : dst = .Directory d
    · subst hc
      simp [block, setDir, responseQueue]
    · cases dst with
      | L1Cache c => simp [block, setDir, responseQueue]
      | Directory d' =>
          have hd : d' ≠ d := fun e => hc (by rw [e])
          simp [block, setDir, responseQueue, hd]
  · funext d'
    by_cases hd : d' = d
    · subst hd
      simp [block, setDir]
    · simp [block, setDir, hd]
  · rfl

/-- The head of a request queue is taken, seen from the block it is about. -/
theorem block_popRequest_self {m : RequestMsg C D A n} {q : List (RequestMsg C D A n)}
    {h : Option (RequestMsg C D A n)} (hq : (s.dir d).requestToDir = m :: q)
    (hm : m.address = a) (hc : m.requestor = .L1Cache c) :
    ∃ l, (s.block a).req c d = m :: l ∧
      (s.setDir d { s.dir d with requestToDir := popped h (m :: q) }).block a =
        (s.block a).setReq c d (popped h (m :: l)) := by
  refine ⟨(q.filter fun m => m.address = a ∧ m.requestor = .L1Cache c) ++
    (s.requestNet c d).filter fun m => m.address = a, ?_, ?_⟩
  · simp [block, hq, hm, hc]
  · rw [block_setDir (by rfl) (by rfl)]
    ext1 <;> try rfl
    · funext c'
      by_cases hcc : c' = c
      · subst hcc
        simp only [Block.setReq, Function.update_self]
        rw [popped_filter_pos (by simp [hm, hc])]
      · simp only [Block.setReq, Function.update_of_ne hcc]
        refine Function.update_eq_self_iff.2 ?_
        rw [popped_filter_neg (by simp [hc, Ne.symm hcc]), ← hq]
        rfl
    · funext src
      exact Function.update_eq_self_iff.2 rfl
    · exact Function.update_eq_self_iff.2 rfl

/-- The head of a request queue is taken, seen from another block. -/
theorem block_popRequest_of_ne {m : RequestMsg C D A n} {q : List (RequestMsg C D A n)}
    {h : Option (RequestMsg C D A n)} (hq : (s.dir d).requestToDir = m :: q)
    (hm : a ≠ m.address) :
    (s.setDir d { s.dir d with requestToDir := popped h (m :: q) }).block a = s.block a := by
  rw [block_setDir (by rfl) (by rfl)]
  ext1 <;> try rfl
  · funext c'
    refine Function.update_eq_self_iff.2 ?_
    simp only
    rw [popped_filter_neg (by simp [Ne.symm hm]), ← hq]
    rfl
  · funext src
    exact Function.update_eq_self_iff.2 rfl
  · exact Function.update_eq_self_iff.2 rfl

/-- The head of a directory's response queue is taken, seen from the block it is about. -/
theorem block_popDirResponse_self {m : ResponseMsg C D A n} {q : List (ResponseMsg C D A n)}
    {h : Option (ResponseMsg C D A n)} (hq : (s.dir d).responseToDir = m :: q)
    (hm : m.address = a) :
    ∃ l, (s.block a).resp m.sender (.Directory d) = m :: l ∧
      (s.setDir d { s.dir d with responseToDir := popped h (m :: q) }).block a =
        (s.block a).setResp m.sender (.Directory d) (popped h (m :: l)) := by
  refine ⟨(q.filter fun m' => m'.address = a ∧ m'.sender = m.sender) ++
    (s.responseNet m.sender (.Directory d)).filter fun m => m.address = a, ?_, ?_⟩
  · simp [block, responseQueue, hq, hm]
  · rw [block_setDir (by rfl) (by rfl)]
    ext1 <;> try rfl
    · funext c'
      exact Function.update_eq_self_iff.2 rfl
    · funext src
      by_cases hsrc : src = m.sender
      · subst hsrc
        simp only [Block.setResp, Function.update_self]
        rw [popped_filter_pos (by simpa using hm)]
      · simp only [Block.setResp, Function.update_of_ne hsrc]
        refine Function.update_eq_self_iff.2 ?_
        rw [popped_filter_neg (by simp [Ne.symm hsrc]), ← hq]
        rfl
    · exact Function.update_eq_self_iff.2 rfl

/-- The head of a directory's response queue is taken, seen from another block. -/
theorem block_popDirResponse_of_ne {m : ResponseMsg C D A n} {q : List (ResponseMsg C D A n)}
    {h : Option (ResponseMsg C D A n)} (hq : (s.dir d).responseToDir = m :: q)
    (hm : a ≠ m.address) :
    (s.setDir d { s.dir d with responseToDir := popped h (m :: q) }).block a = s.block a := by
  rw [block_setDir (by rfl) (by rfl)]
  ext1 <;> try rfl
  · funext c'
    exact Function.update_eq_self_iff.2 rfl
  · funext src
    refine Function.update_eq_self_iff.2 ?_
    simp only
    rw [popped_filter_neg (by simp [Ne.symm hm]), ← hq]
    rfl
  · exact Function.update_eq_self_iff.2 rfl

/-- An answer of the memory controller is taken, seen from the block it is about. -/
theorem block_popMemory_self {m : MemoryMsg C D A n} {q : List (MemoryMsg C D A n)}
    {h : Option (MemoryMsg C D A n)} (hq : (s.dir d).memResponse = m :: q)
    (hm : m.address = a) :
    ∃ l, (s.block a).mem d = m ::ₘ l ∧
      (s.setDir d { s.dir d with memResponse := popped h (m :: q) }).block a =
        (s.block a).setMem d (if h.isNone then l else m ::ₘ l) := by
  refine ⟨((((s.dir d).memInput ++ q).filter fun m => m.address = a : List _) :), ?_, ?_⟩
  · simp only [block, hq, Multiset.cons_coe]
    refine Multiset.coe_eq_coe.2 ?_
    simp [List.filter_append, hm]
  · rw [block_setDir (by rfl) (by rfl)]
    ext1 <;> try rfl
    · funext c'
      exact Function.update_eq_self_iff.2 rfl
    · funext src
      exact Function.update_eq_self_iff.2 rfl
    · simp only [Block.setMem, popped]
      congr 1
      split
      · rfl
      · refine Multiset.coe_eq_coe.2 ?_
        simp [List.filter_append, hm]

/-- An answer of the memory controller is taken, seen from another block. -/
theorem block_popMemory_of_ne {m : MemoryMsg C D A n} {q : List (MemoryMsg C D A n)}
    {h : Option (MemoryMsg C D A n)} (hq : (s.dir d).memResponse = m :: q)
    (hm : a ≠ m.address) :
    (s.setDir d { s.dir d with memResponse := popped h (m :: q) }).block a = s.block a := by
  rw [block_setDir (by rfl) (by rfl)]
  ext1 <;> try rfl
  · funext c'
    exact Function.update_eq_self_iff.2 rfl
  · funext src
    exact Function.update_eq_self_iff.2 rfl
  · refine Function.update_eq_self_iff.2 ?_
    simp only [List.filter_append]
    rw [popped_filter_neg (by simpa using Ne.symm hm), ← hq, ← List.filter_append]
    rfl

end Queues

/-! ### Messages that are handed over -/

section Deliver

variable {s : System C D A n cfg} {c : C} {d : D} {a : A}

theorem block_deliverRequest {m : RequestMsg C D A n} {q : List (RequestMsg C D A n)}
    (hq : s.requestNet c d = m :: q) (hm : m.requestor = .L1Cache c) :
    System.block { s with
      dir := Function.update s.dir d { s.dir d with requestToDir := (s.dir d).requestToDir ++ [m] }
      requestNet := Function.update s.requestNet c (Function.update (s.requestNet c) d q)
      time := s.time + 1 } a = { s.block a with time := s.time + 1 } := by
  have h := block_setDir (a := a) (s := s) (d := d)
    (k := { s.dir d with requestToDir := (s.dir d).requestToDir ++ [m] }) rfl rfl
  ext1
  · rfl
  · rfl
  · exact (congrArg Block.dentry h).trans rfl
  · exact (congrArg Block.dtbe h).trans rfl
  · funext c' d'
    by_cases hd : d' = d
    · subst hd
      by_cases hc : c' = c
      · subst hc
        by_cases ha : m.address = a
        · simp [block, hq, hm, ha, List.filter_append]
        · simp [block, hq, ha, List.filter_append]
      · simp [block, hc, hm, Ne.symm hc, List.filter_append]
    · by_cases hc : c' = c
      · subst hc
        simp [block, hd]
      · simp [block, hd, hc]
  · rfl
  · rfl
  · exact (congrArg Block.resp h).trans (funext fun src => Function.update_eq_self_iff.2 rfl)
  · exact (congrArg Block.mem h).trans (Function.update_eq_self_iff.2 rfl)
  · rfl

theorem block_deliverForward {m : RequestMsg C D A n} {q : List (RequestMsg C D A n)}
    (hq : s.forwardNet d c = m :: q) (hh : (s.block a).Homed (cfg.mapAddressToDirectory a)) :
    System.block { s with
      l1 := Function.update s.l1 c { s.l1 c with forwardToCache := (s.l1 c).forwardToCache ++ [m] }
      forwardNet := Function.update s.forwardNet d (Function.update (s.forwardNet d) c q)
      time := s.time + 1 } a = { s.block a with time := s.time + 1 } := by
  have h := block_setCache (a := a) (s := s) (c := c)
    (k := { s.l1 c with forwardToCache := (s.l1 c).forwardToCache ++ [m] }) rfl rfl
  have hstray : d ≠ cfg.mapAddressToDirectory a → m.address ≠ a := by
    intro hd ha
    have hs := hh.stray d c
    simp [block, hd, hq, ha] at hs
  ext1
  · exact (congrArg Block.entry h).trans rfl
  · exact (congrArg Block.tbe h).trans rfl
  · rfl
  · rfl
  · rfl
  · funext c'
    by_cases hc : c' = c
    · subst hc
      by_cases hd : cfg.mapAddressToDirectory a = d
      · subst hd
        by_cases ha : m.address = a
        · simp [block, hq, ha, List.filter_append]
        · simp [block, hq, ha, List.filter_append]
      · simp [block, hd, hstray (Ne.symm hd), List.filter_append]
    · by_cases hd : cfg.mapAddressToDirectory a = d
      · subst hd
        simp [block, hc]
      · simp [block, hd, hc]
  · funext d' c'
    by_cases hd : d' = d
    · subst hd
      by_cases hc : c' = c
      · subst hc
        by_cases hd : d' = cfg.mapAddressToDirectory a
        · simp [block, hd]
        · simp [block, hd, hq, hstray hd]
      · simp [block, hc]
    · simp [block, hd]
  · exact (congrArg Block.resp h).trans (funext fun src => Function.update_eq_self_iff.2 rfl)
  · rfl
  · rfl

theorem block_deliverToCache {src : MachineID C D} {m : ResponseMsg C D A n}
    {q : List (ResponseMsg C D A n)} (hq : s.responseNet src (.L1Cache c) = m :: q)
    (hm : m.sender = src) :
    System.block { s with
      l1 := Function.update s.l1 c
        { s.l1 c with responseToCache := (s.l1 c).responseToCache ++ [m] }
      responseNet :=
        Function.update s.responseNet src (Function.update (s.responseNet src) (.L1Cache c) q)
      time := s.time + 1 } a = { s.block a with time := s.time + 1 } := by
  have h := block_setCache (a := a) (s := s) (c := c)
    (k := { s.l1 c with responseToCache := (s.l1 c).responseToCache ++ [m] }) rfl rfl
  ext1
  · exact (congrArg Block.entry h).trans rfl
  · exact (congrArg Block.tbe h).trans rfl
  · rfl
  · rfl
  · rfl
  · exact (congrArg Block.fwd h).trans (Function.update_eq_self_iff.2 rfl)
  · rfl
  · funext src' dst
    by_cases hd : dst = .L1Cache c
    · subst hd
      by_cases hs : src' = src
      · subst hs
        by_cases ha : m.address = a
        · simp [block, responseQueue, hq, hm, ha, List.filter_append]
        · simp [block, responseQueue, hq, ha, List.filter_append]
      · simp [block, responseQueue, hs, hm, Ne.symm hs, List.filter_append]
    · have hr : responseQueue { s with
          l1 := Function.update s.l1 c
            { s.l1 c with responseToCache := (s.l1 c).responseToCache ++ [m] }
          responseNet :=
            Function.update s.responseNet src (Function.update (s.responseNet src) (.L1Cache c) q)
          time := s.time + 1 } dst = s.responseQueue dst := by
        cases dst with
        | Directory d => rfl
        | L1Cache c' =>
            have hc : c' ≠ c := fun e => hd (by rw [e])
            simp [responseQueue, hc]
      by_cases hs : src' = src
      · subst hs
        simp [block, hr, hd]
      · simp [block, hr, hs]
  · rfl
  · rfl

theorem block_deliverToDir {src : MachineID C D} {m : ResponseMsg C D A n}
    {q : List (ResponseMsg C D A n)} (hq : s.responseNet src (.Directory d) = m :: q)
    (hm : m.sender = src) :
    System.block { s with
      dir := Function.update s.dir d
        { s.dir d with responseToDir := (s.dir d).responseToDir ++ [m] }
      responseNet :=
        Function.update s.responseNet src (Function.update (s.responseNet src) (.Directory d) q)
      time := s.time + 1 } a = { s.block a with time := s.time + 1 } := by
  have h := block_setDir (a := a) (s := s) (d := d)
    (k := { s.dir d with responseToDir := (s.dir d).responseToDir ++ [m] }) rfl rfl
  ext1
  · rfl
  · rfl
  · exact (congrArg Block.dentry h).trans rfl
  · exact (congrArg Block.dtbe h).trans rfl
  · exact (congrArg Block.req h).trans (funext fun c => Function.update_eq_self_iff.2 rfl)
  · rfl
  · rfl
  · funext src' dst
    by_cases hd : dst = .Directory d
    · subst hd
      by_cases hs : src' = src
      · subst hs
        by_cases ha : m.address = a
        · simp [block, responseQueue, hq, hm, ha, List.filter_append]
        · simp [block, responseQueue, hq, ha, List.filter_append]
      · simp [block, responseQueue, hs, hm, Ne.symm hs, List.filter_append]
    · have hr : responseQueue { s with
          dir := Function.update s.dir d
            { s.dir d with responseToDir := (s.dir d).responseToDir ++ [m] }
          responseNet :=
            Function.update s.responseNet src (Function.update (s.responseNet src) (.Directory d) q)
          time := s.time + 1 } dst = s.responseQueue dst := by
        cases dst with
        | L1Cache c => rfl
        | Directory d' =>
            have hc : d' ≠ d := fun e => hd (by rw [e])
            simp [responseQueue, hc]
      by_cases hs : src' = src
      · subst hs
        simp [block, hr, hd]
      · simp [block, hr, hs]
  · exact (congrArg Block.mem h).trans (Function.update_eq_self_iff.2 rfl)
  · rfl

theorem block_memAnswer {m : MemoryMsg C D A n} {i : ℕ} (hi : (s.dir d).memInput[i]? = some m) :
    System.block { s with
      dir := Function.update s.dir d
        { s.dir d with
          memInput := (s.dir d).memInput.eraseIdx i
          memResponse := (s.dir d).memResponse ++ [m] }
      time := s.time + 1 } a = { s.block a with time := s.time + 1 } := by
  have h := block_setDir (a := a) (s := s) (d := d)
    (k := { s.dir d with
      memInput := (s.dir d).memInput.eraseIdx i
      memResponse := (s.dir d).memResponse ++ [m] }) rfl rfl
  ext1
  · rfl
  · rfl
  · exact (congrArg Block.dentry h).trans rfl
  · exact (congrArg Block.dtbe h).trans rfl
  · exact (congrArg Block.req h).trans (funext fun c => Function.update_eq_self_iff.2 rfl)
  · rfl
  · rfl
  · exact (congrArg Block.resp h).trans (funext fun src => Function.update_eq_self_iff.2 rfl)
  · refine (congrArg Block.mem h).trans (Function.update_eq_self_iff.2 ?_)
    refine Multiset.coe_eq_coe.2 (List.Perm.filter _ ?_)
    obtain ⟨hlt, rfl⟩ := List.getElem?_eq_some_iff.1 hi
    have hmove : ((s.dir d).memInput.eraseIdx i ++
        ((s.dir d).memResponse ++ [(s.dir d).memInput[i]])).Perm
        ((s.dir d).memInput[i] :: ((s.dir d).memInput.eraseIdx i ++ (s.dir d).memResponse)) := by
      rw [← List.append_assoc]
      exact List.perm_append_singleton _ _
    exact hmove.trans ((List.getElem_cons_eraseIdx_perm hlt).append_right _)
  · rfl

end Deliver

end System

end Msi
