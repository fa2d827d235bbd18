/-
**The abstract protocol of one block, and its invariant.**

For one block, the abstract state holds a phase for every cache (`ArchLab/MsiPhase.lean`), the data
in lines and transient entries, and the directory's view.  All messages about the block are implied
by it.  This module states what holds of the abstract state in every run — the *coherence invariant*
— and proves that every transition of the protocol keeps it.

The invariant has six parts.

* *Roles*: the directory lists a cache as sharer or owner exactly when its phase says so.
* *Token*: at most one cache holds the right to hand out the data, and only in `M` and `MS_OD`.
* *Links*: a request forwarded to an owner and the cache that waits for its data know each other.
* *Waits*: a writer that collects acknowledgements waits for exactly the caches that have an
  invalidation in their queue or an acknowledgement in flight, and its counter is their number.
* *Directory*: what is in flight between the directory, the memory controller and the owner is what
  the state of the directory says.
* *Values*: every copy that may be read, and all data in flight to a reader or a writer, is the
  value last stored.

Main definitions:

* `Msi.Cell`, `Msi.Abs` — the abstract state;
* `Msi.Abs.Inv` — the coherence invariant.

Main results:

* `Msi.Abs.Inv.exclusive` — while a cache is in `M`, no other cache has a copy, and no data is in
  flight to another;
* `Msi.Abs.Inv.relabel`, `collect`, `store`, `invalidate`, `handOver`, `downgrade` — the
  transitions of a cache keep the invariant (those of the directory are in
  `ArchLab/MsiAbsDir.lean`).
-/

import ArchLab.Handoff
import ArchLab.MsiPhase

set_option relaxedAutoImplicit false
set_option autoImplicit false

namespace Msi

open Handoff

/-- One cache and the block: its phase, the data of its line and of its transient entry, and the
counter of its transient entry. -/
structure Cell (C V : Type) where
  ph : Phase C V
  data : V
  tdata : V
  acks : ℤ

/-- The abstract state of a block. -/
structure Abs (C V : Type) where
  cell : C → Cell C V
  /-- The caches whose acknowledgement a cache is still to count. -/
  wait : C → Finset C
  /-- Those of them whose acknowledgement is in flight. -/
  ackIn : C → Finset C
  dst : Directory.State
  ddata : V
  sharers : Finset C
  owner : Finset C
  /-- The request at the memory controller. -/
  mem : Option (MemoryRequestType × C × V)
  /-- The data a former owner has sent to the directory. -/
  toDir : Option (C × V)
  time : ℕ

/-- The counter of a cache agrees with the caches it waits for. -/
def Phase.ackOk {C V : Type} (k : ℤ) (w : Finset C) : Phase C V → Prop
  | .storeWait (.dir _ n) _ => k ≤ 0 ∧ k + n = w.card
  | .upgradeData _ n _ => k ≤ 0 ∧ k + n = w.card
  | .storeAcks _ => 0 < k ∧ k = w.card
  | .upgradeAcks _ => 0 < k ∧ k = w.card
  | .storeSent | .upgradeSent _ | .upgradeFwd _ _ _ | .storeWait .mem _
  | .storeWait (.owner _ _) _ | .storeWait (.fwd _) _ => k = 0 ∧ w = ∅
  | .idle | .shared _ | .modified _ | .loadSent | .loadWait _ _ | .evictM _ | .evictMem
  | .evictAcked _ | .evictS _ _ | .evictSAcked _ | .evictI _ | .evictIAcked => w = ∅

/-- An invalidation reaches a cache that waits for data only when the data is in flight already, and
the data of a load comes without acknowledgements to wait for. -/
def Phase.invOk {C V : Type} : Phase C V → Prop
  | .loadWait (.dir _ n) _ => n = 0
  | .loadWait .mem (some _) => False
  | .loadWait (.fwd _) (some _) => False
  | _ => True

section Definitions

variable {C V : Type}

/-- What holds of one cell: `g` is the value last stored. -/
structure Cell.Ok (g : V) (w : Finset C) (x : Cell C V) : Prop where
  copy : x.ph.copy = true → x.data = g
  incoming : ∀ d, x.ph.incoming = some d → d = g
  tbeCopy : x.ph.tbeCopy = true → x.tdata = g
  acks : x.ph.ackOk x.acks w
  inv : x.ph.invOk

/-- A cell that holds no current value satisfies its part of the invariant for any value. -/
theorem Cell.Ok.revalue {g : V} {w : Finset C} {x : Cell C V} (h : x.Ok g w)
    (hc : x.ph.copy = false) (hi : x.ph.incoming = none) (ht : x.ph.tbeCopy = false) (v : V) :
    x.Ok v w where
  copy e := by rw [hc] at e; cases e
  incoming d e := by rw [hi] at e; cases e
  tbeCopy e := by rw [ht] at e; cases e
  acks := h.acks
  inv := h.inv

/-- Two phases that the directory and the caches linked to this one cannot tell apart. -/
structure Phase.Alike (p q : Phase C V) : Prop where
  role : p.role = q.role
  own : p.own = q.own
  tok : p.tok = q.tok
  fwd : p.fwd = q.fwd
  fetching : p.fetching = q.fetching
  writing : p.writing = q.writing
  loading : q.fwd ≠ none → p.loading = q.loading

/-- A cache that has served a forwarded request: nothing else is in its queue. -/
structure Phase.Served (p : Phase C V) : Prop where
  inv : p.inv = none
  own : p.own = none
  tok : p.tok = false
  fwd : p.fwd = none
  fetching : p.fetching = false
  writing : p.writing = false

/-- A cache that waited for an owner, `q`, once the data has been sent to it, `p`. -/
structure Phase.Answered (p q : Phase C V) : Prop where
  role : p.role = q.role
  inv : p.inv = q.inv
  own : p.own = q.own
  fwd : p.fwd = none
  fetching : p.fetching = q.fetching
  writing : p.writing = q.writing

/-- The holder of the token waits neither for another cache nor for the memory controller. -/
theorem Phase.tok_outside {p : Phase C V} (h : p.tok = true) :
    p.fwd = none ∧ p.fetching = false ∧ p.writing = false := by
  cases p with
  | storeWait w o => cases w <;> simp_all
  | _ => simp_all

/-- What is in flight around the directory, by its state. -/
def dirOk (sharers owner : Finset C) (mem : Option (MemoryRequestType × C × V))
    (toDir : Option (C × V)) (fetching writing : C → Bool) (own : C → PendingFwd C) :
    Directory.State → Prop
  | .I => sharers = ∅ ∧ owner = ∅ ∧ mem = none ∧ toDir = none
  | .S => owner = ∅ ∧ mem = none ∧ toDir = none
  | .M => sharers = ∅ ∧ (∃ c, owner = {c}) ∧ mem = none ∧ toDir = none
  | .IS_MD => owner = ∅ ∧ toDir = none ∧
      ∃ c d, sharers = {c} ∧ mem = some (.MEMORY_READ, c, d) ∧ fetching c = true
  | .IM_MD => sharers = ∅ ∧ toDir = none ∧
      ∃ c d, owner = {c} ∧ mem = some (.MEMORY_READ, c, d) ∧ fetching c = true
  | .MS_OD => owner = ∅ ∧ mem = none ∧
      (toDir ≠ none ∨ ∃ o r t, own o = some (.GETS, r, t))
  | .MS_MA => owner = ∅ ∧ toDir = none ∧ ∃ c d, mem = some (.MEMORY_WB, c, d)
  | .MI_MA => sharers = ∅ ∧ toDir = none ∧
      ∃ c d, owner = {c} ∧ mem = some (.MEMORY_WB, c, d) ∧ writing c = true

/-- Forwarded requests matter to the directory only while it waits for an owner. -/
theorem dirOk.own {sharers owner : Finset C} {mem : Option (MemoryRequestType × C × V)}
    {toDir : Option (C × V)} {fetching writing : C → Bool} {own own' : C → PendingFwd C}
    {d : Directory.State} (h : dirOk sharers owner mem toDir fetching writing own d)
    (hown : ∀ o r t, own o = some (.GETS, r, t) → ∃ o r t, own' o = some (.GETS, r, t)) :
    dirOk sharers owner mem toDir fetching writing own' d := by
  cases d with
  | MS_OD =>
      obtain ⟨h₁, h₂, h₃ | ⟨o, r, t, ho⟩⟩ := h
      · exact ⟨h₁, h₂, Or.inl h₃⟩
      · exact ⟨h₁, h₂, Or.inr (hown o r t ho)⟩
  | _ => exact h

/-- A sharer leaves. -/
theorem dirOk.erase [DecidableEq C] {sharers owner : Finset C}
    {mem : Option (MemoryRequestType × C × V)} {toDir : Option (C × V)}
    {fetching writing : C → Bool} {own : C → PendingFwd C} {d : Directory.State}
    (h : dirOk sharers owner mem toDir fetching writing own d) (hd : d ≠ .IS_MD) (c : C) :
    dirOk (sharers.erase c) owner mem toDir fetching writing own d := by
  cases d with
  | I | M | IM_MD | MI_MA => exact ⟨by rw [h.1]; exact Finset.erase_empty c, h.2⟩
  | S | MS_OD | MS_MA => exact h
  | IS_MD => exact absurd rfl hd

namespace Abs

/-- The phase of a cache. -/
def ph (s : Abs C V) (c : C) : Phase C V := (s.cell c).ph

/-- The directory has given the token out. -/
def given (s : Abs C V) : Prop := (s.dst = .M ∨ s.dst = .MS_OD) ∧ s.toDir = none

/-- **The coherence invariant** of a block whose last stored value is `g`. -/
structure Inv (g : V) (s : Abs C V) : Prop where
  roles : ∀ c, (c ∈ s.sharers ↔ (s.ph c).role.1 = true) ∧ (c ∈ s.owner ↔ (s.ph c).role.2 = true)
  token : Token (fun c => (s.ph c).tok) s.given
  links : Links (fun c => (s.ph c).own) (fun c => (s.ph c).fwd)
    (fun k r => k = .GETS ↔ (s.ph r).loading = true) s.time
  waits : Waits (fun c => (s.ph c).inv) s.ackIn s.wait (fun c => (s.ph c).own) s.time
  dir : dirOk s.sharers s.owner s.mem s.toDir (fun c => (s.ph c).fetching)
    (fun c => (s.ph c).writing) (fun c => (s.ph c).own) s.dst
  fetching : ∀ c, (s.ph c).fetching = true →
    (s.dst = .IS_MD ∨ s.dst = .IM_MD) ∧ ∃ d, s.mem = some (.MEMORY_READ, c, d)
  writing : ∀ c, (s.ph c).writing = true → s.dst = .MI_MA ∧ ∃ d, s.mem = some (.MEMORY_WB, c, d)
  getS : ∀ o r t, (s.ph o).own = some (.GETS, r, t) →
    s.dst = .MS_OD ∧ s.toDir = none ∧ ∀ c ∈ s.sharers, c = o ∨ c = r
  cells : ∀ c, (s.cell c).Ok g (s.wait c)
  vDir : s.dst ≠ .M → s.dst ≠ .MS_OD → s.ddata = g
  vMem : ∀ c d, s.mem = some (.MEMORY_READ, c, d) → d = g
  vToDir : ∀ c d, s.toDir = some (c, d) → d = g

/-- Replace the cell of one cache. -/
def set [DecidableEq C] (s : Abs C V) (c : C) (x : Cell C V) : Abs C V :=
  { s with cell := Function.update s.cell c x }

end Abs

end Definitions

namespace Abs

variable {C V : Type} [DecidableEq C] {g : V} {s : Abs C V} {c : C} {x : Cell C V}

/-! ### Changing one cell -/

theorem proj_set {β : Type} (f : Phase C V → β) (s : Abs C V) (c : C) (x : Cell C V) :
    (fun y => f ((s.set c x).ph y)) = Function.update (fun y => f (s.ph y)) c (f x.ph) :=
  proj_update (fun z : Cell C V => f z.ph) s.cell c x

theorem proj_set_self {β : Type} {f : Phase C V → β} (h : f x.ph = f (s.ph c)) :
    (fun y => f ((s.set c x).ph y)) = fun y => f (s.ph y) :=
  proj_update_self (f := fun z : Cell C V => f z.ph) h

theorem proj_set_set {β : Type} (f : Phase C V → β) {o : C} {y : Cell C V} (hne : o ≠ c)
    (hx : f x.ph = f (s.ph c)) (hy : f y.ph = f (s.ph o)) :
    (fun z => f (((s.set c x).set o y).ph z)) = fun z => f (s.ph z) := by
  have ho : (s.set c x).ph o = s.ph o := by simp [ph, set, hne]
  rw [proj_set_self (hy.trans (congrArg f ho.symm)), proj_set_self hx]

section Fields

variable (s : Abs C V) (c : C) (x : Cell C V)

@[simp] theorem wait_set : (s.set c x).wait = s.wait := rfl
@[simp] theorem ackIn_set : (s.set c x).ackIn = s.ackIn := rfl
@[simp] theorem dst_set : (s.set c x).dst = s.dst := rfl
@[simp] theorem ddata_set : (s.set c x).ddata = s.ddata := rfl
@[simp] theorem sharers_set : (s.set c x).sharers = s.sharers := rfl
@[simp] theorem owner_set : (s.set c x).owner = s.owner := rfl
@[simp] theorem mem_set : (s.set c x).mem = s.mem := rfl
@[simp] theorem toDir_set : (s.set c x).toDir = s.toDir := rfl
@[simp] theorem time_set : (s.set c x).time = s.time := rfl

end Fields

@[simp] theorem ph_set_self (s : Abs C V) (c : C) (x : Cell C V) : (s.set c x).ph c = x.ph := by
  simp [ph, set]

@[simp] theorem ph_set_of_ne (s : Abs C V) {c y : C} (x : Cell C V) (h : y ≠ c) :
    (s.set c x).ph y = s.ph y := by
  simp [ph, set, h]

@[simp] theorem cell_set_self (s : Abs C V) (c : C) (x : Cell C V) : (s.set c x).cell c = x := by
  simp [set]

@[simp] theorem cell_set_of_ne (s : Abs C V) {c y : C} (x : Cell C V) (h : y ≠ c) :
    (s.set c x).cell y = s.cell y := by
  simp [set, h]

theorem forall_ph_set {P : C → Phase C V → Prop} (hc : P c x.ph)
    (h : ∀ y, y ≠ c → P y (s.ph y)) (y : C) : P y ((s.set c x).ph y) := by
  by_cases hy : y = c
  · subst hy
    rwa [ph_set_self]
  · rw [ph_set_of_ne _ _ hy]
    exact h y hy

theorem forall_cell_set {P : C → Cell C V → Prop} (hc : P c x)
    (h : ∀ y, y ≠ c → P y (s.cell y)) (y : C) : P y ((s.set c x).cell y) := by
  by_cases hy : y = c
  · subst hy
    rwa [cell_set_self]
  · rw [cell_set_of_ne _ _ hy]
    exact h y hy

namespace Inv

omit [DecidableEq C] in
/-- What the invariant says of the directory in a known state. -/
theorem dir_at (h : s.Inv g) {d : Directory.State} (hd : s.dst = d) :
    dirOk s.sharers s.owner s.mem s.toDir (fun c => (s.ph c).fetching)
      (fun c => (s.ph c).writing) (fun c => (s.ph c).own) d :=
  hd ▸ h.dir

omit [DecidableEq C] in
/-- Time passes. -/
theorem tick (h : s.Inv g) {t : ℕ} (ht : s.time ≤ t) : Inv g { s with time := t } where
  roles := h.roles
  token := h.token
  links := h.links.mono ht fun _ _ _ _ hok => hok
  waits := h.waits.mono ht fun _ _ _ _ e => Or.inl e
  dir := h.dir
  fetching := h.fetching
  writing := h.writing
  getS := h.getS
  cells := h.cells
  vDir := h.vDir
  vMem := h.vMem
  vToDir := h.vToDir

/-! ### What the token excludes -/

omit [DecidableEq C] in
/-- A cache that others acknowledge to is collecting, and so holds the token. -/
theorem tok_of_wait (h : s.Inv g) {b r : C} (hb : b ∈ s.wait r) : (s.ph r).tok = true := by
  have ha := (h.cells r).acks
  change (s.ph r).ackOk _ _ at ha
  generalize s.ph r = p at ha ⊢
  have hne : s.wait r ≠ ∅ := Finset.ne_empty_of_mem hb
  cases p with
  | storeWait w o => cases w <;> simp_all [Phase.ackOk]
  | _ => simp_all [Phase.ackOk]

omit [DecidableEq C] in
/-- The counter of a cache fits its phase. -/
theorem ackOk (h : s.Inv g) {p : Phase C V} (hc : s.ph c = p) :
    p.ackOk (s.cell c).acks (s.wait c) := hc ▸ (h.cells c).acks

omit [DecidableEq C] in
/-- While the holder of the token waits for nobody, no invalidation is in a queue. -/
theorem inv_none_of_tok (h : s.Inv g) (hc : (s.ph c).tok = true) (hw : s.wait c = ∅) (b : C) :
    (s.ph b).inv = none := by
  cases hb : (s.ph b).inv with
  | none => rfl
  | some i =>
      obtain ⟨r, t⟩ := i
      have hmem : b ∈ s.wait r := h.waits.mem_of_inv hb
      have hr : r = c := h.token.unique r c (h.tok_of_wait hmem) hc
      rw [hr, hw] at hmem
      simp at hmem

omit [DecidableEq C] in
/-- Neither is one while the directory has not given the token out. -/
theorem inv_none_of_not_given (h : s.Inv g) (hg : ¬ s.given) (b : C) : (s.ph b).inv = none := by
  cases hb : (s.ph b).inv with
  | none => rfl
  | some i =>
      obtain ⟨r, t⟩ := i
      exact absurd (h.token.given r (h.tok_of_wait (h.waits.mem_of_inv hb))) hg

omit [DecidableEq C] in
/-- A cache that waits for the owner of a forwarded `GETS` is loading, and is listed as a sharer. -/
theorem sharer_of_getS (h : s.Inv g) {o r : C} {t : ℕ} (ho : (s.ph o).own = some (.GETS, r, t)) :
    s.ph r = .loadWait (.fwd o) none ∧ r ∈ s.sharers := by
  have hf := h.links.fwd_of_own ho
  have hl := (h.links.kind o .GETS r t ho).1 rfl
  have hi := (h.cells r).inv
  have hr := (h.roles r).1
  change (s.ph r).invOk at hi
  generalize s.ph r = p at hf hl hi hr ⊢
  cases p with
  | loadWait w i =>
      cases w <;> simp at hf
      subst hf
      cases i <;> simp_all [Phase.invOk]
  | _ => simp at hl

omit [DecidableEq C] in
/-- At most one `GETS` is with its owner. -/
theorem getS_unique (h : s.Inv g) {o r o' r' : C} {t t' : ℕ}
    (ho : (s.ph o).own = some (.GETS, r, t)) (ho' : (s.ph o').own = some (.GETS, r', t')) :
    o = o' := by
  obtain ⟨hr, hmem⟩ := h.sharer_of_getS ho
  rcases (h.getS o' r' t' ho').2.2 r hmem with e | e
  · rw [← e, hr] at ho'
    simp at ho'
  · have hf := h.links.fwd_of_own ho
    have hf' := h.links.fwd_of_own ho'
    rw [← e] at hf'
    exact Option.some.inj (hf.symm.trans hf')

omit [DecidableEq C] in
/-- While the directory has given the token out, a listed sharer is one of the two ends of a
forwarded `GETS`. -/
theorem sharer_of_given (h : s.Inv g) (hg : s.given) (hc : c ∈ s.sharers) :
    (s.ph c).own ≠ none ∨ ∃ o, s.ph c = .loadWait (.fwd o) none := by
  rcases hg with ⟨hM | hM, htd⟩
  · rw [(h.dir_at hM).1] at hc
    simp at hc
  · obtain ⟨-, -, hd | ⟨o, r, t, ho⟩⟩ := h.dir_at hM
    · exact absurd htd hd
    · rcases (h.getS o r t ho).2.2 c hc with rfl | rfl
      · exact Or.inl (Option.ne_none_iff_exists'.2 ⟨_, ho⟩)
      · exact Or.inr ⟨o, (h.sharer_of_getS ho).1⟩

omit [DecidableEq C] in
/-- **Exclusive data.** While a cache holds the token and waits for nobody, no other cache has the
current value, and none is about to receive it. -/
theorem exclusive (h : s.Inv g) (hc : (s.ph c).tok = true) (hw : s.wait c = ∅) {y : C}
    (hy : y ≠ c) :
    (s.ph y).copy = false ∧ (s.ph y).incoming = none ∧ (s.ph y).tbeCopy = false := by
  have ht : (s.ph y).tok = false := h.token.not_of_ne hc hy
  have hi := h.inv_none_of_tok hc hw y
  have hs : (s.ph y).role.1 = true → _ := fun hr =>
    h.sharer_of_given (h.token.given c hc) ((h.roles y).1.2 hr)
  generalize s.ph y = p at ht hi hs ⊢
  cases p with
  | loadWait w i => cases w <;> simp_all
  | storeWait w o => cases w <;> simp_all
  | evictAcked o => cases o <;> simp_all
  | _ => simp_all

/-! ### Transitions of a cache -/

/-- A cache moves on, and the directory and the caches linked to it see no difference; what changes
may concern invalidations and acknowledgements. -/
theorem change (h : s.Inv g) (ha : x.ph.Alike (s.ph c)) {ackIn wait : C → Finset C}
    (hwaits : Waits (fun y => ((s.set c x).ph y).inv) ackIn wait (fun y => (s.ph y).own) s.time)
    (hwait : ∀ y, y ≠ c → wait y = s.wait y) (hok : x.Ok g (wait c)) :
    Inv g { s.set c x with ackIn := ackIn, wait := wait } where
  roles := forall_ph_set (P := fun y p => (y ∈ s.sharers ↔ p.role.1 = true) ∧
      (y ∈ s.owner ↔ p.role.2 = true)) (by rw [ha.role]; exact h.roles c) fun y _ => h.roles y
  token := by
    refine (proj_set_self ha.tok).symm ▸ ?_
    exact h.token
  links := by
    refine (proj_set_self ha.own).symm ▸ (proj_set_self ha.fwd).symm ▸ ?_
    refine h.links.mono le_rfl fun k r o hr hk => ?_
    by_cases hy : r = c
    · subst hy
      change _ ↔ ((s.set r x).ph r).loading = true
      rw [ph_set_self, ha.loading (Option.ne_none_iff_exists'.2 ⟨o, hr⟩)]
      exact hk
    · change _ ↔ ((s.set c x).ph r).loading = true
      rwa [ph_set_of_ne _ _ hy]
  waits := by
    refine (proj_set_self ha.own).symm ▸ ?_
    exact hwaits
  dir := by
    refine (proj_set_self ha.own).symm ▸ (proj_set_self ha.fetching).symm ▸
      (proj_set_self ha.writing).symm ▸ ?_
    exact h.dir
  fetching := forall_ph_set (P := fun y p => p.fetching = true →
      (s.dst = .IS_MD ∨ s.dst = .IM_MD) ∧ ∃ d, s.mem = some (.MEMORY_READ, y, d))
    (by rw [ha.fetching]; exact h.fetching c) fun y _ => h.fetching y
  writing := forall_ph_set (P := fun y p => p.writing = true →
      s.dst = .MI_MA ∧ ∃ d, s.mem = some (.MEMORY_WB, y, d))
    (by rw [ha.writing]; exact h.writing c) fun y _ => h.writing y
  getS := forall_ph_set (P := fun o p => ∀ r t, p.own = some (.GETS, r, t) →
      s.dst = .MS_OD ∧ s.toDir = none ∧ ∀ y ∈ s.sharers, y = o ∨ y = r)
    (by rw [ha.own]; exact h.getS c) fun y _ => h.getS y
  cells := forall_cell_set (P := fun y z => z.Ok g (wait y)) hok fun y hy => by
    rw [hwait y hy]
    exact h.cells y
  vDir := h.vDir
  vMem := h.vMem
  vToDir := h.vToDir

/-- A cache moves on alone: it sends a request, or receives data or a writeback acknowledgement. -/
theorem relabel (h : s.Inv g) (ha : x.ph.Alike (s.ph c)) (hinv : x.ph.inv = (s.ph c).inv)
    (hok : x.Ok g (s.wait c)) : Inv g (s.set c x) := by
  refine h.change ha ?_ (fun _ _ => rfl) hok
  rw [proj_set_self hinv]
  exact h.waits

/-- A cache counts an acknowledgement. -/
theorem collect (h : s.Inv g) {b : C} (hb : b ∈ s.ackIn c) (ha : x.ph.Alike (s.ph c))
    (hinv : x.ph.inv = (s.ph c).inv) (hok : x.Ok g ((s.wait c).erase b)) :
    Inv g { s.set c x with
      ackIn := Function.update s.ackIn c ((s.ackIn c).erase b)
      wait := Function.update s.wait c ((s.wait c).erase b) } := by
  refine h.change ha ?_ (fun y hy => Function.update_of_ne hy _ _) ?_
  · rw [proj_set_self hinv]
    exact h.waits.collect hb
  · rw [Function.update_self]
    exact hok

/-- A cache answers an invalidation. -/
theorem invalidate (h : s.Inv g) {r : C} {t : ℕ} (hi : (s.ph c).inv = some (r, t))
    (ha : x.ph.Alike (s.ph c)) (hinv : x.ph.inv = none) (hok : x.Ok g (s.wait c)) :
    Inv g { s.set c x with ackIn := Function.update s.ackIn r (insert c (s.ackIn r)) } := by
  refine h.change ha ?_ (fun _ _ => rfl) hok
  rw [proj_set, hinv]
  exact h.waits.answer hi

/-- A store in `M` changes the value of the block. -/
theorem store (h : s.Inv g) {o : PendingFwd C} (hc : s.ph c = .modified o) (v : V) :
    Inv v (s.set c { s.cell c with data := v }) := by
  have htok : (s.ph c).tok = true := by rw [hc]; rfl
  have hw : s.wait c = ∅ := h.ackOk hc
  have hg := h.token.given c htok
  have hok : (Cell.Ok v (s.wait c) { s.cell c with data := v }) := by
    refine ⟨fun _ => rfl, ?_, ?_, (h.cells c).acks, (h.cells c).inv⟩
    · intro d hd
      change (s.ph c).incoming = some d at hd
      rw [hc] at hd
      cases hd
    · intro hd
      change (s.ph c).tbeCopy = true at hd
      rw [hc] at hd
      cases hd
  have hcells : ∀ y, y ≠ c → (s.cell y).Ok v (s.wait y) := by
    intro y hy
    obtain ⟨h₁, h₂, h₃⟩ := h.exclusive htok hw hy
    exact (h.cells y).revalue h₁ h₂ h₃ v
  have hmem : s.mem = none := by
    rcases hg with ⟨hM | hM, -⟩
    · exact (h.dir_at hM).2.2.1
    · exact (h.dir_at hM).2.1
  have hph : (s.set c { s.cell c with data := v }).ph = s.ph :=
    funext (forall_ph_set (P := fun y p => p = s.ph y) rfl fun _ _ => rfl)
  constructor
  · rw [hph]; exact h.roles
  · rw [hph]; exact h.token
  · rw [hph]; exact h.links
  · rw [hph]; exact h.waits
  · rw [hph]; exact h.dir
  · rw [hph]; exact h.fetching
  · rw [hph]; exact h.writing
  · rw [hph]; exact h.getS
  · exact forall_cell_set (P := fun y z => z.Ok v (s.wait y)) hok hcells
  · intro h₁ h₂
    rcases hg with ⟨hM | hM, -⟩
    · exact absurd hM h₁
    · exact absurd hM h₂
  · intro r d hr
    exact absurd (hmem.symm.trans hr) (by simp)
  · intro r d hr
    exact absurd (hg.2.symm.trans hr) (by simp)

/-! ### An owner serves a forwarded request -/

omit [DecidableEq C] in
/-- The cache that waits for the holder of the token, when the request is a `GETM`. -/
theorem requestor_getM (h : s.Inv g) {r : C} {t : ℕ} (ho : (s.ph c).own = some (.GETM, r, t))
    (hc : (s.ph c).tok = true) (hw : s.wait c = ∅) :
    ∃ o, s.ph r = .storeWait (.fwd c) o := by
  have hf := h.links.fwd_of_own ho
  have hl := (h.links.kind c .GETM r t ho).2
  have hi := h.inv_none_of_tok hc hw r
  generalize s.ph r = p at hf hl hi ⊢
  cases p with
  | loadWait w i => simp at hl
  | storeWait w o =>
      cases w <;> simp at hf
      subst hf
      exact ⟨o, rfl⟩
  | upgradeFwd f i o => simp at hi
  | _ => simp at hf

/-- The holder `c` of the token answers the request of `r` in its queue.  What becomes of the token
and of the directory depends on the kind of the request. -/
theorem serve (h : s.Inv g) {k : Kind} {r : C} {t : ℕ} {y : Cell C V} {toDir : Option (C × V)}
    (ho : (s.ph c).own = some (k, r, t)) (hc : (s.ph c).tok = true)
    (hinv : (s.ph c).inv = none) (hx : x.ph.Served) (hrole : x.ph.role = (s.ph c).role)
    (hok : x.Ok g (s.wait c)) (hy : y.ph.Answered (s.ph r)) (hyok : y.Ok g (s.wait r))
    (htoken : Token (Function.update (Function.update (fun z => (s.ph z).tok) c false) r y.ph.tok)
      ((s.dst = .M ∨ s.dst = .MS_OD) ∧ toDir = none))
    (hdir : dirOk s.sharers s.owner s.mem toDir (fun z => (s.ph z).fetching)
      (fun z => (s.ph z).writing) (Function.update (fun z => (s.ph z).own) c none) s.dst)
    (hgetS : ∀ o r t, o ≠ c → (s.ph o).own = some (.GETS, r, t) → toDir = none)
    (hv : ∀ c d, toDir = some (c, d) → d = g) :
    Inv g { (s.set c x).set r y with toDir := toDir } := by
  obtain ⟨hc₁, hc₂, hc₃⟩ := Phase.tok_outside hc
  have hcr : r ≠ c := by
    rintro rfl
    exact absurd (hc₁.symm.trans (h.links.fwd_of_own ho)) (by simp)
  have hrs : (s.set c x).ph r = s.ph r := ph_set_of_ne _ _ hcr
  -- the requestor keeps its own link, so only the link of the owner goes
  have hown : (fun z => (((s.set c x).set r y).ph z).own) =
      Function.update (fun z => (s.ph z).own) c none := by
    rw [proj_set_self (by rw [hrs, hy.own]), proj_set, hx.own]
  have hother : ∀ z k r' t', Function.update (fun z => (s.ph z).own) c none z =
      some (k, r', t') → z ≠ c ∧ (s.ph z).own = some (k, r', t') := by
    intro z k r' t' e
    by_cases hz : z = c
    · simp [hz] at e
    · rw [Function.update_of_ne hz] at e
      exact ⟨hz, e⟩
  constructor
  · refine forall_ph_set (P := fun y p => (y ∈ s.sharers ↔ p.role.1 = true) ∧
      (y ∈ s.owner ↔ p.role.2 = true)) (by rw [hy.role]; exact h.roles r) fun y _ => ?_
    exact forall_ph_set (P := fun y p => (y ∈ s.sharers ↔ p.role.1 = true) ∧
      (y ∈ s.owner ↔ p.role.2 = true)) (by rw [hrole]; exact h.roles c) (fun y _ => h.roles y) y
  · refine (proj_set Phase.tok (s.set c x) r y).symm ▸ (proj_set Phase.tok s c x).symm ▸ ?_
    rw [hx.tok]
    exact htoken
  · refine hown.symm ▸ (proj_set Phase.fwd (s.set c x) r y).symm ▸
      (proj_set_self (f := Phase.fwd) (hx.fwd.trans hc₁.symm)).symm ▸ ?_
    rw [hy.fwd]
    refine (h.links.remove ho).mono le_rfl fun k z o hz hk => ?_
    have hzr : z ≠ r := by
      rintro rfl
      simp at hz
    have hzc : z ≠ c := by
      rintro rfl
      rw [Function.update_of_ne hzr] at hz
      exact absurd (hc₁.symm.trans hz) (by simp)
    change _ ↔ (((s.set c x).set r y).ph z).loading = true
    rwa [ph_set_of_ne _ _ hzr, ph_set_of_ne _ _ hzc]
  · refine hown.symm ▸
      (proj_set_set Phase.inv hcr (hx.inv.trans hinv.symm) hy.inv).symm ▸ ?_
    exact h.waits.mono le_rfl fun z k r' t' e => Or.inl (hother z k r' t' e).2
  · refine hown.symm ▸
      (proj_set_set Phase.fetching hcr (hx.fetching.trans hc₂.symm) hy.fetching).symm ▸
      (proj_set_set Phase.writing hcr (hx.writing.trans hc₃.symm) hy.writing).symm ▸ ?_
    exact hdir
  · refine forall_ph_set (P := fun y p => p.fetching = true →
      (s.dst = .IS_MD ∨ s.dst = .IM_MD) ∧ ∃ d, s.mem = some (.MEMORY_READ, y, d))
      (by rw [hy.fetching]; exact h.fetching r) fun y _ => ?_
    exact forall_ph_set (P := fun y p => p.fetching = true →
      (s.dst = .IS_MD ∨ s.dst = .IM_MD) ∧ ∃ d, s.mem = some (.MEMORY_READ, y, d))
        (by rw [hx.fetching]; simp)
      (fun y _ => h.fetching y) y
  · refine forall_ph_set (P := fun y p => p.writing = true →
      s.dst = .MI_MA ∧ ∃ d, s.mem = some (.MEMORY_WB, y, d))
      (by rw [hy.writing]; exact h.writing r) fun y _ => ?_
    exact forall_ph_set (P := fun y p => p.writing = true →
      s.dst = .MI_MA ∧ ∃ d, s.mem = some (.MEMORY_WB, y, d)) (by rw [hx.writing]; simp)
      (fun y _ => h.writing y) y
  · intro o' r' t' e
    obtain ⟨hne, e'⟩ := hother o' _ r' t' ((congrFun hown o').symm.trans e)
    obtain ⟨h₁, -, h₂⟩ := h.getS o' r' t' e'
    exact ⟨h₁, hgetS o' r' t' hne e', h₂⟩
  · refine forall_cell_set (P := fun y z => z.Ok g (s.wait y)) hyok fun y _ => ?_
    exact forall_cell_set (P := fun y z => z.Ok g (s.wait y)) hok (fun y _ => h.cells y) y
  · exact h.vDir
  · exact h.vMem
  · exact hv

/-- **The owner passes exclusive data on.** The holder of the token answers a forwarded `GETM`; the
data is now in flight to the requestor. -/
theorem handOver (h : s.Inv g) {r : C} {t : ℕ} {o : PendingFwd C}
    (ho : (s.ph c).own = some (.GETM, r, t)) (hr : s.ph r = .storeWait (.fwd c) o)
    (hc : (s.ph c).tok = true) (hinv : (s.ph c).inv = none) (hx : x.ph.Served)
    (hrole : x.ph.role = (s.ph c).role) (hok : x.Ok g (s.wait c)) :
    Inv g ((s.set c x).set r { s.cell r with ph := .storeWait (.owner c g) o }) := by
  refine h.serve ho hc hinv hx hrole hok ?_ ?_ (h.token.move hc) ?_ ?_ h.vToDir
  · rw [hr]
    constructor <;> rfl
  · have ha := h.ackOk hr
    exact ⟨by simp, by simp, by simp, ha, trivial⟩
  · refine h.dir.own fun o' r' t' e => ⟨o', r', t', ?_⟩
    rwa [Function.update_of_ne]
    rintro rfl
    exact absurd (ho.symm.trans e) (by simp)
  · exact fun o r t _ e => (h.getS o r t e).2.1

/-- **The owner shares its data.** The holder of the token answers a forwarded `GETS`: it sends the
data to the requestor and to the directory. -/
theorem downgrade (h : s.Inv g) {r : C} {t : ℕ} (ho : (s.ph c).own = some (.GETS, r, t))
    (hc : (s.ph c).tok = true) (hinv : (s.ph c).inv = none) (hx : x.ph.Served)
    (hrole : x.ph.role = (s.ph c).role) (hok : x.Ok g (s.wait c)) :
    Inv g { (s.set c x).set r { s.cell r with ph := .loadWait (.owner c g) none } with
      toDir := some (c, g) } := by
  have hr := (h.sharer_of_getS ho).1
  have hdst := (h.getS c r t ho).1
  refine h.serve ho hc hinv hx hrole hok ?_ ?_ ?_ ?_ ?_ ?_
  · rw [hr]
    constructor <;> rfl
  · have ha := h.ackOk hr
    exact ⟨by simp, by simp, by simp, ha, trivial⟩
  · have hrc : r ≠ c := by
      rintro rfl
      rw [hr] at hc
      simp at hc
    have htr : Function.update (fun z => (s.ph z).tok) c false r = false := by
      rw [Function.update_of_ne hrc, hr]
      rfl
    rw [Function.update_eq_self_iff.2 htr.symm]
    exact h.token.drop hc _
  · obtain ⟨howner, hmem, -⟩ := h.dir_at hdst
    rw [hdst]
    exact ⟨howner, hmem, Or.inl (by simp)⟩
  · exact fun o r' t' hne e => absurd (h.getS_unique e ho) hne
  · rintro _ _ ⟨⟩
    rfl

end Inv

end Abs

end Msi
