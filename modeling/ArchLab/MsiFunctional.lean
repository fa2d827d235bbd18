/-
**Functional accesses.**

A debugger, a loader and the emulation of system calls read and write memory past the protocol, in
no simulated time (`RubyPort.cc`).  A functional read asks every controller for its permission and
takes the data of the first one that may be read; a functional write writes the copies of all
controllers that may be read or written, if it believes that these are all copies there are.  Both
assert that at most one controller has the permission to write.

The permissions are declared with the states, and the directory declares `Read_Write` for its own
state `M`, in which its data is stale and the owner has the block.  So while the owner is in `M` the
assertion fails, and while the owner is still waiting, or already evicting, the directory passes for
a controller with a current copy.  In all other states a functional access does what it should: a
read returns the value of the block or refuses, and a write leaves the system coherent, for the new
value.

Main definitions:

* `Msi.System.permission`, `Msi.System.getDataBlock` — the permission and the data of a controller;
* `Msi.System.doFunctionalRead`, `Msi.System.doFunctionalWrite` — the two accesses;
* `Msi.AccessRun` — the runs of the system with functional accesses between the steps.

Main results:

* `Msi.Coherent.overwritten` — writing all copies of a block keeps coherence, for the new value;
* `Msi.functional_accesses` — **functional accesses and processors see the same values**, unless a
  block is accessed while the directory has it in `M`;
* `Msi.functional_access_cases` — **when functional accesses fail, refuse and are lost**.
-/

import ArchLab.MsiLlsc

set_option relaxedAutoImplicit false
set_option autoImplicit false

namespace Msi

open L1Cache (AccessPermission)

/-- The permission declared with a state of the directory. -/
def Directory.State.toPermission : Directory.State → AccessPermission
  | .I => .Invalid
  | .M => .Read_Write
  | .S => .Read_Only
  | _ => .Busy

section Access

variable {C D A : Type} [DecidableEq C] [DecidableEq D] [DecidableEq A] {n : ℕ} {cfg : Config D A}

namespace System

/-- The permission of a controller for a block. -/
def permission (s : System C D A n cfg) (a : A) : MachineID C D → AccessPermission
  | .L1Cache c => L1Cache.getAccessPermission ((s.l1 c).tbes a) (s.entry c a)
  | .Directory d =>
      match (s.dir d).tbes a with
      | some t => t.tbeState.toPermission
      | none =>
          if cfg.mapAddressToDirectory a = d then
            ((s.dir d).directory a).directoryState.toPermission
          else .NotPresent

/-- The data of a controller for a block. -/
def getDataBlock (s : System C D A n cfg) (a : A) : MachineID C D → DataBlock n
  | .L1Cache c => ((s.entry c a).map fun e => e.dataBlk).getD default
  | .Directory d => ((s.dir d).directory a).dataBlk

/-- Replace the data of a controller for a block. -/
def setDataBlock (s : System C D A n cfg) (a : A) (data : DataBlock n) :
    MachineID C D → System C D A n cfg
  | .L1Cache c =>
      { s with
        l1 := Function.update s.l1 c
          { s.l1 c with
            cacheMemory := (s.l1 c).cacheMemory.assign a
              ((s.entry c a).map fun e => { e with dataBlk := data }) } }
  | .Directory d =>
      { s with
        dir := Function.update s.dir d
          { s.dir d with
            directory := Function.update (s.dir d).directory a
              { (s.dir d).directory a with dataBlk := data } } }

/-- The number of controllers with a permission. -/
def numPermission (s : System C D A n cfg) (ctrls : List (MachineID C D)) (a : A)
    (p : AccessPermission) : ℕ :=
  ctrls.countP fun m => s.permission a m = p

/-- The controller has a copy that may be read. -/
def readable (s : System C D A n cfg) (a : A) (m : MachineID C D) : Bool :=
  s.permission a m = .Read_Only || s.permission a m = .Read_Write

/-- A functional read: the bytes, or nothing if no controller has a copy that may be read. -/
def doFunctionalRead (s : System C D A n cfg) (ctrls : List (MachineID C D)) (pkt : Packet A n) :
    Except Fault (Option (List UInt8)) :=
  if s.numPermission ctrls pkt.lineAddress .Read_Write ≤ 1 then
    .ok ((ctrls.find? (s.readable pkt.lineAddress)).map fun m =>
      (s.getDataBlock pkt.lineAddress m).getData pkt.offset pkt.data.length pkt.fits)
  else .error .assertion

/-- The loop that writes to all copies that may be read. -/
def writeCopies (s : System C D A n cfg) (ctrls : List (MachineID C D)) (pkt : Packet A n) :
    System C D A n cfg :=
  ctrls.foldl (fun s m =>
    if s.readable pkt.lineAddress m then
      s.setDataBlock pkt.lineAddress
        ((s.getDataBlock pkt.lineAddress m).setData pkt.data pkt.offset) m
    else s) s

/-- A functional write: whether it was done, and the system afterwards. -/
def doFunctionalWrite (s : System C D A n cfg) (ctrls : List (MachineID C D)) (pkt : Packet A n) :
    Except Fault (System C D A n cfg × Bool) :=
  if s.numPermission ctrls pkt.lineAddress .Read_Write ≤ 1 then
    if s.numPermission ctrls pkt.lineAddress .Busy = 0 ∧
          0 < s.numPermission ctrls pkt.lineAddress .Read_Only ∨
        s.numPermission ctrls pkt.lineAddress .Read_Write = 1 then
      .ok (s.writeCopies ctrls pkt, true)
    else .ok (s, false)
  else .error .assertion

end System

/-! ### Permissions and states -/

variable {s s' : System C D A n cfg} {value : A → DataBlock n}

omit [DecidableEq C] [DecidableEq D] [DecidableEq A] in
/-- A state other than `I` is that of a transient entry or of a line. -/
theorem L1Cache.getAccessPermission_eq_iff (t : Option (TBE n)) (e : Option (Entry n))
    {p : AccessPermission} (hp : p ∈ [.Read_Only, .Read_Write, .Busy]) :
    getAccessPermission t e = p ↔ (getState t e).toPermission = p := by
  cases t with
  | some t => rfl
  | none =>
      cases e with
      | some e => rfl
      | none =>
          change AccessPermission.NotPresent = p ↔ AccessPermission.Invalid = p
          constructor <;> rintro rfl <;> exact absurd hp (by decide)

/-- A directory has transient entries for its own blocks only. -/
def System.AtHome (s : System C D A n cfg) : Prop :=
  ∀ d a, cfg.mapAddressToDirectory a ≠ d → (s.dir d).tbes a = none

theorem System.AtHome.dirFinish (h : s.AtHome) {a : A} {x : Directory.Ctx C D A n}
    {f : Dir C D A n → Dir C D A n} (hf : ∀ k, (f k).tbes = k.tbes) :
    (s.dirFinish (cfg.mapAddressToDirectory a) a x f).AtHome := by
  intro d b hb
  change (Function.update s.dir (cfg.mapAddressToDirectory a) _ d).tbes b = none
  by_cases hd : d = cfg.mapAddressToDirectory a
  · have hne : b ≠ a := by
      rintro rfl
      exact hb hd.symm
    subst hd
    rw [Function.update_self, hf]
    exact (Function.update_of_ne hne _ _).trans (h _ b hb)
  · rw [Function.update_of_ne hd]
    exact h d b hb

omit [DecidableEq C] [DecidableEq A] in
theorem System.AtHome.update (h : s.AtHome) {d : D} {k : Dir C D A n}
    (hk : k.tbes = (s.dir d).tbes) (e : D) (a : A) (ha : cfg.mapAddressToDirectory a ≠ e) :
    (Function.update s.dir d k e).tbes a = none := by
  by_cases he : e = d
  · subst he
    rw [Function.update_self, hk]
    exact h e a ha
  · rw [Function.update_of_ne he]
    exact h e a ha

/-- Messages reach the home directory of their block only. -/
theorem System.AtHome.step (h : s.AtHome) (hc : Coherent value s) {l : Label C D A n cfg}
    (hs : Step s l s') : s'.AtHome := by
  obtain ⟨mv, rep⟩ := l
  cases hs.carried with
  | issue | replacement | mandatory | forward | response | deliverForward | deliverToCache =>
      exact h
  | request d m q x hq hx =>
      obtain rfl := home_of_request hc.routed hc.homed hq
      exact h.dirFinish fun _ => rfl
  | dirResponse d m q x hq hx =>
      obtain rfl := home_of_response hc.homed hq
      exact h.dirFinish fun _ => rfl
  | memory d m q x hq hx =>
      obtain rfl := home_of_memory hc.homed hq
      exact h.dirFinish fun _ => rfl
  | memAnswer | deliverRequest | deliverToDir => exact h.update rfl

omit [DecidableEq C] [DecidableEq A] in
/-- The permission of a controller, by the states of the block. -/
theorem System.AtHome.permission_iff (h : s.AtHome) (a : A) (m : MachineID C D)
    {p : AccessPermission} (hp : p ∈ [.Read_Only, .Read_Write, .Busy]) :
    s.permission a m = p ↔ (∃ c, m = .L1Cache c ∧ (s.state c a).toPermission = p) ∨
      m = .Directory (cfg.mapAddressToDirectory a) ∧ (s.dirState a).toPermission = p := by
  cases m with
  | L1Cache c =>
      simpa [System.permission, System.state] using L1Cache.getAccessPermission_eq_iff _ _ hp
  | Directory d =>
      by_cases hd : cfg.mapAddressToDirectory a = d
      · subst hd
        simp only [System.permission, System.dirState, System.dirTbe, System.dirEntry,
          Directory.getState]
        cases (s.dir (cfg.mapAddressToDirectory a)).tbes a <;> simp
      · have hne : AccessPermission.NotPresent ≠ p := by
          rintro rfl
          exact absurd hp (by decide)
        simp [System.permission, h d a hd, hd, hne, Ne.symm hd]

/-! ### Reading -/

/-- At least two elements of a list without repetitions satisfy a predicate. -/
theorem one_lt_countP_iff {α : Type} {l : List α} (hl : l.Nodup) (p : α → Bool) :
    1 < l.countP p ↔ ∃ x ∈ l, ∃ y ∈ l, p x = true ∧ p y = true ∧ x ≠ y := by
  classical
  rw [List.countP_eq_length_filter, ← List.toFinset_card_of_nodup (hl.filter p),
    Finset.one_lt_card]
  simp only [List.mem_toFinset, List.mem_filter]
  constructor
  · rintro ⟨x, ⟨hx, px⟩, y, ⟨hy, py⟩, hne⟩
    exact ⟨x, hx, y, hy, px, py, hne⟩
  · rintro ⟨x, hx, y, hy, px, py, hne⟩
    exact ⟨x, ⟨hx, px⟩, y, ⟨hy, py⟩, hne⟩

theorem L1Cache.toPermission_eq_readWrite {st : State} :
    st.toPermission = .Read_Write ↔ st = .M := by
  cases st <;> decide

theorem L1Cache.toPermission_eq_readOnly {st : State} :
    st.toPermission = .Read_Only ↔ st = .S := by
  cases st <;> decide

theorem Directory.toPermission_eq_readWrite {st : State} :
    st.toPermission = .Read_Write ↔ st = .M := by
  cases st <;> decide

theorem Directory.toPermission_eq_readOnly {st : State} :
    st.toPermission = .Read_Only ↔ st = .S := by
  cases st <;> decide

theorem L1Cache.toPermission_eq_busy {st : State} :
    st.toPermission = .Busy ↔ st ∉ [.I, .S, .M] := by
  cases st <;> decide

theorem Directory.toPermission_eq_busy {st : State} :
    st.toPermission = .Busy ↔ st ∉ [.I, .S, .M] := by
  cases st <;> decide

omit [DecidableEq C] [DecidableEq A] in
/-- A controller has a copy that may be read: a cache in `S` or `M`, or the home directory in `S` or
`M`. -/
theorem System.AtHome.readable_iff (h : s.AtHome) (a : A) (m : MachineID C D) :
    s.readable a m = true ↔ (∃ c, m = .L1Cache c ∧ s.state c a ∈ [.S, .M]) ∨
      m = .Directory (cfg.mapAddressToDirectory a) ∧ s.dirState a ∈ [.S, .M] := by
  simp only [System.readable, Bool.or_eq_true, decide_eq_true_eq,
    h.permission_iff a m (p := .Read_Only) (by decide),
    h.permission_iff a m (p := .Read_Write) (by decide), L1Cache.toPermission_eq_readWrite,
    L1Cache.toPermission_eq_readOnly, Directory.toPermission_eq_readWrite,
    Directory.toPermission_eq_readOnly, List.mem_cons, List.not_mem_nil, or_false]
  grind

/-- **The assertion of functional accesses** holds unless the directory and a cache are in `M`. -/
theorem Coherent.numPermission_le_one_iff (h : Coherent value s) (hhome : s.AtHome)
    {ctrls : List (MachineID C D)} (hall : ∀ m, m ∈ ctrls) (hnodup : ctrls.Nodup) (a : A) :
    s.numPermission ctrls a .Read_Write ≤ 1 ↔ ¬ (s.dirState a = .M ∧ ∃ c, s.state c a = .M) := by
  have hrw : ∀ m, s.permission a m = .Read_Write ↔ (∃ c, m = .L1Cache c ∧ s.state c a = .M) ∨
      m = .Directory (cfg.mapAddressToDirectory a) ∧ s.dirState a = .M := by
    intro m
    simp only [hhome.permission_iff a m (p := .Read_Write) (by decide),
      L1Cache.toPermission_eq_readWrite, Directory.toPermission_eq_readWrite]
  rw [← not_lt, System.numPermission, one_lt_countP_iff hnodup, not_iff_not]
  simp only [decide_eq_true_eq, hrw]
  constructor
  · rintro ⟨m, -, m', -, ⟨c, rfl, hc⟩ | ⟨rfl, hd⟩, ⟨c', rfl, hc'⟩ | ⟨rfl, hd'⟩, hne⟩
    · have hcc : c ≠ c' := fun e => hne (congrArg _ e)
      exact absurd (by rw [hc]; decide) (h.not_readable hc' hcc)
    · exact ⟨hd', c, hc⟩
    · exact ⟨hd, c', hc'⟩
    · exact absurd rfl hne
  · rintro ⟨hd, c, hc⟩
    exact ⟨.L1Cache c, hall _, .Directory (cfg.mapAddressToDirectory a), hall _,
      Or.inl ⟨c, rfl, hc⟩, Or.inr ⟨rfl, hd⟩, by simp⟩

/-- The state of a block in its home directory is the abstract one. -/
theorem Rel.dirState_eq {a : A} {t : Abs C (DataBlock n)}
    (hr : Rel (cfg.mapAddressToDirectory a) (s.block a) t) : s.dirState a = t.dst := by
  cases hd : t.dst.stable with
  | true => exact (hr.dirState hd).2
  | false =>
      obtain ⟨off, blk, htbe⟩ := hr.dtbe_busy hd
      rw [System.dirState, show s.dirTbe a = _ from htbe]
      rfl

/-- The data of the directory in `S` is the value of the block. -/
theorem Coherent.dirEntry_data (h : Coherent value s) {a : A} (hd : s.dirState a = .S) :
    (s.dirEntry a).dataBlk = value a := by
  obtain ⟨t, hrel, hinv⟩ := h.block a
  rw [hrel.dirState_eq] at hd
  rw [show s.dirEntry a = t.dirEntry from hrel.dentry]
  exact hinv.vDir (by rw [hd]; decide) (by rw [hd]; decide)

/-- A copy that may be read has the value of the block, unless it is that of the directory in
`M`. -/
theorem Coherent.getDataBlock_of_readable (h : Coherent value s) (hhome : s.AtHome) {a : A}
    (hd : s.dirState a ≠ .M) {m : MachineID C D} (hm : s.readable a m = true) :
    s.getDataBlock a m = value a := by
  rcases (hhome.readable_iff a m).1 hm with ⟨c, rfl, hc⟩ | ⟨rfl, hst⟩
  · have hmem : s.state c a ∈ [.S, .M, .SM_AD, .IM_A, .SM_A] := by
      rcases List.mem_cons.1 hc with e | e
      · rw [e]; decide
      · rw [List.mem_singleton.1 e]; decide
    rw [System.getDataBlock, h.entry_of_copy hmem]
    rfl
  · refine h.dirEntry_data ?_
    rcases List.mem_cons.1 hst with e | e
    · exact e
    · exact absurd (List.mem_singleton.1 e) hd

/-! ### Writing all copies -/

section Abstract

variable {V : Type} {t : Abs C V} {g : V}

/-- Apply a function to the line of a cell, if it may be read. -/
def Cell.overwrite (f : V → V) (x : Cell C V) : Cell C V :=
  { x with data := if x.ph.st = .S ∨ x.ph.st = .M then f x.data else x.data }

/-- Apply a function to all copies of a block that may be read. -/
def Abs.overwrite (f : V → V) (t : Abs C V) : Abs C V :=
  { t with
    cell := fun c => (t.cell c).overwrite f
    ddata := if t.dst = .S ∨ t.dst = .M then f t.ddata else t.ddata }

omit [DecidableEq C] in
/-- The line of a cell in `S` or `M` is the only place of the cell with a value. -/
theorem Cell.Ok.overwrite {x : Cell C V} {wait : Finset C} (h : x.Ok g wait) (f : V → V)
    (hx : ¬ (x.ph.st = .S ∨ x.ph.st = .M) →
      x.ph.copy = false ∧ x.ph.incoming = none ∧ x.ph.tbeCopy = false) :
    (x.overwrite f).Ok (f g) wait := by
  by_cases hst : x.ph.st = .S ∨ x.ph.st = .M
  · have hph : x.ph.copy = true ∧ x.ph.incoming = none ∧ x.ph.tbeCopy = false := by
      generalize x.ph = p at hst
      cases p with
      | shared i => exact ⟨rfl, rfl, rfl⟩
      | modified o => exact ⟨rfl, rfl, rfl⟩
      | _ => simp at hst
    obtain ⟨h₁, h₂, h₃⟩ := hph
    refine ⟨fun _ => ?_, ?_, ?_, h.acks, h.inv⟩
    · rw [Cell.overwrite, if_pos hst, h.copy h₁]
    · intro d hd
      exact absurd (h₂.symm.trans hd) (by simp)
    · intro hd
      exact absurd (h₃.symm.trans hd) (by simp)
  · obtain ⟨h₁, h₂, h₃⟩ := hx hst
    rw [Cell.overwrite, if_neg hst]
    exact h.revalue h₁ h₂ h₃ (f g)

omit [DecidableEq C] in
/-- **All current copies are written**: if no current copy is elsewhere, the block has the new
value. -/
theorem Abs.Inv.overwrite (h : t.Inv g) (f : V → V)
    (hcells : ∀ c, ¬ ((t.ph c).st = .S ∨ (t.ph c).st = .M) →
      (t.ph c).copy = false ∧ (t.ph c).incoming = none ∧ (t.ph c).tbeCopy = false)
    (hdir : t.dst = .S ∨ t.dst = .MS_OD) (hmem : t.mem = none) (htd : t.toDir = none) :
    Inv (f g) (t.overwrite f) :=
  { h with
    cells := fun c => (h.cells c).overwrite f (hcells c)
    vDir := by
      intro hM hOD
      have hS : t.dst = .S := hdir.resolve_right hOD
      rw [Abs.overwrite, if_pos (Or.inl hS), h.vDir hM hOD]
    vMem := fun c d e => absurd (hmem.symm.trans e) (by simp)
    vToDir := fun c d e => absurd (htd.symm.trans e) (by simp) }

omit [DecidableEq C] in
/-- **Only the directory is written**, and it is in `M`: the block keeps its value. -/
theorem Abs.Inv.overwrite_stale (h : t.Inv g) (f : V → V)
    (hcells : ∀ c, ¬ ((t.ph c).st = .S ∨ (t.ph c).st = .M)) (hdir : t.dst = .M) :
    Inv g (t.overwrite f) := by
  have hcell : ∀ c, (t.cell c).overwrite f = t.cell c := by
    intro c
    have hc := hcells c
    rw [Abs.ph] at hc
    rw [Cell.overwrite, if_neg hc]
  exact
    { h with
      cells := fun c => by
        change ((t.cell c).overwrite f).Ok g (t.wait c)
        rw [hcell]
        exact h.cells c
      vDir := fun hM => absurd hdir hM }

omit [DecidableEq C] in
/-- A line in `S` belongs to a sharer or is about to be invalidated, so the directory is not in
`I`. -/
theorem Abs.Inv.dst_ne_of_shared (h : t.Inv g) {c : C} (hc : (t.ph c).st = .S) : t.dst ≠ .I := by
  intro hd
  have hgiven : ¬ t.given := by
    rintro ⟨hM | hM, -⟩ <;> rw [hd] at hM <;> cases hM
  have hinv := h.inv_none_of_not_given hgiven c
  have hrole := (h.roles c).1
  rw [(h.dir_at hd).1] at hrole
  generalize t.ph c = p at hc hinv hrole
  cases p with
  | shared i =>
      cases hinv
      simp at hrole
  | _ => simp at hc

end Abstract

/-! ### The loop over the controllers -/

/-- The data of some controllers for a block has been changed by a function, and nothing else. -/
structure Overwritten (a : A) (f : DataBlock n → DataBlock n) (ms : List (MachineID C D))
    (s s' : System C D A n cfg) : Prop where
  l1 : ∀ c, s'.l1 c = { s.l1 c with cacheMemory := (s'.l1 c).cacheMemory }
  dir : ∀ d, s'.dir d = { s.dir d with directory := (s'.dir d).directory }
  requestNet : s'.requestNet = s.requestNet
  forwardNet : s'.forwardNet = s.forwardNet
  responseNet : s'.responseNet = s.responseNet
  time : s'.time = s.time
  entry : ∀ c b, s'.entry c b = if b = a ∧ .L1Cache c ∈ ms then
    (s.entry c b).map fun e => { e with dataBlk := f e.dataBlk } else s.entry c b
  directory : ∀ d b, (s'.dir d).directory b = if b = a ∧ .Directory d ∈ ms then
    { (s.dir d).directory b with dataBlk := f ((s.dir d).directory b).dataBlk }
    else (s.dir d).directory b

namespace Overwritten

variable {a : A} {f : DataBlock n → DataBlock n} {ms : List (MachineID C D)}

theorem refl (s : System C D A n cfg) : Overwritten a f [] s s where
  l1 _ := rfl
  dir _ := rfl
  requestNet := rfl
  forwardNet := rfl
  responseNet := rfl
  time := rfl
  entry c b := by simp
  directory d b := by simp

/-- One more cache. -/
theorem cache (h : Overwritten a f ms s s') {c : C} (hc : .L1Cache c ∉ ms) :
    Overwritten a f (ms ++ [.L1Cache c]) s
      (s'.setDataBlock a (f (s'.getDataBlock a (.L1Cache c))) (.L1Cache c)) where
  l1 y := by
    change Function.update s'.l1 c _ y = _
    by_cases hy : y = c
    · subst hy
      simp only [System.setDataBlock, Function.update_self]
      rw [h.l1 y]
    · simp only [System.setDataBlock, Function.update_of_ne hy]
      exact h.l1 y
  dir := h.dir
  requestNet := h.requestNet
  forwardNet := h.forwardNet
  responseNet := h.responseNet
  time := h.time
  entry y b := by
    have hmem : .L1Cache y ∈ ms ++ [.L1Cache c] ↔ .L1Cache y ∈ ms ∨ y = c := by simp
    by_cases hy : y = c
    · subst hy
      have hold := h.entry y b
      change (Function.update s'.l1 y _ y).cacheMemory.lookup b = _
      rw [Function.update_self]
      by_cases hb : b = a
      · subst hb
        rw [if_neg (fun e => hc e.2)] at hold
        rw [if_pos ⟨rfl, hmem.2 (Or.inr rfl)⟩, CacheMemory.lookup_assign_self, System.getDataBlock,
          hold]
        · cases s.entry y b <;> rfl
        · intro hnone hsome
          rw [show s'.entry y b = none from hnone] at hsome
          cases hsome
      · rw [if_neg (fun e => hb e.1)] at hold ⊢
        rw [CacheMemory.lookup_assign_of_ne _ _ hb]
        exact hold
    · change (Function.update s'.l1 c _ y).cacheMemory.lookup b = _
      rw [Function.update_of_ne hy]
      simp only [hmem, hy, or_false]
      exact h.entry y b
  directory d b := by
    have hmem : .Directory d ∈ ms ++ [.L1Cache c] ↔ .Directory d ∈ ms := by simp
    simp only [hmem]
    exact h.directory d b

/-- One more directory. -/
theorem directoryStep (h : Overwritten a f ms s s') {d : D} (hd : .Directory d ∉ ms) :
    Overwritten a f (ms ++ [.Directory d]) s
      (s'.setDataBlock a (f (s'.getDataBlock a (.Directory d))) (.Directory d)) where
  l1 := h.l1
  dir e := by
    change Function.update s'.dir d _ e = _
    by_cases he : e = d
    · subst he
      simp only [System.setDataBlock, Function.update_self]
      rw [h.dir e]
    · simp only [System.setDataBlock, Function.update_of_ne he]
      exact h.dir e
  requestNet := h.requestNet
  forwardNet := h.forwardNet
  responseNet := h.responseNet
  time := h.time
  entry c b := by
    have hmem : .L1Cache c ∈ ms ++ [.Directory d] ↔ .L1Cache c ∈ ms := by simp
    simp only [hmem]
    exact h.entry c b
  directory e b := by
    have hmem : .Directory e ∈ ms ++ [.Directory d] ↔ .Directory e ∈ ms ∨ e = d := by simp
    change (Function.update s'.dir d _ e).directory b = _
    by_cases he : e = d
    · subst he
      have hold := h.directory e b
      rw [Function.update_self]
      by_cases hb : b = a
      · subst hb
        rw [if_neg (fun e => hd e.2)] at hold
        rw [if_pos ⟨rfl, hmem.2 (Or.inr rfl)⟩, System.getDataBlock]
        simp only [Function.update_self, hold]
      · rw [if_neg (fun e => hb e.1)] at hold ⊢
        simp only [Function.update_of_ne hb, hold]
    · rw [Function.update_of_ne he]
      simp only [hmem, he, or_false]
      exact h.directory e b

/-- The permissions are as before. -/
theorem permission_eq (h : Overwritten a f ms s s') (b : A) (m : MachineID C D) :
    s'.permission b m = s.permission b m := by
  cases m with
  | L1Cache c =>
      have htbes : (s'.l1 c).tbes b = (s.l1 c).tbes b := by rw [h.l1 c]
      simp only [System.permission, htbes, h.entry c b]
      split
      · cases (s.l1 c).tbes b <;> cases s.entry c b <;> rfl
      · rfl
  | Directory d =>
      have htbes : (s'.dir d).tbes b = (s.dir d).tbes b := by rw [h.dir d]
      have hst : ((s'.dir d).directory b).directoryState =
          ((s.dir d).directory b).directoryState := by
        rw [h.directory d b]
        split <;> rfl
      simp only [System.permission, htbes, hst]

/-- Messages are where they were. -/
theorem routed (h : Overwritten a f ms s s') (hr : Routed s) : Routed s' where
  request c d m hm := hr.request c d m (h.requestNet ▸ hm)
  queue d m hm := hr.queue d m (by rwa [h.dir d] at hm)
  response src dst m hm := hr.response src dst m (h.responseNet ▸ hm)

/-- The view of a block, up to the lines and the directory entry. -/
theorem block_eq (h : Overwritten a f ms s s') (b : A) :
    s'.block b = { s.block b with
      entry := fun c => s'.entry c b
      dentry := s'.dirEntry b } := by
  have htbe : ∀ c, (s'.l1 c).tbes b = (s.l1 c).tbes b := fun c => by rw [h.l1 c]
  have hdtbe : s'.dirTbe b = s.dirTbe b := by
    unfold System.dirTbe
    rw [h.dir]
  have hfwd : ∀ c, (s'.l1 c).forwardToCache = (s.l1 c).forwardToCache := fun c => by rw [h.l1 c]
  have hreq : ∀ d, (s'.dir d).requestToDir = (s.dir d).requestToDir := fun d => by rw [h.dir d]
  have hresp : ∀ dst, s'.responseQueue dst = s.responseQueue dst := by
    intro dst
    cases dst with
    | L1Cache c => exact (congrArg Cache.responseToCache (h.l1 c) :)
    | Directory d => exact (congrArg Dir.responseToDir (h.dir d) :)
  have hmem : ∀ d, (s'.dir d).memInput = (s.dir d).memInput ∧
      (s'.dir d).memResponse = (s.dir d).memResponse := fun d => by rw [h.dir d]; exact ⟨rfl, rfl⟩
  simp only [System.block, htbe, hdtbe, hfwd, hreq, hresp, (hmem _).1, (hmem _).2, h.requestNet,
    h.forwardNet, h.responseNet, h.time]

/-- The other blocks are as before. -/
theorem block_of_ne (h : Overwritten a f ms s s') {b : A} (hb : b ≠ a) :
    s'.block b = s.block b := by
  have hentry : (fun c => s'.entry c b) = fun c => s.entry c b := by
    funext c
    rw [h.entry c b, if_neg (fun e => hb e.1)]
  have hdentry : s'.dirEntry b = s.dirEntry b :=
    (h.directory _ b).trans (if_neg fun e => hb e.1)
  rw [h.block_eq, hentry, hdentry]
  rfl

/-- **All copies that may be read have been written**, as the abstract state says. -/
theorem rel (h : Overwritten a f ms s s') (hhome : s.AtHome)
    (hms : ∀ m, m ∈ ms ↔ s.readable a m = true) {t : Abs C (DataBlock n)}
    (hr : Rel (cfg.mapAddressToDirectory a) (s.block a) t) :
    Rel (cfg.mapAddressToDirectory a) (s'.block a) (t.overwrite f) := by
  rw [h.block_eq]
  refine ⟨?_, hr.tbe, ?_, hr.dtbe, hr.req, hr.away, hr.fwd, hr.stray, hr.resp, hr.mem, hr.memAway,
    hr.time⟩
  · intro c
    have hst : s.state c a = (t.ph c).st := hr.state c
    have hread : .L1Cache c ∈ ms ↔ (t.cell c).ph.st = .S ∨ (t.cell c).ph.st = .M := by
      rw [hms, hhome.readable_iff]
      simp [hst, Abs.ph, -Phase.st]
    change s'.entry c a = ((t.cell c).overwrite f).entry
    rw [h.entry, show s.entry c a = (t.cell c).entry from hr.entry c, Cell.entry_eq, Cell.entry_eq]
    simp only [hread, true_and, Cell.overwrite]
    by_cases hI : (t.cell c).ph.st = .I
    · simp [hI, -Phase.st]
    · simp only [hI, if_false, Option.map_some]
      split <;> rfl
  · have hread : .Directory (cfg.mapAddressToDirectory a) ∈ ms ↔ t.dst = .S ∨ t.dst = .M := by
      rw [hms, hhome.readable_iff, hr.dirState_eq]
      simp
    have hold : (s.dir (cfg.mapAddressToDirectory a)).directory a = t.dirEntry := hr.dentry
    change s'.dirEntry a = (t.overwrite f).dirEntry
    rw [System.dirEntry, h.directory, hold]
    simp only [hread, true_and, Abs.dirEntry, Abs.overwrite]
    split <;> rfl

end Overwritten

/-- The loop of a functional write. -/
theorem System.writeCopies_overwritten (s : System C D A n cfg) {ctrls : List (MachineID C D)}
    (hnodup : ctrls.Nodup) (pkt : Packet A n) :
    Overwritten pkt.lineAddress (fun blk => blk.setData pkt.data pkt.offset)
      (ctrls.filter (s.readable pkt.lineAddress)) s (s.writeCopies ctrls pkt) := by
  induction ctrls using List.reverseRecOn with
  | nil => exact .refl s
  | append_singleton ms m ih =>
      obtain ⟨hms, -, hdisj⟩ := List.nodup_append'.1 hnodup
      have hm : m ∉ ms := fun hm => hdisj hm List.mem_cons_self
      have ih := ih hms
      have hread : (s.writeCopies ms pkt).readable pkt.lineAddress m =
          s.readable pkt.lineAddress m := by
        simp only [System.readable, ih.permission_eq]
      have hstep : s.writeCopies (ms ++ [m]) pkt =
          let s₁ := s.writeCopies ms pkt
          if s.readable pkt.lineAddress m = true then
            s₁.setDataBlock pkt.lineAddress
              ((s₁.getDataBlock pkt.lineAddress m).setData pkt.data pkt.offset) m
          else s₁ := by
        rw [← hread]
        exact List.foldl_append
      have hmem : m ∉ ms.filter (s.readable pkt.lineAddress) := fun h =>
        hm (List.mem_of_mem_filter h)
      rw [hstep, List.filter_append]
      by_cases hr : s.readable pkt.lineAddress m = true
      · rw [if_pos hr, List.filter_cons_of_pos hr]
        cases m with
        | L1Cache c => exact ih.cache hmem
        | Directory d => exact ih.directoryStep hmem
      · rw [if_neg hr, List.filter_cons_of_neg hr, List.filter_nil, List.append_nil]
        exact ih

/-! ### What functional accesses do -/

section Spec

variable {ctrls : List (MachineID C D)}

/-- **All copies are written**: a cache is in `M`, and the directory knows that it has to wait for
it; or the directory is in `S`, and no cache is busy. -/
theorem Coherent.overwritten (h : Coherent value s) (hhome : s.AtHome) {a : A}
    {f : DataBlock n → DataBlock n} {ms : List (MachineID C D)} (hw : Overwritten a f ms s s')
    (hms : ∀ m, m ∈ ms ↔ s.readable a m = true) (hd : s.dirState a ≠ .M)
    (hc : (∃ c, s.state c a = .M) ∨ s.dirState a = .S ∧ ∀ c, s.state c a ∈ [.I, .S, .M]) :
    Coherent (Function.update value a (f (value a))) s' := by
  refine ⟨hw.routed h.routed, fun b => ?_⟩
  by_cases hb : b = a
  · subst hb
    obtain ⟨t, hrel, hinv⟩ := h.block b
    have hst : ∀ c, s.state c b = (t.ph c).st := hrel.state
    rw [hrel.dirState_eq] at hd hc
    simp only [hst] at hc
    refine ⟨t.overwrite f, hw.rel hhome hms hrel, ?_⟩
    rw [Function.update_self]
    rcases hc with ⟨c, hc⟩ | ⟨hS, hc⟩
    · obtain ⟨o, ho⟩ : ∃ o, t.ph c = .modified o := by
        generalize t.ph c = p at hc
        cases p with
        | modified o => exact ⟨o, rfl⟩
        | _ => cases hc
      have htok : (t.ph c).tok = true := by rw [ho]; rfl
      obtain ⟨hg, htd⟩ := hinv.token.given c htok
      have hOD : t.dst = .MS_OD := hg.resolve_left hd
      refine hinv.overwrite f ?_ (Or.inr hOD) (hinv.dir_at hOD).2.1 htd
      intro y hy
      refine hinv.exclusive htok (hinv.ackOk ho) ?_
      rintro rfl
      exact hy (Or.inr hc)
    · refine hinv.overwrite f ?_ (Or.inl hS) (hinv.dir_at hS).2.1 (hinv.dir_at hS).2.2
      intro y hy
      have hIdle : (t.ph y).st = .I := by
        have := hc y
        simp only [List.mem_cons, List.not_mem_nil, or_false] at this
        exact this.resolve_right hy
      generalize t.ph y = p at hIdle
      cases p with
      | idle => exact ⟨rfl, rfl, rfl⟩
      | _ => cases hIdle
  · rw [Function.update_of_ne hb, hw.block_of_ne hb]
    exact h.block b

/-- **Only the directory is written**, and it is in `M`. -/
theorem Coherent.overwritten_stale (h : Coherent value s) (hhome : s.AtHome) {a : A}
    {f : DataBlock n → DataBlock n} {ms : List (MachineID C D)} (hw : Overwritten a f ms s s')
    (hms : ∀ m, m ∈ ms ↔ s.readable a m = true) (hd : s.dirState a = .M)
    (hc : ∀ c, s.state c a ∉ [.S, .M]) : Coherent value s' := by
  refine ⟨hw.routed h.routed, fun b => ?_⟩
  by_cases hb : b = a
  · subst hb
    obtain ⟨t, hrel, hinv⟩ := h.block b
    have hst : ∀ c, s.state c b = (t.ph c).st := hrel.state
    rw [hrel.dirState_eq] at hd
    refine ⟨t.overwrite f, hw.rel hhome hms hrel, hinv.overwrite_stale f ?_ hd⟩
    intro c
    have := hc c
    rw [hst] at this
    simpa [-Phase.st] using this
  · rw [hw.block_of_ne hb]
    exact h.block b

/-- When a functional write goes through. -/
theorem Coherent.write_iff (h : Coherent value s) (hhome : s.AtHome) (hall : ∀ m, m ∈ ctrls)
    {a : A} (hd : s.dirState a ≠ .M) (hle : s.numPermission ctrls a .Read_Write ≤ 1) :
    (s.numPermission ctrls a .Busy = 0 ∧ 0 < s.numPermission ctrls a .Read_Only ∨
      s.numPermission ctrls a .Read_Write = 1) ↔
    (∃ c, s.state c a = .M) ∨ s.dirState a = .S ∧ ∀ c, s.state c a ∈ [.I, .S, .M] := by
  have hpos : ∀ p : AccessPermission, p ∈ [.Read_Only, .Read_Write, .Busy] →
      (0 < s.numPermission ctrls a p ↔ (∃ c, (s.state c a).toPermission = p) ∨
        (s.dirState a).toPermission = p) := by
    intro p hp
    simp only [System.numPermission, List.countP_pos_iff, decide_eq_true_eq,
      hhome.permission_iff a _ hp]
    constructor
    · rintro ⟨m, -, ⟨c, rfl, hc⟩ | ⟨rfl, hd⟩⟩
      · exact Or.inl ⟨c, hc⟩
      · exact Or.inr hd
    · rintro (⟨c, hc⟩ | hd)
      · exact ⟨_, hall _, Or.inl ⟨c, rfl, hc⟩⟩
      · exact ⟨_, hall _, Or.inr ⟨rfl, hd⟩⟩
  have hrw : s.numPermission ctrls a .Read_Write = 1 ↔ ∃ c, s.state c a = .M := by
    have := hpos .Read_Write (by decide)
    simp only [L1Cache.toPermission_eq_readWrite, Directory.toPermission_eq_readWrite, hd,
      or_false] at this
    rw [← this]
    omega
  have hro := hpos .Read_Only (by decide)
  have hbusy := hpos .Busy (by decide)
  simp only [L1Cache.toPermission_eq_readOnly, Directory.toPermission_eq_readOnly] at hro
  simp only [L1Cache.toPermission_eq_busy, Directory.toPermission_eq_busy] at hbusy
  have hzero : s.numPermission ctrls a .Busy = 0 ↔ ¬ 0 < s.numPermission ctrls a .Busy := by omega
  rw [hrw, hro, hzero, hbusy, not_or, not_exists]
  simp only [not_not]
  constructor
  · rintro (⟨⟨hcells, hst⟩, hS⟩ | hM)
    · refine Or.inr ⟨?_, hcells⟩
      have hI : s.dirState a = .I ∨ s.dirState a = .S := by
        simp only [List.mem_cons, List.not_mem_nil, or_false, hd] at hst
        exact hst
      rcases hS with ⟨c, hc⟩ | hS
      · obtain ⟨t, hrel, hinv⟩ := h.block a
        rw [show s.state c a = (t.ph c).st from hrel.state c] at hc
        rw [hrel.dirState_eq] at hI ⊢
        exact hI.resolve_left (hinv.dst_ne_of_shared hc)
      · exact hS
    · exact Or.inl hM
  · rintro (hM | ⟨hS, hcells⟩)
    · exact Or.inr hM
    · exact Or.inl ⟨⟨hcells, by rw [hS]; decide⟩, Or.inr hS⟩

/-- **A functional write keeps coherence**, for the new value, unless the directory is in `M`. -/
theorem Coherent.functionalWrite (h : Coherent value s) (hhome : s.AtHome)
    (hall : ∀ m, m ∈ ctrls) (hnodup : ctrls.Nodup) {pkt : Packet A n} {done : Bool}
    (hd : s.dirState pkt.lineAddress ≠ .M)
    (hw : s.doFunctionalWrite ctrls pkt = .ok (s', done)) :
    s'.AtHome ∧ Coherent (if done = true then Function.update value pkt.lineAddress
      ((value pkt.lineAddress).setData pkt.data pkt.offset) else value) s' := by
  have hov := s.writeCopies_overwritten hnodup pkt
  have hms : ∀ m, m ∈ ctrls.filter (s.readable pkt.lineAddress) ↔
      s.readable pkt.lineAddress m = true := by
    intro m
    simp [hall m]
  unfold System.doFunctionalWrite at hw
  split at hw
  · next hle =>
      split at hw
      · next hdone =>
          cases hw
          refine ⟨?_, ?_⟩
          · intro d b hb
            rw [hov.dir d]
            exact hhome d b hb
          · rw [if_pos rfl]
            exact h.overwritten hhome hov hms hd ((h.write_iff hhome hall hd hle).1 hdone)
      · cases hw
        exact ⟨hhome, h⟩
  · cases hw

/-- **A functional read returns the value of the block** or nothing, unless the directory is in
`M`. -/
theorem Coherent.functionalRead (h : Coherent value s) (hhome : s.AtHome) {pkt : Packet A n}
    {r : Option (List UInt8)} (hd : s.dirState pkt.lineAddress ≠ .M)
    (hr : s.doFunctionalRead ctrls pkt = .ok r) :
    ∀ bytes ∈ r, bytes =
      (value pkt.lineAddress).getData pkt.offset pkt.data.length pkt.fits := by
  unfold System.doFunctionalRead at hr
  split at hr
  · cases hr
    intro bytes hb
    obtain ⟨m, hm, rfl⟩ := Option.map_eq_some_iff.1 hb
    rw [h.getDataBlock_of_readable hhome hd (List.find?_some hm)]
  · cases hr

end Spec

/-! ### Runs with functional accesses -/

variable (C D A n cfg) in
/-- What happens in a run: a step of the system, or a functional access with its result. -/
inductive AccessLabel where
  | move (l : Label C D A n cfg)
  | read (pkt : Packet A n) (result : Option (List UInt8))
  | write (pkt : Packet A n) (done : Bool)

/-- A step of the system, or a functional access to a block that its directory has not in `M`. -/
inductive AccessStep (ctrls : List (MachineID C D)) (s : System C D A n cfg) :
    AccessLabel C D A n cfg → System C D A n cfg → Prop
  | move {l : Label C D A n cfg} {s' : System C D A n cfg} (h : Step s l s') :
      AccessStep ctrls s (.move l) s'
  | read (pkt : Packet A n) (r : Option (List UInt8)) (hd : s.dirState pkt.lineAddress ≠ .M)
      (h : s.doFunctionalRead ctrls pkt = .ok r) : AccessStep ctrls s (.read pkt r) s
  | write (pkt : Packet A n) (done : Bool) {s' : System C D A n cfg}
      (hd : s.dirState pkt.lineAddress ≠ .M)
      (h : s.doFunctionalWrite ctrls pkt = .ok (s', done)) : AccessStep ctrls s (.write pkt done) s'

namespace AccessLabel

/-- The values of the blocks afterwards: stores and functional writes that were done change them. -/
def overwrite (value : A → DataBlock n) : AccessLabel C D A n cfg → A → DataBlock n
  | .move l => fun a => (callbacksOf a l.2).foldl L1Cache.Callback.overwrite (value a)
  | .read _ _ => value
  | .write pkt done =>
      if done = true then
        Function.update value pkt.lineAddress
          ((value pkt.lineAddress).setData pkt.data pkt.offset)
      else value

/-- Everything that is read is the value of its block. -/
def Reads (value : A → DataBlock n) : AccessLabel C D A n cfg → Prop
  | .move l => ∀ a, Msi.Reads (value a) (callbacksOf a l.2)
  | .read pkt r => ∀ bytes ∈ r, bytes =
      (value pkt.lineAddress).getData pkt.offset pkt.data.length pkt.fits
  | .write _ _ => True

end AccessLabel

/-- The runs with functional accesses. -/
def AccessRun (ctrls : List (MachineID C D)) (mem : A → DataBlock n) :
    List (AccessLabel C D A n cfg) → System C D A n cfg → Prop :=
  Lts.Run (· = System.init cfg mem) (AccessStep ctrls)

section Runs

variable {ctrls : List (MachineID C D)} {mem : A → DataBlock n}
  {ls : List (AccessLabel C D A n cfg)}

/-- **One step keeps coherence**, and reads the values of the blocks. -/
theorem Coherent.accessStep (h : Coherent value s) (hhome : s.AtHome) (hall : ∀ m, m ∈ ctrls)
    (hnodup : ctrls.Nodup) {l : AccessLabel C D A n cfg} (hs : AccessStep ctrls s l s') :
    l.Reads value ∧ Coherent (l.overwrite value) s' ∧ s'.AtHome := by
  cases hs with
  | move hs =>
      obtain ⟨hreads, hc⟩ := h.step hs
      exact ⟨hreads, hc, hhome.step h hs⟩
  | read pkt r hd hr => exact ⟨h.functionalRead hhome hd hr, h, hhome⟩
  | write pkt done hd hw =>
      obtain ⟨hhome', hc⟩ := h.functionalWrite hhome hall hnodup hd hw
      exact ⟨trivial, hc, hhome'⟩

theorem AccessRun.coherent (h : AccessRun ctrls mem ls s) (hall : ∀ m, m ∈ ctrls)
    (hnodup : ctrls.Nodup) : Coherent (ls.foldl AccessLabel.overwrite mem) s ∧ s.AtHome := by
  refine Lts.Run.invariant
    (P := fun ls s => Coherent (ls.foldl AccessLabel.overwrite mem) s ∧ s.AtHome) ?_ ?_ h
  · rintro s rfl
    exact ⟨Coherent.init mem, fun _ _ _ => rfl⟩
  · rintro ls s l s' - ⟨hc, hhome⟩ hs
    rw [List.foldl_append]
    exact (hc.accessStep hhome hall hnodup hs).2

/-- Everything that is read along a run from a coherent state is the value of its block. -/
theorem Coherent.reads_from (h : Coherent value s) {ks : List (Label C D A n cfg)}
    (hr : Lts.Run (· = s) Step ks s') :
    Coherent (ghost value ks) s' ∧ ∀ a, Reads (value a) (trace ks a) := by
  refine Lts.Run.invariant (P := fun ks s' => Coherent (ghost value ks) s' ∧
    ∀ a, Reads (value a) (trace ks a)) ?_ ?_ hr
  · rintro s' rfl
    exact ⟨h, fun a => Reads.nil (value a)⟩
  · rintro ks s₁ l s₂ - ⟨hc, hreads⟩ hs
    obtain ⟨hl, hc'⟩ := hc.step hs
    refine ⟨by simpa only [funext (ghost_snoc value ks l)] using hc', fun a => ?_⟩
    have ht : trace (ks ++ [l]) a = trace ks a ++ callbacksOf a l.2 := by
      simp [trace, List.flatMap_append]
    rw [ht]
    exact (hreads a).append (hl a)

/-- **Functional accesses see and make the values that the processors see and make**, in every run
in which they are made to blocks that the directory has not in `M`: whatever is read, by a processor
or functionally, is the content of memory at the start, overwritten by all stores and all functional
writes before it. -/
theorem functional_accesses (h : AccessRun ctrls mem ls s) (hall : ∀ m, m ∈ ctrls)
    (hnodup : ctrls.Nodup) {before after : List (AccessLabel C D A n cfg)}
    {l : AccessLabel C D A n cfg} (hls : ls = before ++ l :: after) :
    l.Reads (before.foldl AccessLabel.overwrite mem) := by
  subst hls
  obtain ⟨s₁, s₂, hbefore, hl⟩ := h.step_at
  obtain ⟨hc, hhome⟩ := AccessRun.coherent hbefore hall hnodup
  exact (hc.accessStep hhome hall hnodup hl).1

omit [DecidableEq C] [DecidableEq A] in
theorem System.doFunctionalRead_error_iff (s : System C D A n cfg) (pkt : Packet A n) :
    s.doFunctionalRead ctrls pkt = .error .assertion ↔
      ¬ s.numPermission ctrls pkt.lineAddress .Read_Write ≤ 1 := by
  unfold System.doFunctionalRead
  split <;> simp [*]

theorem System.doFunctionalWrite_error_iff (s : System C D A n cfg) (pkt : Packet A n) :
    s.doFunctionalWrite ctrls pkt = .error .assertion ↔
      ¬ s.numPermission ctrls pkt.lineAddress .Read_Write ≤ 1 := by
  unfold System.doFunctionalWrite
  split
  · split <;> simp [*]
  · simp [*]

/-- **When functional accesses fail, refuse, and are lost.** The assertion fails if the directory
and a cache are in `M`.  Unless the directory is in `M`, a read finds a copy if a cache is in `S` or
`M` or the directory in `S`, and a write is done if a cache is in `M`, or the directory is in `S`
and no cache is busy.  If the directory is in `M` and no cache is in `S` or `M` — the new owner
still waits, or already evicts the block — a write is reported as done, but no processor will ever
see it. -/
theorem functional_access_cases (h : AccessRun ctrls mem ls s) (hall : ∀ m, m ∈ ctrls)
    (hnodup : ctrls.Nodup) (pkt : Packet A n) :
    let a := pkt.lineAddress
    (s.doFunctionalRead ctrls pkt = .error .assertion ↔
      s.dirState a = .M ∧ ∃ c, s.state c a = .M) ∧
    (s.doFunctionalWrite ctrls pkt = .error .assertion ↔
      s.dirState a = .M ∧ ∃ c, s.state c a = .M) ∧
    (s.dirState a ≠ .M →
      (∃ r, s.doFunctionalRead ctrls pkt = .ok r ∧
        (r.isSome = true ↔ (∃ c, s.state c a ∈ [.S, .M]) ∨ s.dirState a = .S)) ∧
      ∃ s' done, s.doFunctionalWrite ctrls pkt = .ok (s', done) ∧
        (done = true ↔
          (∃ c, s.state c a = .M) ∨ s.dirState a = .S ∧ ∀ c, s.state c a ∈ [.I, .S, .M])) ∧
    (s.dirState a = .M → (∀ c, s.state c a ∉ [.S, .M]) →
      ∃ s', s.doFunctionalWrite ctrls pkt = .ok (s', true) ∧
        ∀ ks s'', Lts.Run (· = s') Step ks s'' →
          ∀ b, Reads (ls.foldl AccessLabel.overwrite mem b) (trace ks b)) := by
  intro a
  obtain ⟨hc, hhome⟩ := h.coherent hall hnodup
  have hle := hc.numPermission_le_one_iff hhome hall hnodup a
  refine ⟨?_, ?_, ?_, ?_⟩
  · rw [s.doFunctionalRead_error_iff, hle, not_not]
  · rw [s.doFunctionalWrite_error_iff, hle, not_not]
  · intro hd
    have hone : s.numPermission ctrls a .Read_Write ≤ 1 := hle.2 fun e => hd e.1
    refine ⟨⟨_, if_pos hone, ?_⟩, ?_⟩
    · rw [Option.isSome_map, List.find?_isSome]
      simp only [hhome.readable_iff]
      constructor
      · rintro ⟨m, -, ⟨c, -, hst⟩ | ⟨-, hst⟩⟩
        · exact Or.inl ⟨c, hst⟩
        · simp only [List.mem_cons, List.not_mem_nil, or_false] at hst
          exact Or.inr (hst.resolve_right hd)
      · rintro (⟨c, hst⟩ | hst)
        · exact ⟨_, hall _, Or.inl ⟨c, rfl, hst⟩⟩
        · exact ⟨_, hall _, Or.inr ⟨rfl, by rw [hst]; decide⟩⟩
    · rw [← hc.write_iff hhome hall hd hone, System.doFunctionalWrite, if_pos hone]
      split
      · next hw => exact ⟨_, _, rfl, iff_of_true rfl hw⟩
      · next hw => exact ⟨_, _, rfl, iff_of_false Bool.false_ne_true hw⟩
  · intro hd hcells
    have hM : ¬ ∃ c, s.state c a = .M := by
      rintro ⟨c, hst⟩
      exact hcells c (by rw [hst]; decide)
    have hone : s.numPermission ctrls a .Read_Write ≤ 1 := hle.2 fun e => hM e.2
    have hpos : 0 < s.numPermission ctrls a .Read_Write := by
      refine List.countP_pos_iff.2 ⟨.Directory (cfg.mapAddressToDirectory a), hall _, ?_⟩
      rw [decide_eq_true_eq, hhome.permission_iff a _ (by decide)]
      exact Or.inr ⟨rfl, by rw [hd]; rfl⟩
    refine ⟨s.writeCopies ctrls pkt, ?_, ?_⟩
    · rw [System.doFunctionalWrite, if_pos hone, if_pos (Or.inr (le_antisymm hone hpos))]
    · intro ks s'' hr b
      have hms : ∀ m, m ∈ ctrls.filter (s.readable a) ↔ s.readable a m = true := by
        intro m
        simp [hall m]
      exact ((hc.overwritten_stale hhome (s.writeCopies_overwritten hnodup pkt) hms hd
        hcells).reads_from hr).2 b

/-- A run of the system is one without functional accesses. -/
theorem Run.access {ks : List (Label C D A n cfg)} (h : Run mem ks s) :
    AccessRun ctrls mem (ks.map .move) s := by
  refine Lts.Run.invariant (P := fun ks s => AccessRun ctrls mem (ks.map .move) s) ?_ ?_ h
  · exact fun s hs => .start hs
  · intro ks s l s' _ ih hs
    rw [List.map_append]
    exact ih.snoc (.move hs)

end Runs

end Access

/-! ### Accesses to the small system -/

/-- The controllers of the small system. -/
def demoControllers : List (MachineID (Fin 4) (Fin 2)) :=
  (List.finRange 4).map .L1Cache ++ (List.finRange 2).map .Directory

theorem mem_demoControllers : ∀ m, m ∈ demoControllers := by
  intro m
  cases m <;> simp [demoControllers]

/-- A cache has loaded a block; a byte of it is written functionally, and read. -/
theorem functional_accesses_demo :
    ∃ (ls : List (AccessLabel (Fin 4) (Fin 2) (Fin 2) 1 demo)) (s : _),
      AccessRun demoControllers (fun _ => default)
        (ls ++ [.write (bytePacket true false 0 7) true] ++
          [.read (bytePacket false false 0 0) (some [7])]) s ∧
      ∀ bytes ∈ some [(7 : UInt8)], bytes = DataBlock.getData
        ((ls ++ [AccessLabel.write (bytePacket true false 0 7) true]).foldl AccessLabel.overwrite
          (fun _ => default) 0) 0 1 le_rfl := by
  have hrun : AccessRun demoControllers _ ((after (ask 1 0 .LD ++ fetch 1 0)).1.map .move) _ :=
    (run_after (by decide +kernel)).access
  have hwrite := hrun.snoc (.write (bytePacket true false 0 7) true (by decide +kernel) rfl)
  have hread := hwrite.snoc (.read (bytePacket false false 0 0) (some [7]) (by decide +kernel) rfl)
  exact ⟨_, _, hread, functional_accesses hread mem_demoControllers (by decide) rfl⟩

/-- While a cache has a block in `M`, an access to it fails; while the data is still on its way to
the cache, a write is reported as done and lost. -/
theorem functional_access_cases_demo :
    (after (ask 1 0 .ST ++ fetch 1 0)).2.doFunctionalRead demoControllers
      (bytePacket false false 0 0) = .error .assertion ∧
    ∃ s', (after (ask 1 0 .ST ++ [.memAnswer 0 0, .memory 0])).2.doFunctionalWrite demoControllers
        (bytePacket true false 0 7) = .ok (s', true) ∧
      ∀ ks s'', Lts.Run (· = s') Step ks s'' → Reads default (trace ks 0) := by
  have hM : AccessRun demoControllers _ ((after (ask 1 0 .ST ++ fetch 1 0)).1.map .move) _ :=
    (run_after (by decide +kernel)).access
  have hwait : AccessRun demoControllers _
      ((after (ask 1 0 .ST ++ [.memAnswer 0 0, .memory 0])).1.map .move) _ :=
    (run_after (by decide +kernel)).access
  obtain ⟨hfail, -⟩ := functional_access_cases hM mem_demoControllers (by decide)
    (bytePacket false false 0 0)
  obtain ⟨-, -, -, hlost⟩ := functional_access_cases hwait mem_demoControllers (by decide)
    (bytePacket true false 0 7)
  obtain ⟨s', hs', hreads⟩ := hlost (by decide +kernel) (by decide +kernel)
  exact ⟨hfail.2 ⟨by decide +kernel, 1, by decide +kernel⟩, s', hs',
    fun ks s'' hr => hreads ks s'' hr 0⟩

end Msi
