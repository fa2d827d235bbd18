/-
**The transitions of the directory keep the coherence invariant.**

The directory side of the abstract protocol of `ArchLab/MsiAbs.lean`: each way in which the home
directory of a block can process a request, an answer of its memory controller, or the data of a
former owner, as a change of the abstract state, with the proof that it keeps `Msi.Abs.Inv`.

All of them change the cell of the requestor only, except those that put an invalidation or a
forwarded request into the queue of another cache (`grant`, `forwardGets`, `forwardGetm`).

Main results:

* `Msi.Abs.Inv.fetchS`, `fetchM`, `fetchedS`, `fetchedM` — the first access, by way of the memory;
* `Msi.Abs.Inv.share`, `grant` — a load and a store to a shared block;
* `Msi.Abs.Inv.forwardGets`, `forwardGetm` — a load and a store to a modified block;
* `Msi.Abs.Inv.ownerData`, `sharedAgain` — a modified block becomes shared;
* `Msi.Abs.Inv.putAck`, `writeBack`, `writtenBack` — writebacks.
-/

import ArchLab.MsiAbs

set_option relaxedAutoImplicit false
set_option autoImplicit false

namespace Msi

open Handoff

/-- The requestor `p` of a request that is forwarded to the owner `o`; before, it was `q`. -/
structure Phase.Forwarded {C V : Type} (p q : Phase C V) (o : C) : Prop where
  inv : p.inv = q.inv
  own : p.own = none
  tok : p.tok = false
  fwd : p.fwd = some o
  fetching : p.fetching = false
  writing : p.writing = false
  own' : q.own = none
  tok' : q.tok = false
  fwd' : q.fwd = none

namespace Abs.Inv

variable {C V : Type} [DecidableEq C] {g : V} {s : Abs C V} {c : C} {x : Cell C V}

/-! ### The frame of a directory transition -/

/-- A transition of the directory that changes the cell of one cache and makes no link: what has to
be checked. -/
theorem dirChange (h : s.Inv g) {dst : Directory.State} {ddata : V} {sharers owner : Finset C}
    {mem : Option (MemoryRequestType × C × V)} {toDir : Option (C × V)}
    (hinv : x.ph.inv = (s.ph c).inv) (hown : x.ph.own = (s.ph c).own)
    (hfwd : x.ph.fwd = (s.ph c).fwd) (hload : (s.ph c).fwd ≠ none → x.ph.loading = (s.ph c).loading)
    (hrole : (c ∈ sharers ↔ x.ph.role.1 = true) ∧ (c ∈ owner ↔ x.ph.role.2 = true))
    (hroles : ∀ y, y ≠ c → (y ∈ sharers ↔ y ∈ s.sharers) ∧ (y ∈ owner ↔ y ∈ s.owner))
    (htoken : Token (Function.update (fun y => (s.ph y).tok) c x.ph.tok)
      ((dst = .M ∨ dst = .MS_OD) ∧ toDir = none))
    (hdir : dirOk sharers owner mem toDir
      (Function.update (fun y => (s.ph y).fetching) c x.ph.fetching)
      (Function.update (fun y => (s.ph y).writing) c x.ph.writing) (fun y => (s.ph y).own) dst)
    (hfet : x.ph.fetching = true →
      (dst = .IS_MD ∨ dst = .IM_MD) ∧ ∃ d, mem = some (.MEMORY_READ, c, d))
    (hfets : ∀ y, y ≠ c → (s.ph y).fetching = false)
    (hwr : x.ph.writing = true → dst = .MI_MA ∧ ∃ d, mem = some (.MEMORY_WB, c, d))
    (hwrs : ∀ y, y ≠ c → (s.ph y).writing = true →
      dst = .MI_MA ∧ ∃ d, mem = some (.MEMORY_WB, y, d))
    (hgetS : ∀ o r t, (s.ph o).own = some (.GETS, r, t) →
      dst = .MS_OD ∧ toDir = none ∧ ∀ y ∈ sharers, y = o ∨ y = r)
    (hok : x.Ok g (s.wait c)) (hvDir : dst ≠ .M → dst ≠ .MS_OD → ddata = g)
    (hvMem : ∀ c d, mem = some (.MEMORY_READ, c, d) → d = g)
    (hvToDir : ∀ c d, toDir = some (c, d) → d = g) :
    Inv g { s.set c x with
      dst := dst, ddata := ddata, sharers := sharers, owner := owner, mem := mem,
      toDir := toDir } where
  roles := forall_ph_set (P := fun y p => (y ∈ sharers ↔ p.role.1 = true) ∧
      (y ∈ owner ↔ p.role.2 = true)) hrole fun y hy =>
    ⟨(hroles y hy).1.trans (h.roles y).1, (hroles y hy).2.trans (h.roles y).2⟩
  token := by
    refine (proj_set Phase.tok s c x).symm ▸ ?_
    exact htoken
  links := by
    refine (proj_set_self hown).symm ▸ (proj_set_self hfwd).symm ▸ ?_
    refine h.links.mono le_rfl fun k r o hr hk => ?_
    change _ ↔ ((s.set c x).ph r).loading = true
    by_cases hy : r = c
    · subst hy
      rw [ph_set_self, hload (Option.ne_none_iff_exists'.2 ⟨o, hr⟩)]
      exact hk
    · rwa [ph_set_of_ne _ _ hy]
  waits := by
    refine (proj_set_self hown).symm ▸ (proj_set_self hinv).symm ▸ ?_
    exact h.waits
  dir := by
    refine (proj_set_self hown).symm ▸ (proj_set Phase.fetching s c x).symm ▸
      (proj_set Phase.writing s c x).symm ▸ ?_
    exact hdir
  fetching := forall_ph_set (P := fun y p => p.fetching = true →
      (dst = .IS_MD ∨ dst = .IM_MD) ∧ ∃ d, mem = some (.MEMORY_READ, y, d)) hfet fun y hy e =>
    absurd ((hfets y hy).symm.trans e) (by simp)
  writing := forall_ph_set (P := fun y p => p.writing = true →
      dst = .MI_MA ∧ ∃ d, mem = some (.MEMORY_WB, y, d)) hwr hwrs
  getS := forall_ph_set (P := fun o p => ∀ r t, p.own = some (.GETS, r, t) →
      dst = .MS_OD ∧ toDir = none ∧ ∀ y ∈ sharers, y = o ∨ y = r)
    (by rw [hown]; exact hgetS c) fun o _ => hgetS o
  cells := forall_cell_set (P := fun y z => z.Ok g (s.wait y)) hok fun y _ => h.cells y
  vDir := hvDir
  vMem := hvMem
  vToDir := hvToDir

/-! ### What the state of the directory excludes -/

omit [DecidableEq C] in
theorem fetching_false (h : s.Inv g) (h₁ : s.dst ≠ .IS_MD) (h₂ : s.dst ≠ .IM_MD) (y : C) :
    (s.ph y).fetching = false := by
  cases hy : (s.ph y).fetching with
  | false => rfl
  | true =>
      rcases (h.fetching y hy).1 with e | e
      · exact absurd e h₁
      · exact absurd e h₂

omit [DecidableEq C] in
theorem writing_false (h : s.Inv g) (h₁ : s.dst ≠ .MI_MA) (y : C) : (s.ph y).writing = false := by
  cases hy : (s.ph y).writing with
  | false => rfl
  | true => exact absurd (h.writing y hy).1 h₁

omit [DecidableEq C] in
theorem own_ne_getS (h : s.Inv g) (h₁ : s.dst ≠ .MS_OD) (o r : C) (t : ℕ) :
    (s.ph o).own ≠ some (.GETS, r, t) := fun e => h₁ (h.getS o r t e).1

/-! ### First accesses -/

/-- A `GETS` to an idle block: the directory asks its memory controller. -/
theorem fetchS (h : s.Inv g) (hd : s.dst = .I) (hc : s.ph c = .loadSent) :
    Inv g { s.set c { s.cell c with ph := .loadWait .mem none } with
      dst := .IS_MD, sharers := insert c s.sharers, mem := some (.MEMORY_READ, c, s.ddata) } := by
  have hng : ¬ s.given := by simp [given, hd]
  have hdir := h.dir_at hd
  obtain ⟨hs, ho, -, htd⟩ := hdir
  have hdd : s.ddata = g := h.vDir (by simp [hd]) (by simp [hd])
  refine h.dirChange (by rw [hc]; rfl) (by rw [hc]; rfl) (by rw [hc]; rfl) (by simp [hc])
    (by simp [ho]) (fun y hy => by simp [hy]) ((h.token.absent hng _).keep (by rw [hc]; rfl)) ?_
    (fun _ => ⟨Or.inl rfl, _, rfl⟩)
    (fun y _ => h.fetching_false (by simp [hd]) (by simp [hd]) y) (by simp)
    (fun y _ e => absurd ((h.writing_false (by simp [hd]) y).symm.trans e) (by simp))
    (fun o r t e => absurd e (h.own_ne_getS (by simp [hd]) o r t)) ?_ (fun _ _ => hdd) ?_ h.vToDir
  · exact ⟨ho, htd, c, _, by simp [hs], rfl, by simp⟩
  · have ha := h.ackOk hc
    exact ⟨by simp, by simp, by simp, ha, trivial⟩
  · rintro _ _ ⟨⟩
    exact hdd

/-- A `GETM` to an idle block: the directory asks its memory controller. -/
theorem fetchM (h : s.Inv g) (hd : s.dst = .I) (hc : s.ph c = .storeSent) :
    Inv g { s.set c { s.cell c with ph := .storeWait .mem none } with
      dst := .IM_MD, owner := {c}, mem := some (.MEMORY_READ, c, s.ddata) } := by
  have hng : ¬ s.given := by simp [given, hd]
  have hdir := h.dir_at hd
  obtain ⟨hs, ho, -, htd⟩ := hdir
  have hdd : s.ddata = g := h.vDir (by simp [hd]) (by simp [hd])
  refine h.dirChange (by rw [hc]; rfl) (by rw [hc]; rfl) (by rw [hc]; rfl) (by simp [hc])
    (by simp [hs]) (fun y hy => by simp [hy, ho])
    ((h.token.absent hng _).keep (by rw [hc]; rfl)) ?_ (fun _ => ⟨Or.inr rfl, _, rfl⟩)
    (fun y _ => h.fetching_false (by simp [hd]) (by simp [hd]) y) (by simp)
    (fun y _ e => absurd ((h.writing_false (by simp [hd]) y).symm.trans e) (by simp))
    (fun o r t e => absurd e (h.own_ne_getS (by simp [hd]) o r t)) ?_ (fun _ _ => hdd) ?_ h.vToDir
  · exact ⟨hs, htd, c, _, rfl, rfl, by simp⟩
  · have ha := h.ackOk hc
    exact ⟨by simp, by simp, by simp, ha, trivial⟩
  · rintro _ _ ⟨⟩
    exact hdd

omit [DecidableEq C] in
/-- Only the cache named in the request at the memory controller waits for it. -/
theorem fetching_other (h : s.Inv g) {d : V} (hm : s.mem = some (.MEMORY_READ, c, d)) (y : C)
    (hy : y ≠ c) : (s.ph y).fetching = false := by
  cases hf : (s.ph y).fetching with
  | false => rfl
  | true =>
      obtain ⟨-, d', hd'⟩ := h.fetching y hf
      rw [hm] at hd'
      simp only [Option.some.injEq, Prod.mk.injEq, true_and] at hd'
      exact absurd hd'.1.symm hy

omit [DecidableEq C] in
/-- The cache that a `GETS` at the memory controller is for. -/
theorem fetchingS (h : s.Inv g) (hd : s.dst = .IS_MD) {d : V}
    (hm : s.mem = some (.MEMORY_READ, c, d)) : s.ph c = .loadWait .mem none := by
  have hdir := h.dir_at hd
  obtain ⟨-, -, c', d', hs, hm', hf⟩ := hdir
  rw [hm] at hm'
  obtain ⟨-, rfl, rfl⟩ : True ∧ c = c' ∧ d = d' := by simpa using hm'
  replace hf : (s.ph c).fetching = true := hf
  have hr := (h.roles c).1.1 (by simp [hs])
  have hg := h.own_ne_getS (by simp [hd]) c
  generalize s.ph c = p at hf hr hg ⊢
  cases p with
  | loadWait w i => cases w <;> cases i <;> simp_all
  | storeWait w o =>
      rcases o with - | ⟨_ | _, r, t⟩
      · simp at hr
      · exact absurd rfl (hg r t)
      · simp at hr
  | _ => simp at hf

omit [DecidableEq C] in
/-- The cache that a `GETM` at the memory controller is for. -/
theorem fetchingM (h : s.Inv g) (hd : s.dst = .IM_MD) {d : V}
    (hm : s.mem = some (.MEMORY_READ, c, d)) : s.ph c = .storeWait .mem none := by
  have hdir := h.dir_at hd
  obtain ⟨-, -, c', d', ho, hm', hf⟩ := hdir
  rw [hm] at hm'
  obtain ⟨-, rfl, rfl⟩ : True ∧ c = c' ∧ d = d' := by simpa using hm'
  replace hf : (s.ph c).fetching = true := hf
  have hr := (h.roles c).2.1 (by simp [ho])
  generalize s.ph c = p at hf hr ⊢
  cases p with
  | loadWait w i => simp at hr
  | storeWait w o => cases w <;> rcases o with - | ⟨_ | _, r, t⟩ <;> simp_all
  | _ => simp at hf

/-- The memory controller answers a `GETS`. -/
theorem fetchedS (h : s.Inv g) (hd : s.dst = .IS_MD) {d : V}
    (hm : s.mem = some (.MEMORY_READ, c, d)) :
    Inv g { s.set c { s.cell c with ph := .loadWait (.dir d 0) none } with
      dst := .S, mem := none } := by
  have hc := h.fetchingS hd hm
  have hng : ¬ s.given := by simp [given, hd]
  have hdir := h.dir_at hd
  obtain ⟨ho, htd, -⟩ := hdir
  have hdd : s.ddata = g := h.vDir (by simp [hd]) (by simp [hd])
  have hdg : d = g := h.vMem c d hm
  refine h.dirChange (by rw [hc]; rfl) (by rw [hc]; rfl) (by rw [hc]; rfl) (by simp [hc])
    (by rw [sharers_set, owner_set, (h.roles c).1, (h.roles c).2, hc]; simp)
    (fun y hy => by simp) ((h.token.absent hng _).keep (by rw [hc]; rfl)) ⟨ho, rfl, htd⟩ (by simp)
    (h.fetching_other hm) (by simp)
    (fun y _ e => absurd ((h.writing_false (by simp [hd]) y).symm.trans e) (by simp))
    (fun o r t e => absurd e (h.own_ne_getS (by simp [hd]) o r t)) ?_ (fun _ _ => hdd) (by simp)
    h.vToDir
  have ha := h.ackOk hc
  exact ⟨by simp, by simp [hdg], by simp, ha, rfl⟩

/-- The memory controller answers a `GETM`: the token is given out. -/
theorem fetchedM (h : s.Inv g) (hd : s.dst = .IM_MD) {d : V}
    (hm : s.mem = some (.MEMORY_READ, c, d)) :
    Inv g { s.set c { s.cell c with ph := .storeWait (.dir d 0) none } with
      dst := .M, mem := none } := by
  have hc := h.fetchingM hd hm
  have hng : ¬ s.given := by simp [given, hd]
  have hdir := h.dir_at hd
  obtain ⟨hs, htd, c', d', ho, -⟩ := hdir
  have hdg : d = g := h.vMem c d hm
  refine h.dirChange (by rw [hc]; rfl) (by rw [hc]; rfl) (by rw [hc]; rfl) (by simp [hc])
    (by rw [sharers_set, owner_set, (h.roles c).1, (h.roles c).2, hc]; simp)
    (fun y hy => by simp) (h.token.give hng ⟨Or.inl rfl, htd⟩) ⟨hs, ⟨c', ho⟩, rfl, htd⟩ (by simp)
    (h.fetching_other hm) (by simp)
    (fun y _ e => absurd ((h.writing_false (by simp [hd]) y).symm.trans e) (by simp))
    (fun o r t e => absurd e (h.own_ne_getS (by simp [hd]) o r t)) ?_ (by simp) (by simp) h.vToDir
  obtain ⟨h₁, h₂⟩ := h.ackOk hc
  exact ⟨by simp, by simp [hdg], by simp, by simp [Phase.ackOk, h₁, h₂], trivial⟩

/-- A `GETS` to a shared block. -/
theorem share (h : s.Inv g) (hd : s.dst = .S) (hc : s.ph c = .loadSent) :
    Inv g { s.set c { s.cell c with ph := .loadWait (.dir s.ddata 0) none } with
      sharers := insert c s.sharers } := by
  have hdir := h.dir_at hd
  have hdd : s.ddata = g := h.vDir (by simp [hd]) (by simp [hd])
  refine h.dirChange (by rw [hc]; rfl) (by rw [hc]; rfl) (by rw [hc]; rfl) (by simp [hc])
    (by simp [hdir.1]) (fun y hy => by simp [hy]) (h.token.keep (by rw [hc]; rfl))
    (by rw [dst_set, hd]; exact hdir) (by simp)
    (fun y _ => h.fetching_false (by simp [hd]) (by simp [hd]) y) (by simp)
    (fun y _ e => absurd ((h.writing_false (by simp [hd]) y).symm.trans e) (by simp))
    (fun o r t e => absurd e (h.own_ne_getS (by simp [hd]) o r t)) ?_ h.vDir h.vMem h.vToDir
  have ha := h.ackOk hc
  exact ⟨by simp, by simp [hdd], by simp, ha, rfl⟩

/-! ### Writebacks -/

omit [DecidableEq C] in
/-- What a cache with a writeback request on its way, and that is not the owner, keeps when the
request is answered. -/
theorem putAcked_keeps {p : Phase C V} {k : Put} (hp : p.put = some k) (ho : p.role.2 = false) :
    p.putAcked.inv = p.inv ∧ p.putAcked.own = p.own ∧ p.putAcked.tok = p.tok ∧
      p.putAcked.role = (false, false) ∧ p.putAcked.tbeCopy = p.tbeCopy := by
  cases p with
  | evictM o =>
      rcases o with - | ⟨_ | _, r, t⟩
      · exact absurd ho.symm Bool.false_ne_true
      · exact ⟨rfl, rfl, rfl, rfl, rfl⟩
      · exact ⟨rfl, rfl, rfl, rfl, rfl⟩
  | evictS | evictI => exact ⟨rfl, rfl, rfl, rfl, rfl⟩
  | _ => cases hp

omit [DecidableEq C] in
theorem putAcked_outside {p : Phase C V} {k : Put} (hp : p.put = some k) :
    p.fwd = none ∧ p.putAcked.fwd = none ∧ p.putAcked.fetching = false ∧
      p.putAcked.writing = false ∧ p.writing = false ∧ p.putAcked.copy = false ∧
      p.putAcked.incoming = none := by
  cases p with
  | evictM | evictS | evictI => exact ⟨rfl, rfl, rfl, rfl, rfl, rfl, rfl⟩
  | _ => cases hp

omit [DecidableEq C] in
theorem putAcked_ackOk {p : Phase C V} {k : Put} (hp : p.put = some k) {n : ℤ} {w : Finset C}
    (h : p.ackOk n w) : p.putAcked.ackOk n w ∧ p.putAcked.invOk := by
  cases p with
  | evictM | evictS | evictI => exact ⟨h, trivial⟩
  | _ => cases hp

/-- A writeback request of a cache that is not the owner is answered at once; the cache is no
sharer any more.  If it was the last, the directory may go back to `I`. -/
theorem putAck (h : s.Inv g) {k : Put} (hp : (s.ph c).put = some k) (ho : c ∉ s.owner)
    (h₁ : s.dst ≠ .IS_MD) (h₂ : s.dst ≠ .IM_MD) {dst : Directory.State}
    (hd : dst = s.dst ∨ s.dst = .S ∧ dst = .I ∧ s.sharers.erase c = ∅) :
    Inv g { s.set c { s.cell c with ph := (s.ph c).putAcked } with
      sharers := s.sharers.erase c, dst := dst } := by
  have hor : (s.ph c).role.2 = false := by
    rwa [(h.roles c).2, Bool.not_eq_true] at ho
  obtain ⟨hinv, hown, htok, hrole, htbe⟩ := putAcked_keeps hp hor
  obtain ⟨hf, hf', hfet, hwr, hwc, hcopy, hinc⟩ := putAcked_outside hp
  refine h.dirChange hinv hown (hf'.trans hf.symm) (absurd hf) (by rw [hrole]; simp [ho])
    (fun y hy => by simp [hy]) ?_ ?_ (by rw [hfet]; simp) (fun y _ => h.fetching_false h₁ h₂ y)
    (by rw [hwr]; simp) ?_ ?_ ?_ ?_ h.vMem h.vToDir
  · rcases hd with rfl | ⟨hS, rfl, -⟩
    · exact h.token.keep htok
    · exact (h.token.absent (by simp [given, hS]) _).keep htok
  · rw [Function.update_eq_self_iff.2 (hfet.trans (h.fetching_false h₁ h₂ c).symm)]
    rw [Function.update_eq_self_iff.2 (hwr.trans hwc.symm)]
    rcases hd with rfl | ⟨hS, rfl, he⟩
    · exact h.dir.erase h₁ c
    · have hdir := h.dir_at hS
      exact ⟨he, hdir⟩
  · intro y _ e
    obtain ⟨hM, d, hm⟩ := h.writing y e
    rcases hd with rfl | ⟨hS, -⟩
    · exact ⟨hM, d, hm⟩
    · exact absurd (hM.symm.trans hS) (by simp)
  · intro o r t e
    obtain ⟨hM, htd, hsh⟩ := h.getS o r t e
    rcases hd with rfl | ⟨hS, -⟩
    · exact ⟨hM, htd, fun y hy => hsh y (Finset.mem_of_mem_erase hy)⟩
    · exact absurd (hM.symm.trans hS) (by simp)
  · obtain ⟨ha, hi⟩ := putAcked_ackOk hp (h.ackOk rfl)
    refine ⟨by rw [hcopy]; simp, by rw [hinc]; simp, ?_, ha, hi⟩
    rw [htbe]
    exact (h.cells c).tbeCopy
  · rcases hd with rfl | ⟨hS, rfl, -⟩
    · exact h.vDir
    · exact fun _ _ => h.vDir (by simp [hS]) (by simp [hS])

/-- The owner writes its data back: the token returns to the directory. -/
theorem writeBack (h : s.Inv g) (hd : s.dst = .M) (hc : s.ph c = .evictM none) (d : V) :
    Inv g { s.set c { s.cell c with ph := .evictMem } with
      dst := .MI_MA, ddata := (s.cell c).tdata, mem := some (.MEMORY_WB, c, d) } := by
  have hdir := h.dir_at hd
  obtain ⟨hs, ⟨c', ho⟩, -, htd⟩ := hdir
  have hcc : c = c' := by
    have hr := (h.roles c).2.2 (by rw [hc]; rfl)
    simpa [ho] using hr
  subst hcc
  have htok : (s.ph c).tok = true := by rw [hc]; rfl
  have hv : (s.cell c).tdata = g := (h.cells c).tbeCopy (by
    change (s.ph c).tbeCopy = true
    rw [hc]
    rfl)
  refine h.dirChange (by rw [hc]; rfl) (by rw [hc]; rfl) (by rw [hc]; rfl) (by simp [hc])
    (by simp [hs, ho]) (fun y hy => by simp) (h.token.drop htok _) ⟨hs, htd, c, d, ho, rfl, by simp⟩
    (by simp) (fun y _ => h.fetching_false (by simp [hd]) (by simp [hd]) y)
    (fun _ => ⟨rfl, d, rfl⟩)
    (fun y _ e => absurd ((h.writing_false (by simp [hd]) y).symm.trans e) (by simp))
    (fun o r t e => absurd e (h.own_ne_getS (by simp [hd]) o r t)) ?_ (fun _ _ => hv) (by simp)
    h.vToDir
  have ha := h.ackOk hc
  exact ⟨by simp, by simp, by simp, ha, trivial⟩

omit [DecidableEq C] in
/-- The cache whose data the memory controller writes back. -/
theorem writingBack (h : s.Inv g) (hd : s.dst = .MI_MA) {d : V}
    (hm : s.mem = some (.MEMORY_WB, c, d)) : s.ph c = .evictMem := by
  have hdir := h.dir_at hd
  obtain ⟨-, -, c', d', -, hm', hwr⟩ := hdir
  rw [hm] at hm'
  obtain ⟨-, rfl, -⟩ : True ∧ c = c' ∧ d = d' := by simpa using hm'
  replace hwr : (s.ph c).writing = true := hwr
  generalize s.ph c = p at hwr ⊢
  cases p with
  | evictMem => rfl
  | _ => cases hwr

/-- The memory controller has written the data of an owner back. -/
theorem writtenBack (h : s.Inv g) (hd : s.dst = .MI_MA) {d : V}
    (hm : s.mem = some (.MEMORY_WB, c, d)) :
    Inv g { s.set c { s.cell c with ph := .evictAcked none } with
      dst := .I, owner := ∅, mem := none } := by
  have hc := h.writingBack hd hm
  have hdir := h.dir_at hd
  obtain ⟨hs, htd, c', d', ho, hm', -⟩ := hdir
  have hcc : c = c' := by
    rw [hm] at hm'
    simpa using congrArg (Option.map fun q => q.2.1) hm'
  subst hcc
  have hng : ¬ s.given := by simp [given, hd]
  have hdd : s.ddata = g := h.vDir (by simp [hd]) (by simp [hd])
  have hwrs : ∀ y, y ≠ c → (s.ph y).writing ≠ true := by
    intro y hy e
    obtain ⟨-, d'', hm''⟩ := h.writing y e
    rw [hm] at hm''
    simp only [Option.some.injEq, Prod.mk.injEq, true_and] at hm''
    exact hy hm''.1.symm
  refine h.dirChange (by rw [hc]; rfl) (by rw [hc]; rfl) (by rw [hc]; rfl) (by simp [hc])
    (by simp [hs]) (fun y hy => by simp [ho, hy]) ((h.token.absent hng _).keep (by rw [hc]; rfl))
    ⟨hs, rfl, rfl, htd⟩ (by simp) (fun y _ => h.fetching_false (by simp [hd]) (by simp [hd]) y)
    (by simp) (fun y hy e => absurd e (hwrs y hy))
    (fun o r t e => absurd e (h.own_ne_getS (by simp [hd]) o r t)) ?_ (fun _ _ => hdd) (by simp)
    h.vToDir
  have ha := h.ackOk hc
  exact ⟨by simp, by simp, by simp, ha, trivial⟩

omit [DecidableEq C] in
/-- The data of a former owner reaches the directory, which writes it back. -/
theorem ownerData (h : s.Inv g) (hd : s.dst = .MS_OD) {o : C} {d : V}
    (htd : s.toDir = some (o, d)) (d' : V) :
    Inv g { s with
      dst := .MS_MA, ddata := d, mem := some (.MEMORY_WB, o, d'), toDir := none } where
  roles := h.roles
  token := h.token.absent (by simp [given, htd]) _
  links := h.links
  waits := h.waits
  dir := by
    have hdir := h.dir_at hd
    exact ⟨hdir.1, rfl, o, d', rfl⟩
  fetching y e := absurd ((h.fetching_false (by simp [hd]) (by simp [hd]) y).symm.trans e) (by simp)
  writing y e := absurd ((h.writing_false (by simp [hd]) y).symm.trans e) (by simp)
  getS o' r t e := absurd ((h.getS o' r t e).2.1.symm.trans htd) (by simp)
  cells := h.cells
  vDir _ _ := h.vToDir o d htd
  vMem := by simp
  vToDir := by simp

omit [DecidableEq C] in
/-- The memory controller has written the data of a former owner back. -/
theorem sharedAgain (h : s.Inv g) (hd : s.dst = .MS_MA) :
    Inv g { s with dst := .S, owner := ∅, mem := none } := by
  have hdir := h.dir_at hd
  obtain ⟨ho, htd, -⟩ := hdir
  exact
    { roles := fun c => ho ▸ h.roles c
      token := h.token.absent (by simp [given, hd]) _
      links := h.links
      waits := h.waits
      dir := ⟨rfl, rfl, htd⟩
      fetching := fun y e =>
        absurd ((h.fetching_false (by simp [hd]) (by simp [hd]) y).symm.trans e) (by simp)
      writing := fun y e => absurd ((h.writing_false (by simp [hd]) y).symm.trans e) (by simp)
      getS := fun o r t e => absurd e (h.own_ne_getS (by simp [hd]) o r t)
      cells := h.cells
      vDir := fun _ _ => h.vDir (by simp [hd]) (by simp [hd])
      vMem := by simp
      vToDir := h.vToDir }

/-! ### Forwarded requests -/

omit [DecidableEq C] in
/-- What a cache keeps when a forwarded request is put into its queue. -/
theorem setOwn_keeps (p : Phase C V) (f : PendingFwd C) :
    (p.setOwn f).inv = p.inv ∧ (p.setOwn f).fwd = p.fwd ∧ (p.setOwn f).fetching = p.fetching ∧
      (p.setOwn f).writing = p.writing ∧ (p.setOwn f).loading = p.loading ∧
      (p.setOwn f).tok = p.tok := by
  cases p with
  | storeWait w o => cases w <;> exact ⟨rfl, rfl, rfl, rfl, rfl, rfl⟩
  | _ => exact ⟨rfl, rfl, rfl, rfl, rfl, rfl⟩

omit [DecidableEq C] in
/-- The queue of the owner of a modified block is free for a forwarded request. -/
theorem setOwn_own {p : Phase C V} (hr : p.role.2 = true) (hw : p.writing = false)
    (f : PendingFwd C) :
    p.own = none ∧ (p.setOwn f).own = f ∧ (p.setOwn f).role = Phase.fwdRole f := by
  cases p with
  | modified o | storeWait _ o | upgradeData _ _ o | upgradeFwd _ _ o | storeAcks o
  | upgradeAcks o | evictM o =>
      rcases o with - | ⟨_ | _, r, t⟩
      · exact ⟨rfl, rfl, rfl⟩
      · exact absurd hr Bool.false_ne_true
      · exact absurd hr Bool.false_ne_true
  | evictMem => exact absurd hw.symm Bool.false_ne_true
  | _ => exact absurd hr Bool.false_ne_true

omit [DecidableEq C] in
theorem setOwn_ok {y : Cell C V} {w : Finset C} (hr : y.ph.role.2 = true) (f : PendingFwd C)
    (h : y.Ok g w) : Cell.Ok g w { y with ph := y.ph.setOwn f } := by
  obtain ⟨p, d, td, k⟩ := y
  obtain ⟨h₁, h₂, h₃, h₄, h₅⟩ := h
  cases p with
  | storeWait v o => cases v <;> exact ⟨h₁, h₂, h₃, h₄, h₅⟩
  | evictAcked o => simp at hr
  | _ => exact ⟨h₁, h₂, h₃, h₄, h₅⟩

/-- The directory forwards a request of `c` to the owner `o`.  What becomes of the directory depends
on the kind of the request. -/
theorem forward (h : s.Inv g) (hd : s.dst = .M) {o : C} (ho : s.owner = {o}) (hoc : c ≠ o)
    {k : Kind} {dst : Directory.State} {sharers owner : Finset C}
    (hx : x.ph.Forwarded (s.ph c) o) (hload : k = .GETS ↔ x.ph.loading = true)
    (hok : x.Ok g (s.wait c))
    (hrole : (c ∈ sharers ↔ x.ph.role.1 = true) ∧ (c ∈ owner ↔ x.ph.role.2 = true))
    (hroleo : (o ∈ sharers ↔ (Phase.fwdRole (some (k, c, s.time))).1 = true) ∧
      (o ∈ owner ↔ (Phase.fwdRole (some (k, c, s.time))).2 = true))
    (hroles : ∀ y, y ≠ c → y ≠ o → y ∉ sharers ∧ y ∉ owner)
    (hdst : dst = .M ∨ dst = .MS_OD)
    (hdir : dirOk sharers owner s.mem s.toDir (fun y => (s.ph y).fetching)
      (fun y => (s.ph y).writing)
      (Function.update (fun y => (s.ph y).own) o (some (k, c, s.time))) dst)
    (hgetS : k = .GETS → dst = .MS_OD ∧ ∀ y ∈ sharers, y = o ∨ y = c) :
    Inv g { (s.set c x).set o { s.cell o with ph := (s.ph o).setOwn (some (k, c, s.time)) } with
      dst := dst, sharers := sharers, owner := owner, time := s.time + 1 } := by
  have hro : (s.ph o).role.2 = true := (h.roles o).2.1 (by simp [ho])
  have hwo : (s.ph o).writing = false := h.writing_false (by simp [hd]) o
  obtain ⟨hinv, hfwd, hfet, hwr, hlo, htok⟩ := setOwn_keeps (s.ph o) (some (k, c, s.time))
  obtain ⟨hown, hown', hrole'⟩ := setOwn_own hro hwo (some (k, c, s.time))
  obtain ⟨hs, -, -, htd⟩ := h.dir_at hd
  have hso : (s.set c x).ph o = s.ph o := ph_set_of_ne _ _ hoc.symm
  have hcfet : (s.ph c).fetching = false := h.fetching_false (by simp [hd]) (by simp [hd]) c
  have hcwr : (s.ph c).writing = false := h.writing_false (by simp [hd]) c
  set y : Cell C V := { s.cell o with ph := (s.ph o).setOwn (some (k, c, s.time)) } with hy
  have hOwn : (fun z => (((s.set c x).set o y).ph z).own) =
      Function.update (fun z => (s.ph z).own) o (some (k, c, s.time)) := by
    rw [proj_set, proj_set_self (hx.own.trans hx.own'.symm)]
    exact congrArg _ hown'
  have hFet := proj_set_set (y := y) Phase.fetching hoc.symm (hx.fetching.trans hcfet.symm) hfet
  have hWr := proj_set_set (y := y) Phase.writing hoc.symm (hx.writing.trans hcwr.symm) hwr
  have hLoad : ∀ z, z ≠ c → (((s.set c x).set o y).ph z).loading = (s.ph z).loading := by
    intro z hz
    by_cases hzo : z = o
    · subst hzo
      rw [ph_set_self]
      exact hlo
    · rw [ph_set_of_ne _ _ hzo, ph_set_of_ne _ _ hz]
  have hout : ∀ z, z ≠ c → z ≠ o → (s.ph z).role.1 = false ∧ (s.ph z).role.2 = false := by
    intro z hz hzo
    have h₁ := (h.roles z).1
    have h₂ := (h.roles z).2
    simp only [hs, ho, Finset.notMem_empty, Finset.mem_singleton, hzo, false_iff,
      Bool.not_eq_true] at h₁ h₂
    exact ⟨h₁, h₂⟩
  constructor
  · refine forall_ph_set (P := fun y p => (y ∈ sharers ↔ p.role.1 = true) ∧
      (y ∈ owner ↔ p.role.2 = true)) (by rw [hy, hrole']; exact hroleo) fun z hzo => ?_
    by_cases hz : z = c
    · subst hz
      rw [ph_set_self]
      exact hrole
    · rw [ph_set_of_ne _ _ hz]
      obtain ⟨h₁, h₂⟩ := hout z hz hzo
      obtain ⟨h₃, h₄⟩ := hroles z hz hzo
      exact ⟨iff_of_false h₃ (by rw [h₁]; simp), iff_of_false h₄ (by rw [h₂]; simp)⟩
  · refine (proj_set_set (y := y) Phase.tok hoc.symm (hx.tok.trans hx.tok'.symm) htok).symm ▸ ?_
    exact h.token.mono fun hg => ⟨hdst, hg.2⟩
  · have hFwd : (fun z => (((s.set c x).set o y).ph z).fwd) =
        Function.update (fun z => (s.ph z).fwd) c (some o) := by
      rw [proj_set_self (f := Phase.fwd) (hfwd.trans (congrArg _ hso.symm)), proj_set, hx.fwd]
    refine hOwn.symm ▸ hFwd.symm ▸ ?_
    have hl : Links (fun z => (s.ph z).own) (fun z => (s.ph z).fwd)
        (fun k r => k = .GETS ↔ (((s.set c x).set o y).ph r).loading = true) s.time := by
      refine h.links.mono le_rfl fun k' r o' hr hk => ?_
      rw [hLoad r]
      · exact hk
      · rintro rfl
        exact absurd (hx.fwd'.symm.trans hr) (by simp)
    refine hl.add hown hx.own' hx.fwd' hoc.symm ?_
    rw [ph_set_of_ne _ _ hoc, ph_set_self]
    exact hload
  · refine hOwn.symm ▸ (proj_set_set (y := y) Phase.inv hoc.symm hx.inv hinv).symm ▸ ?_
    refine h.waits.mono (Nat.le_succ _) fun r k' r' t' e => ?_
    by_cases hr : r = o
    · subst hr
      simp only [Function.update_self, Option.some.injEq, Prod.mk.injEq] at e
      exact Or.inr e.2.2.le
    · rw [Function.update_of_ne hr] at e
      exact Or.inl e
  · refine hOwn.symm ▸ hFet.symm ▸ hWr.symm ▸ ?_
    exact hdir
  · intro z e
    exact absurd ((h.fetching_false (by simp [hd]) (by simp [hd]) z).symm.trans
      ((congrFun hFet z).symm.trans e)) (by simp)
  · intro z e
    exact absurd ((h.writing_false (by simp [hd]) z).symm.trans
      ((congrFun hWr z).symm.trans e)) (by simp)
  · intro o' r t e
    have e' := (congrFun hOwn o').symm.trans e
    by_cases ho' : o' = o
    · subst ho'
      simp only [Function.update_self, Option.some.injEq, Prod.mk.injEq] at e'
      obtain ⟨hk, rfl, -⟩ := e'
      exact ⟨(hgetS hk).1, htd, (hgetS hk).2⟩
    · rw [Function.update_of_ne ho'] at e'
      exact absurd e' (h.own_ne_getS (by simp [hd]) o' r t)
  · refine forall_cell_set (P := fun y z => z.Ok g (s.wait y)) (setOwn_ok hro _ (h.cells o))
      fun z _ => ?_
    exact forall_cell_set (P := fun y z => z.Ok g (s.wait y)) hok (fun y _ => h.cells y) z
  · intro h₁ h₂
    rcases hdst with e | e
    · exact absurd e h₁
    · exact absurd e h₂
  · exact h.vMem
  · exact h.vToDir

/-- A `GETS` to a modified block. -/
theorem forwardGets (h : s.Inv g) (hd : s.dst = .M) {o : C} (ho : s.owner = {o})
    (hc : s.ph c = .loadSent) :
    Inv g { (s.set c { s.cell c with ph := .loadWait (.fwd o) none }).set o
        { s.cell o with ph := (s.ph o).setOwn (some (.GETS, c, s.time)) } with
      dst := .MS_OD, sharers := insert c (s.sharers ∪ s.owner), owner := ∅,
      time := s.time + 1 } := by
  have hoc : c ≠ o := by
    rintro rfl
    have hr := (h.roles c).2.1 (by simp [ho])
    rw [hc] at hr
    cases hr
  have hdir := h.dir_at hd
  obtain ⟨hs, -, hm, -⟩ := hdir
  have ha := h.ackOk hc
  refine h.forward hd ho hoc ?_ (by simp) ⟨by simp, by simp, by simp, ha, trivial⟩ (by simp)
    (by simp [ho]) (fun y hy hyo => by simp [hs, ho, hy, hyo]) (Or.inr rfl)
    ⟨rfl, hm, Or.inr ⟨o, c, s.time, by simp⟩⟩ fun _ => ⟨rfl, fun y hy => ?_⟩
  · rw [hc]
    constructor <;> rfl
  · simpa [hs, ho, or_comm] using hy

/-- A `GETM` to a modified block. -/
theorem forwardGetm (h : s.Inv g) (hd : s.dst = .M) {o : C} (ho : s.owner = {o}) {p : Phase C V}
    (hc : s.ph c = .storeSent ∧ p = .storeWait (.fwd o) none ∨
      ∃ i, s.ph c = .upgradeSent (some i) ∧ p = .upgradeFwd o i none) :
    Inv g { (s.set c { s.cell c with ph := p }).set o
        { s.cell o with ph := (s.ph o).setOwn (some (.GETM, c, s.time)) } with
      dst := .M, owner := {c}, time := s.time + 1 } := by
  have hoc : c ≠ o := by
    rintro rfl
    have hr := (h.roles c).2.1 (by simp [ho])
    rcases hc with ⟨hc, -⟩ | ⟨i, hc, -⟩ <;> rw [hc] at hr <;> cases hr
  have hdir := h.dir_at hd
  obtain ⟨hs, -, hm, htd⟩ := hdir
  have hx : p.Forwarded (s.ph c) o := by
    rcases hc with ⟨hc, rfl⟩ | ⟨i, hc, rfl⟩ <;> rw [hc] <;> constructor <;> rfl
  have hp : p.loading = false ∧ p.role = (false, true) ∧ p.incoming = none ∧ p.tbeCopy = false ∧
      p.invOk := by
    rcases hc with ⟨hc, rfl⟩ | ⟨i, hc, rfl⟩ <;> exact ⟨rfl, rfl, rfl, rfl, trivial⟩
  obtain ⟨hl, hr, hi, ht, hv⟩ := hp
  refine h.forward hd ho hoc hx (by rw [hl]; simp) ⟨?_, by rw [hi]; simp, by rw [ht]; simp, ?_, hv⟩
    (by rw [hr]; simp [hs]) (by simp [hs, hoc.symm])
    (fun y hy hyo => by simp [hs, hy]) (Or.inl rfl) ⟨hs, ⟨c, rfl⟩, hm, htd⟩ (by simp)
  · have hcopy := (h.cells c).copy
    change (s.ph c).copy = true → _ at hcopy
    rcases hc with ⟨hc, rfl⟩ | ⟨i, hc, rfl⟩
    · exact fun e => absurd e (by simp)
    · rw [hc] at hcopy
      exact hcopy
  · rcases hc with ⟨hc, rfl⟩ | ⟨i, hc, rfl⟩
    · have ha := h.ackOk hc
      exact ha
    · have ha := h.ackOk hc
      exact ha

/-! ### Invalidations -/

omit [DecidableEq C] in
/-- What a cache keeps when an invalidation is put into its queue. -/
theorem setInv_keeps (p : Phase C V) (i : PendingInv C) :
    (p.setInv i).own = p.own ∧ (p.setInv i).fwd = p.fwd ∧ (p.setInv i).fetching = p.fetching ∧
      (p.setInv i).writing = p.writing ∧ (p.setInv i).loading = p.loading ∧
      (p.setInv i).tok = p.tok := by
  cases p with
  | loadWait w o => cases w <;> exact ⟨rfl, rfl, rfl, rfl, rfl, rfl⟩
  | _ => exact ⟨rfl, rfl, rfl, rfl, rfl, rfl⟩

omit [DecidableEq C] in
/-- The queue of a sharer is free for an invalidation, unless it is a former owner. -/
theorem setInv_inv {p : Phase C V} (hr : p.role.1 = true)
    (ho : ∀ r t, p.own ≠ some (.GETS, r, t)) (j : C × ℕ) :
    p.inv = none ∧ (p.setInv (some j)).inv = some j ∧
      (p.setInv (some j)).role = (false, false) := by
  cases p with
  | shared i | loadWait _ i | upgradeSent i | evictS _ i =>
      cases i with
      | none => exact ⟨rfl, rfl, rfl⟩
      | some i => exact absurd hr Bool.false_ne_true
  | modified o | storeWait _ o | upgradeData _ _ o | upgradeFwd _ _ o | storeAcks o
  | upgradeAcks o | evictM o =>
      rcases o with - | ⟨_ | _, r, t⟩
      · exact absurd hr Bool.false_ne_true
      · exact absurd rfl (ho r t)
      · exact absurd hr Bool.false_ne_true
  | _ => exact absurd hr Bool.false_ne_true

omit [DecidableEq C] in
theorem setInv_ok {y : Cell C V} {w : Finset C} (j : PendingInv C) (h : y.Ok g w)
    (hf : y.ph.loading = true → y.ph.fwd = none) (hm : y.ph.fetching = false) :
    Cell.Ok g w { y with ph := y.ph.setInv j } := by
  obtain ⟨p, d, td, k⟩ := y
  obtain ⟨h₁, h₂, h₃, h₄, h₅⟩ := h
  cases p with
  | loadWait v i =>
      refine ⟨h₁, h₂, h₃, h₄, ?_⟩
      cases v with
      | mem => exact absurd hm.symm Bool.false_ne_true
      | fwd f => cases hf rfl
      | dir d n => exact h₅
      | owner => trivial
  | shared | upgradeSent | evictS => exact ⟨h₁, h₂, h₃, h₄, trivial⟩
  | _ => exact ⟨h₁, h₂, h₃, h₄, h₅⟩

/-- The cells after an invalidation on behalf of `c` has been sent to all other sharers. -/
def notified (s : Abs C V) (c : C) (y : C) : Cell C V :=
  if y ∈ s.sharers.erase c then { s.cell y with ph := (s.ph y).setInv (some (c, s.time)) }
  else s.cell y

theorem proj_notified {β : Type} (f : Phase C V → β) (s : Abs C V) (c : C)
    (hf : ∀ p j, f (Phase.setInv j p) = f p) :
    (fun y => f (notified s c y).ph) = fun y => f (s.ph y) := by
  funext y
  unfold notified
  split
  · exact hf _ _
  · rfl

/-- **A `GETM` to a shared block**: every other sharer is sent an invalidation, and the requestor
the data with their number.  The token is given out. -/
theorem grant (h : s.Inv g) (hd : s.dst = .S) {p : Phase C V}
    (hc : s.ph c = .storeSent ∧ p = .storeWait (.dir s.ddata (s.sharers.erase c).card) none ∨
      s.ph c = .upgradeSent none ∧ p = .upgradeData s.ddata (s.sharers.erase c).card none) :
    Inv g { s with
      cell := Function.update (notified s c) c { s.cell c with ph := p }
      wait := Function.update s.wait c (s.sharers.erase c)
      dst := .M, sharers := ∅, owner := {c}, time := s.time + 1 } := by
  have hng : ¬ s.given := by simp [given, hd]
  have hdir := h.dir_at hd
  obtain ⟨ho, hm, htd⟩ := hdir
  have hdd : s.ddata = g := h.vDir (by simp [hd]) (by simp [hd])
  have hq : (s.ph c).own = none ∧ (s.ph c).fwd = none ∧ (s.ph c).writing = false ∧
      (s.ph c).inv = none ∧ (s.cell c).acks = 0 ∧ s.wait c = ∅ := by
    rcases hc with ⟨hc, -⟩ | ⟨hc, -⟩
    · obtain ⟨h₁, h₂⟩ := h.ackOk hc
      exact ⟨by rw [hc]; rfl, by rw [hc]; rfl, by rw [hc]; rfl, by rw [hc]; rfl, h₁, h₂⟩
    · obtain ⟨h₁, h₂⟩ := h.ackOk hc
      exact ⟨by rw [hc]; rfl, by rw [hc]; rfl, by rw [hc]; rfl, by rw [hc]; rfl, h₁, h₂⟩
  have hp : p.own = none ∧ p.fwd = none ∧ p.fetching = false ∧ p.writing = false ∧
      p.inv = none ∧ p.tok = true ∧ p.role = (false, true) := by
    rcases hc with ⟨-, rfl⟩ | ⟨-, rfl⟩ <;> exact ⟨rfl, rfl, rfl, rfl, rfl, rfl, rfl⟩
  obtain ⟨hq₁, hq₂, hq₃, hq₄, hacks, hw⟩ := hq
  obtain ⟨hp₁, hp₂, hp₃, hp₄, hp₅, hp₆, hp₇⟩ := hp
  have hnoS : ∀ o r t, (s.ph o).own ≠ some (.GETS, r, t) := h.own_ne_getS (by simp [hd])
  have hfet := h.fetching_false (by simp [hd]) (by simp [hd])
  have hwr := h.writing_false (by simp [hd])
  -- projections that neither the invalidations nor the requestor change
  have hproj : ∀ {β : Type} (f : Phase C V → β), (∀ q j, f (Phase.setInv j q) = f q) →
      f p = f (s.ph c) → (fun y => f ((Function.update (notified s c) c
        { s.cell c with ph := p } y).ph)) = fun y => f (s.ph y) := by
    intro β f hf hpc
    have hn := proj_notified f s c hf
    rw [← hn]
    exact proj_update_self (f := fun z : Cell C V => f z.ph)
      (hpc.trans (congrFun hn c).symm)
  have hOwn := hproj Phase.own (fun q j => (setInv_keeps q j).1) (hp₁.trans hq₁.symm)
  have hFwd := hproj Phase.fwd (fun q j => (setInv_keeps q j).2.1) (hp₂.trans hq₂.symm)
  have hFet := hproj Phase.fetching (fun q j => (setInv_keeps q j).2.2.1) (hp₃.trans (hfet c).symm)
  have hWr := hproj Phase.writing (fun q j => (setInv_keeps q j).2.2.2.1) (hp₄.trans hq₃.symm)
  have hTok : (fun y => (Function.update (notified s c) c { s.cell c with ph := p } y).ph.tok) =
      Function.update (fun y => (s.ph y).tok) c true := by
    rw [proj_update (fun z : Cell C V => z.ph.tok),
      proj_notified Phase.tok s c fun q j => (setInv_keeps q j).2.2.2.2.2]
    exact congrArg _ hp₆
  have hsh : ∀ y, y ∈ s.sharers → _ := fun y hy =>
    setInv_inv ((h.roles y).1.1 hy) (hnoS y) (c, s.time)
  have hInv : (fun y => (Function.update (notified s c) c { s.cell c with ph := p } y).ph.inv) =
      fun b => if b ∈ s.sharers.erase c then some (c, s.time) else (s.ph b).inv := by
    funext y
    by_cases hy : y = c
    · subst hy
      rw [Function.update_self, if_neg (Finset.notMem_erase y _), hq₄]
      exact hp₅
    · rw [Function.update_of_ne hy]
      unfold notified
      split
      · next hmem => exact (hsh y (Finset.mem_of_mem_erase hmem)).2.1
      · rfl
  have hload : ∀ y, (s.ph y).loading = true → (s.ph y).fwd = none := by
    intro y hl
    cases hf : (s.ph y).fwd with
    | none => rfl
    | some o' =>
        obtain ⟨k, t, e⟩ := (h.links.link o' y).1 hf
        obtain rfl := (h.links.kind o' k y t e).2 hl
        exact absurd e (hnoS o' y t)
  constructor
  · intro y
    change (_ ↔ (Function.update (notified s c) c _ y).ph.role.1 = true) ∧
      (_ ↔ (Function.update (notified s c) c _ y).ph.role.2 = true)
    by_cases hy : y = c
    · subst hy
      rw [Function.update_self, hp₇]
      simp
    · rw [Function.update_of_ne hy]
      have hout : y ∉ ({c} : Finset C) := by simpa using hy
      unfold notified
      split
      · next hmem =>
          obtain ⟨-, -, hr⟩ := hsh y (Finset.mem_of_mem_erase hmem)
          rw [hr]
          simpa using hy
      · next hmem =>
          have hns : y ∉ s.sharers := fun hs => hmem (Finset.mem_erase.2 ⟨hy, hs⟩)
          have hno : y ∉ s.owner := by simp [ho]
          exact ⟨iff_of_false (by simp) fun e => hns ((h.roles y).1.2 e),
            iff_of_false hout fun e => hno ((h.roles y).2.2 e)⟩
  · refine hTok.symm ▸ ?_
    exact h.token.give hng ⟨Or.inl rfl, htd⟩
  · refine hOwn.symm ▸ hFwd.symm ▸ ?_
    refine h.links.mono (Nat.le_succ _) fun k r o' hr hk => ?_
    have hrc : r ≠ c := by
      rintro rfl
      exact absurd (hq₂.symm.trans hr) (by simp)
    have hl := congrFun (proj_notified Phase.loading s c
      fun q j => (setInv_keeps q j).2.2.2.2.1) r
    change _ ↔ (Function.update (notified s c) c _ r).ph.loading = true
    rw [Function.update_of_ne hrc]
    exact hk.trans (by rw [← hl])
  · refine hOwn.symm ▸ hInv.symm ▸ ?_
    exact h.waits.multicast hw hq₁ fun b hb => (hsh b (Finset.mem_of_mem_erase hb)).1
  · refine hOwn.symm ▸ hFet.symm ▸ hWr.symm ▸ ?_
    exact ⟨rfl, ⟨c, rfl⟩, hm, htd⟩
  · exact fun y e => absurd ((hfet y).symm.trans ((congrFun hFet y).symm.trans e)) (by simp)
  · exact fun y e => absurd ((hwr y).symm.trans ((congrFun hWr y).symm.trans e)) (by simp)
  · exact fun o' r t e => absurd ((congrFun hOwn o').symm.trans e) (hnoS o' r t)
  · intro y
    change (Function.update (notified s c) c _ y).Ok g (Function.update s.wait c _ y)
    by_cases hy : y = c
    · subst hy
      rw [Function.update_self, Function.update_self]
      rcases hc with ⟨hc, rfl⟩ | ⟨hc, rfl⟩
      · exact ⟨by simp, by simp [hdd], by simp, by simp [Phase.ackOk, hacks], trivial⟩
      · have hcopy := (h.cells y).copy
        change (s.ph y).copy = true → _ at hcopy
        rw [hc] at hcopy
        exact ⟨hcopy, by simp [hdd], by simp, by simp [Phase.ackOk, hacks], trivial⟩
    · rw [Function.update_of_ne hy, Function.update_of_ne hy]
      unfold notified
      split
      · exact setInv_ok _ (h.cells y) (hload y) (hfet y)
      · exact h.cells y
  · exact fun h₁ _ => absurd rfl h₁
  · exact h.vMem
  · exact h.vToDir

end Abs.Inv

end Msi
