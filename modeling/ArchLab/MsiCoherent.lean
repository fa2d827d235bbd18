/-
**The coherence invariant of the system.**

The two halves of the development meet: every step of the system is a transition of one controller
on each block (`ArchLab/MsiRoute.lean`), and every such transition is a transition of the abstract
protocol, which keeps its invariant (`ArchLab/MsiSimForward.lean`, `ArchLab/MsiSimCache.lean`,
`ArchLab/MsiSimDir.lean`).  So in every reachable state every block is described by an abstract
state that satisfies the coherence invariant for its ghost value.

Main definitions:

* `Msi.Coherent` — every block is described by an abstract state with the coherence invariant.

Main results:

* `Msi.Rel.blockStep` — the simulation, for all controllers;
* `Msi.Coherent.init`, `Msi.Coherent.step` — coherence holds at the start and is kept;
* `Msi.Run.coherent` — it holds along every run, for the ghost values of the run.
-/

import ArchLab.MsiSimCache
import ArchLab.MsiSimDir

set_option relaxedAutoImplicit false
set_option autoImplicit false

namespace Msi

open L1Cache (Callback)

/-! ### The simulation -/

section Simulation

variable {C D A : Type} [DecidableEq C] [DecidableEq D] {n : ℕ}

/-- What a report tells the sequencer. -/
def reported (rep : Option (Report C D A n)) : List (Callback n) :=
  (rep.map fun r => r.result.callbacks).getD []

omit [DecidableEq C] [DecidableEq D] in
/-- A notice of an eviction is no load, and leaves the value of the block alone. -/
theorem evictions_reads {env : L1Cache.Env C D A n} {ks : List (Callback n)} (g : DataBlock n)
    (h : ks = env.evictions ∨ ks = []) : Reads g ks ∧ ks.foldl Callback.overwrite g = g := by
  rcases h with rfl | rfl
  · unfold L1Cache.Env.evictions
    split
    · exact ⟨Reads.of_notMem (by simp), rfl⟩
    · exact ⟨Reads.nil g, rfl⟩
  · exact ⟨Reads.nil g, rfl⟩

omit [DecidableEq C] [DecidableEq D] in
/-- A request that is processed is of a type the protocol supports. -/
theorem L1Cache.type_of_valid {env : Env C D A n} {e : Option (Entry n)} {t : Option (TBE n)}
    {r : RubyRequest A} {x : Ctx C D A n} (h : mandatoryQueueIn env e t r = .valid x) :
    (r.type = .LD ∨ r.type = .IFETCH) ∨ r.type = .ST ∨ r.type = .ATOMIC := by
  unfold mandatoryQueueIn at h
  cases hev : mandatoryRequestTypeToEvent r.type with
  | error f =>
      rw [hev] at h
      cases h
  | ok ev =>
      rcases mandatoryRequestTypeToEvent_ok hev with ⟨-, hr⟩ | ⟨-, hr⟩
      · exact .inl hr
      · exact .inr hr

variable {cfg : Config D A} {a : A} {b b' : Block C D A n} {s : Abs C (DataBlock n)}
  {g : DataBlock n} {rep : Option (Report C D A n)}

/-- **The simulation.** A transition of a controller on a block that an abstract state describes is
a transition of the abstract protocol; its loads return the value of the block. -/
theorem Rel.blockStep (h : Rel (cfg.mapAddressToDirectory a) b s) (hinv : s.Inv g)
    (hs : BlockStep cfg a b rep b') :
    Reads g (reported rep) ∧ ∃ s', Rel (cfg.mapAddressToDirectory a) b' s' ∧
      s'.Inv ((reported rep).foldl Callback.overwrite g) := by
  cases hs with
  | quiet => exact ⟨Reads.nil g, _, h.tick, hinv.tick (Nat.le_succ _)⟩
  | mandatory c r avail v x hav hx =>
      rcases h.mandatory_sim (c := c) (b.l1Env cfg a c avail v) hinv rfl rfl hav
        (L1Cache.type_of_valid hx) with hst | ⟨x', s', hx', hr, hrel, hinv'⟩
      · rw [hst] at hx
        cases hx
      · obtain rfl := Outcome.valid.inj (hx'.symm.trans hx)
        exact ⟨hr, s', hrel, hinv'⟩
  | replacement c r avail v x he hx =>
      rcases h.replacement_sim (c := c) (r := r) (b.l1Env cfg a c avail v) hinv rfl rfl he with
        hst | ⟨x', s', hx', hk, hrel, hinv'⟩
      · rw [hst] at hx
        cases hx
      · obtain rfl := Outcome.valid.inj (hx'.symm.trans hx)
        change Reads g x'.callbacks ∧ ∃ s' : Abs C (DataBlock n), _ ∧
          s'.Inv (x'.callbacks.foldl Callback.overwrite g)
        rw [hk]
        exact ⟨Reads.nil g, s', hrel, hinv'⟩
  | forward c avail m q x hq hx =>
      rcases h.forward_sim (b.l1Env cfg a c avail default) hinv rfl hq with
        ⟨hst, -⟩ | ⟨-, x', s', hx', hpop, hk, hrel, hinv'⟩
      · rw [hst] at hx
        cases hx
      · obtain rfl := Outcome.valid.inj (hx'.symm.trans hx)
        obtain ⟨h₁, h₂⟩ := evictions_reads g hk
        change Reads g x'.callbacks ∧ ∃ s' : Abs C (DataBlock n), _ ∧
          s'.Inv (x'.callbacks.foldl Callback.overwrite g)
        rw [h₂]
        refine ⟨h₁, s', ?_, hinv'⟩
        rw [hpop]
        exact hrel
  | response c avail v src m q x hm hq hx =>
      obtain ⟨x', s', hx', hpop, hr, hrel, hinv'⟩ :=
        h.response_sim (b.l1Env cfg a c avail v) hinv hq
      obtain rfl := Outcome.valid.inj (hx'.symm.trans hx)
      refine ⟨hr, s', ?_, hinv'⟩
      rw [hpop]
      exact hrel
  | request c m q x hm hq hx =>
      rcases h.request_sim (b.dirEnv cfg a) hinv h.time.symm hq with
        ⟨hst, -⟩ | ⟨x', s', hx', hpop, hrel, hinv'⟩
      · rw [hst] at hx
        cases hx
      · obtain rfl := Outcome.valid.inj (hx'.symm.trans hx)
        refine ⟨Reads.nil g, s', ?_, hinv'⟩
        rw [hpop]
        exact hrel
  | dirResponse src m q x hm hq hx =>
      obtain ⟨x', s', hx', hpop, hrel, hinv'⟩ :=
        h.dirResponse_sim (b.dirEnv cfg a) hinv hm hq
      obtain rfl := Outcome.valid.inj (hx'.symm.trans hx)
      refine ⟨Reads.nil g, s', ?_, hinv'⟩
      rw [hpop]
      exact hrel
  | memory m q x hq hx =>
      obtain ⟨x', s', hx', hpop, hrel, hinv'⟩ := h.memory_sim (b.dirEnv cfg a) hinv hq
      obtain rfl := Outcome.valid.inj (hx'.symm.trans hx)
      refine ⟨Reads.nil g, s', ?_, hinv'⟩
      rw [hpop]
      exact hrel

end Simulation

/-! ### The start -/

section Init

variable {C D A : Type} [DecidableEq C] [DecidableEq D] {n : ℕ}

/-- A block that nobody has touched. -/
def Abs.init {C V : Type} (d : V) : Abs C V where
  cell _ := ⟨.idle, d, d, 0⟩
  wait _ := ∅
  ackIn _ := ∅
  dst := .I
  ddata := d
  sharers := ∅
  owner := ∅
  mem := none
  toDir := none
  time := 0

omit [DecidableEq C] in
theorem Abs.Inv.init {V : Type} (d : V) : (Abs.init d : Abs C V).Inv d where
  roles c := by simp [Abs.init, Abs.ph]
  token := ⟨fun c _ h => (by cases h), fun c h => (by cases h)⟩
  links := ⟨fun o r => (by simp [Abs.init, Abs.ph]), fun o k r t h => (by cases h),
    fun o k r t h => (by cases h), fun o k r t h => (by cases h)⟩
  waits := ⟨fun b r => (by simp [Abs.init, Abs.ph]), fun b r t h => (by cases h),
    fun b r t h => (by cases h), fun b r t h => (by cases h)⟩
  dir := ⟨rfl, rfl, rfl, rfl⟩
  fetching c h := by cases h
  writing c h := by cases h
  getS o r t h := by cases h
  cells c := ⟨by simp [Abs.init], by simp [Abs.init], by simp [Abs.init], rfl, trivial⟩
  vDir _ _ := rfl
  vMem c d h := by cases h
  vToDir c d h := by cases h

variable [DecidableEq A] (cfg : Config D A) (mem : A → DataBlock n)

theorem Rel.init (a : A) : Rel (cfg.mapAddressToDirectory a)
    ((System.init cfg mem : System C D A n cfg).block a) (Abs.init (mem a)) where
  entry c := by
    simp only [System.block, System.entry, System.init, CacheMemory.lookup_empty]
    rfl
  tbe c := rfl
  dentry := rfl
  dtbe := rfl
  req c := rfl
  away c d _ := rfl
  fwd c := .nil
  stray d c := by simp [System.block, System.init]
  resp src dst := by
    have he : (Abs.init (mem a) : Abs C (DataBlock n)).resps (cfg.mapAddressToDirectory a) src dst =
        [] := by
      cases src <;> cases dst <;> simp [Abs.resps, Abs.init, Abs.ph, Phase.fromDir, Phase.fromOwner]
    rw [he]
    cases dst <;> exact .nil
  mem := rfl
  memAway d _ := rfl
  time := rfl

end Init

/-! ### Coherence -/

section Coherent

variable {C D A : Type} [DecidableEq C] [DecidableEq D] [DecidableEq A] {n : ℕ} {cfg : Config D A}
  {s s' : System C D A n cfg}

/-- **Coherence.** Every block is described by an abstract state that satisfies the coherence
invariant, for its value. -/
structure Coherent (value : A → DataBlock n) (s : System C D A n cfg) : Prop where
  routed : Routed s
  block : ∀ a, ∃ t, Rel (cfg.mapAddressToDirectory a) (s.block a) t ∧ t.Inv (value a)

theorem Coherent.init (mem : A → DataBlock n) :
    Coherent mem (System.init cfg mem : System C D A n cfg) :=
  ⟨Routed.init mem, fun a => ⟨Abs.init (mem a), Rel.init cfg mem a, Abs.Inv.init (mem a)⟩⟩

/-- Messages about a block stay with its home directory. -/
theorem Coherent.homed {value : A → DataBlock n} (h : Coherent value s) (a : A) :
    (s.block a).Homed (cfg.mapAddressToDirectory a) := by
  obtain ⟨t, hr, -⟩ := h.block a
  exact hr.homed

/-- **Every step keeps coherence**, and the loads it completes return the value of their block. -/
theorem Coherent.step {value : A → DataBlock n} (h : Coherent value s) {l : Label C D A n cfg}
    (hs : Step s l s') :
    (∀ a, Reads (value a) (callbacksOf a l.2)) ∧
      Coherent (fun a => (callbacksOf a l.2).foldl Callback.overwrite (value a)) s' := by
  obtain ⟨hrouted, hviews⟩ := hs.view h.routed h.homed
  have hsim := fun a =>
    have ⟨_, hr, hi⟩ := h.block a
    hr.blockStep hi (hviews a)
  exact ⟨fun a => (hsim a).1, hrouted, fun a => (hsim a).2⟩

omit [DecidableEq C] [DecidableEq D] in
/-- The ghost value after one more step. -/
theorem ghost_snoc (mem : A → DataBlock n) (ls : List (Label C D A n cfg)) (l : Label C D A n cfg)
    (a : A) :
    ghost mem (ls ++ [l]) a = (callbacksOf a l.2).foldl Callback.overwrite (ghost mem ls a) := by
  simp [ghost, trace, List.flatMap_append, List.foldl_append]

/-- **Coherence along every run**, for the ghost values of the run. -/
theorem Run.coherent {mem : A → DataBlock n} {ls : List (Label C D A n cfg)} (h : Run mem ls s) :
    Coherent (ghost mem ls) s := by
  refine Lts.Run.invariant (P := fun ls s => Coherent (ghost mem ls) s) ?_ ?_ h
  · rintro s rfl
    exact Coherent.init mem
  · intro ls s l s' _ hc hs
    have := (hc.step hs).2
    simpa only [funext (ghost_snoc mem ls l)] using this

/-- Every reachable state is coherent for some values. -/
theorem Reachable.coherent {mem : A → DataBlock n} (h : Reachable mem s) :
    ∃ value, Coherent value s := by
  obtain ⟨ls, hr⟩ := h
  exact ⟨_, Run.coherent hr⟩

end Coherent

/-! ### What a controller does with the head of a queue -/

namespace Coherent

variable {C D A : Type} [DecidableEq C] [DecidableEq D] [DecidableEq A] {n : ℕ} {cfg : Config D A}
  {s : System C D A n cfg} {value : A → DataBlock n}

/-- The head of a forward queue is processed, unless the phase of its block says that it waits. -/
theorem exec_forward (h : Coherent value s) {c : C} {m : RequestMsg C D A n}
    {q : List (RequestMsg C D A n)} (hq : (s.l1 c).forwardToCache = m :: q) :
    ∃ t, Rel (cfg.mapAddressToDirectory m.address) (s.block m.address) t ∧ t.Inv (value m.address) ∧
      (s.exec (.forward c) = .stall ∧ (t.ph c).fwdStalls = true ∨
        ∃ out, s.exec (.forward c) = .valid out) := by
  obtain ⟨t, hr, hi⟩ := h.block m.address
  obtain ⟨l, hl, -⟩ := System.block_popForward_self (h := none) hq rfl
  refine ⟨t, hr, hi, ?_⟩
  rcases hr.forward_sim (s.l1Env c m.address default) hi rfl hl with
    ⟨hst, hw⟩ | ⟨-, x, s', hx, -⟩
  · left
    refine ⟨?_, hw⟩
    simp only [System.exec, hq]
    exact congrArg (Outcome.map _) hst
  · right
    simp only [System.exec, hq]
    exact ⟨_, congrArg (Outcome.map _) hx⟩

/-- The head of a cache's response queue is always processed. -/
theorem exec_response (h : Coherent value s) {c : C} (hq : (s.l1 c).responseToCache ≠ [])
    (v : DataBlock n) : ∃ out, s.exec (.response c v) = .valid out := by
  obtain ⟨m, q, hq⟩ := List.exists_cons_of_ne_nil hq
  obtain ⟨t, hr, hi⟩ := h.block m.address
  obtain ⟨l, hl, -⟩ := System.block_popResponse_self (h := none) hq rfl
  obtain ⟨x, s', hx, -⟩ := hr.response_sim (s.l1Env c m.address v) hi hl
  simp only [System.exec, hq]
  exact ⟨_, congrArg (Outcome.map _) hx⟩

/-- The head of a request queue is processed, unless the directory is in a transient state. -/
theorem exec_request (h : Coherent value s) {d : D} {m : RequestMsg C D A n}
    {q : List (RequestMsg C D A n)} (hq : (s.dir d).requestToDir = m :: q) :
    ∃ t, Rel (cfg.mapAddressToDirectory m.address) (s.block m.address) t ∧ t.Inv (value m.address) ∧
      (s.exec (.request d) = .stall ∧ t.dst.stable = false ∨
        ∃ out, s.exec (.request d) = .valid out) := by
  obtain ⟨t, hr, hi⟩ := h.block m.address
  obtain ⟨c, hc⟩ := h.routed.queue d m (by simp [hq])
  obtain ⟨l, hl, -⟩ := System.block_popRequest_self (h := none) hq rfl hc
  obtain rfl := home_of_request h.routed h.homed hq
  refine ⟨t, hr, hi, ?_⟩
  rcases hr.request_sim (s.dirEnv _ m.address) hi hr.time.symm hl with
    ⟨hst, hw⟩ | ⟨x, s', hx, -⟩
  · left
    refine ⟨?_, hw⟩
    simp only [System.exec, hq]
    exact congrArg (Outcome.map _) hst
  · right
    simp only [System.exec, hq]
    exact ⟨_, congrArg (Outcome.map _) hx⟩

/-- The head of a directory's response queue is always processed. -/
theorem exec_dirResponse (h : Coherent value s) {d : D} (hq : (s.dir d).responseToDir ≠ []) :
    ∃ out, s.exec (.dirResponse d) = .valid out := by
  obtain ⟨m, q, hq⟩ := List.exists_cons_of_ne_nil hq
  obtain ⟨t, hr, hi⟩ := h.block m.address
  obtain ⟨l, hl, -⟩ := System.block_popDirResponse_self (h := none) hq rfl
  obtain rfl := home_of_response h.homed hq
  obtain ⟨x, s', hx, -⟩ := hr.dirResponse_sim (s.dirEnv _ m.address) hi rfl hl
  simp only [System.exec, hq]
  exact ⟨_, congrArg (Outcome.map _) hx⟩

/-- An answer of the memory controller is always processed. -/
theorem exec_memory (h : Coherent value s) {d : D} (hq : (s.dir d).memResponse ≠ []) :
    ∃ out, s.exec (.memory d) = .valid out := by
  obtain ⟨m, q, hq⟩ := List.exists_cons_of_ne_nil hq
  obtain ⟨t, hr, hi⟩ := h.block m.address
  obtain ⟨l, hl, -⟩ := System.block_popMemory_self (h := none) hq rfl
  obtain rfl := home_of_memory h.homed hq
  obtain ⟨x, s', hx, -⟩ := hr.memory_sim (s.dirEnv _ m.address) hi hl
  simp only [System.exec, hq]
  exact ⟨_, congrArg (Outcome.map _) hx⟩

/-- A request of a supported type at the head of a mandatory queue stalls or is processed, after the
replacement of another line if there is no room. -/
theorem exec_mandatory (h : Coherent value s) {c : C} {r : RubyRequest A}
    {q : List (RubyRequest A)} (hq : (s.l1 c).mandatoryQueue = r :: q)
    (hr : (r.type = .LD ∨ r.type = .IFETCH) ∨ r.type = .ST ∨ r.type = .ATOMIC)
    (victim : Fin cfg.assoc) (v : DataBlock n) :
    s.exec (.mandatory c victim v) = .stall ∨
      ∃ out, s.exec (.mandatory c victim v) = .valid out := by
  simp only [System.exec, hq]
  split
  · next hfull =>
      obtain ⟨a, e, ha, he, -⟩ := (s.l1 c).cacheMemory.cacheProbe_spec victim hfull.2
      obtain ⟨t, hrel, hi⟩ := h.block a
      have hentry : (s.block a).entry c ≠ none := fun hn =>
        Option.some_ne_none e (he.symm.trans hn)
      rw [ha]
      rcases hrel.replacement_sim (c := c) (r := r) (s.l1Env c a v) hi rfl rfl hentry with
        hst | ⟨x, s', hx, -⟩
      · exact .inl (congrArg (Outcome.map _) hst)
      · exact .inr ⟨_, congrArg (Outcome.map _) hx⟩
  · next hroom =>
      obtain ⟨t, hrel, hi⟩ := h.block r.lineAddress
      have hav : (s.block r.lineAddress).entry c = none →
          (s.l1Env c r.lineAddress v).cacheAvail = true := fun he =>
        (Bool.eq_false_or_eq_true _).resolve_right fun hav => hroom ⟨he, hav⟩
      rcases hrel.mandatory_sim (c := c) (s.l1Env c r.lineAddress v) hi rfl rfl hav hr with
        hst | ⟨x, s', hx, -⟩
      · exact .inl (congrArg (Outcome.map _) hst)
      · exact .inr ⟨_, congrArg (Outcome.map _) hx⟩

end Coherent

end Msi
