/-
**Safety of the MSI protocol.**

What the coherence invariant (`ArchLab/MsiCoherent.lean`) means for the system, in the words of its
controllers: a writer is alone, a load returns what was stored last, no queue head makes a
controller fail, and a block about which nothing is in flight is where the directory says it is.
All statements are about every run, for any number of caches, directories and blocks.

Main definitions:

* `Msi.Move.Supported` — the requests of processors that the protocol supports;
* `Msi.System.Quiescent` — no message about a block is in flight.

Main results:

* `Msi.single_writer` — while a store hits in one cache, no load hits in another;
* `Msi.loads_return_ghost` — a load returns the value stored last;
* `Msi.exec_ne_fault` — no transition is missing and no assertion fails;
* `Msi.quiescent_agreement` — the directory's view of a quiescent block is exact.
-/

import ArchLab.MsiCoherent
import ArchLab.MsiQuiet
import Mathlib.Algebra.GroupWithZero.Nat

set_option relaxedAutoImplicit false
set_option autoImplicit false

namespace Msi

/-! ### Single writer, multiple readers -/

section Readers

variable {C D A : Type} [DecidableEq C] [DecidableEq D] [DecidableEq A] {n : ℕ} {cfg : Config D A}
  {s : System C D A n cfg}

omit [DecidableEq A] in
/-- The state of a block in a cache is that of its phase. -/
theorem Rel.state {home : D} {b : Block C D A n} {t : Abs C (DataBlock n)} (h : Rel home b t)
    (c : C) : b.state c = (t.ph c).st := by
  unfold Block.state
  rw [h.entry, h.tbe]
  change L1Cache.getState (t.cell c).tbe (t.cell c).entry = (t.cell c).ph.st
  generalize t.cell c = x
  obtain ⟨p, d, td, k⟩ := x
  cases p <;> rfl

omit [DecidableEq C] in
/-- A state in which a load hits is one in which the line holds the current value. -/
theorem Phase.copy_of_readable {V : Type} {p : Phase C V}
    (h : p.st ∈ [.S, .SM_AD, .SM_A, .M]) : p.copy = true := by
  cases p with
  | shared | modified | upgradeSent | upgradeData | upgradeFwd | upgradeAcks => rfl
  | _ => simp at h

/-- **Single writer, multiple readers.** While some cache has a block in `M`, the only state in
which a store hits, no other cache has it in a state in which a load or an instruction fetch
hits. -/
theorem single_writer {mem : A → DataBlock n} (h : Reachable mem s) {a : A} {c c' : C}
    (hc : s.state c a = .M) (hne : c' ≠ c) : s.state c' a ∉ [.S, .SM_AD, .SM_A, .M] := by
  intro hc'
  obtain ⟨value, hcoh⟩ := Reachable.coherent h
  obtain ⟨t, hrel, hinv⟩ := hcoh.block a
  have hst : ∀ y, s.state y a = (t.ph y).st := hrel.state
  rw [hst] at hc hc'
  obtain ⟨o, ho⟩ : ∃ o, t.ph c = .modified o := by
    generalize t.ph c = p at hc
    cases p with
    | modified o => exact ⟨o, rfl⟩
    | _ => cases hc
  have hcopy := (hinv.exclusive (by rw [ho]; rfl) (hinv.ackOk ho) hne).1
  rw [Phase.copy_of_readable hc'] at hcopy
  cases hcopy

end Readers

/-! ### A small system -/

section Demo

/-- A system with two directories and two blocks, one block for each directory, and caches with two
ways. -/
def demo : Config (Fin 2) (Fin 2) where
  mapAddressToDirectory a := a
  addressToCacheSet a := a
  assoc := 2

-- the numbers of the caches, and those of the blocks
scoped instance caches_neZero : NeZero 4 := ⟨by decide⟩

scoped instance blocks_neZero : NeZero 2 := ⟨by decide⟩

/-- The moves of the small system, with four caches and blocks of one byte. -/
abbrev DemoMove : Type := Move (Fin 4) (Fin 2) (Fin 2) 1 demo

/-- A cache asks for a block, and its request reaches the directory. -/
def ask (c : Fin 4) (a : Fin 2) (type : RubyRequestType) : List DemoMove :=
  [.issue c ⟨a, type⟩, .mandatory c (0 : Fin 2) fun _ => 1, .deliverRequest c a, .request a]

/-- The directory fetches a block from memory, and the data reaches the cache that asked for it. -/
def fetch (c : Fin 4) (a : Fin 2) : List DemoMove :=
  [.memAnswer a 0, .memory a, .deliverResponse (.Directory a) (.L1Cache c), .response c fun _ => 2]

/-- The labels and the state that some moves of a system of four caches lead to, if all blocks are
zero at the start. -/
def after {D A : Type} [DecidableEq D] [DecidableEq A] {cfg : Config D A}
    (ms : List (Move (Fin 4) D A 1 cfg)) :
    List (Label (Fin 4) D A 1 cfg) × System (Fin 4) D A 1 cfg :=
  ((System.init cfg fun _ => default).play ms).getD ([], System.init cfg fun _ => default)

variable {D A : Type} [DecidableEq D] [DecidableEq A] {cfg : Config D A}
  {ms : List (Move (Fin 4) D A 1 cfg)}

/-- They are a run, if all of them can be carried out. -/
theorem play_after {P : Move (Fin 4) D A 1 cfg → Prop} (hP : ∀ mv ∈ ms, P mv)
    (h : ((System.init cfg fun _ => default).play ms).isSome = true) :
    Lts.Run (· = System.init cfg fun _ => default) (fun s l s' => Step s l s' ∧ P l.1)
      (after ms).1 (after ms).2 := by
  obtain ⟨p, hp⟩ := Option.isSome_iff_exists.1 h
  have h₀ : Lts.Run (· = System.init cfg fun _ => default)
      (fun s l s' => Step s l s' ∧ P l.1) [] (System.init cfg fun _ => default) := .start rfl
  rw [after, hp]
  exact System.play_run hP h₀ hp

theorem run_after (h : ((System.init cfg fun _ => default).play ms).isSome = true) :
    Run (fun _ => default) (after ms).1 (after ms).2 :=
  (play_after (P := fun _ => True) (fun _ _ => trivial) h).mono fun _ _ _ hs => hs.1

end Demo

theorem single_writer_demo :
    (after (ask 1 0 .ST ++ fetch 1 0)).2.state 2 0 ∉ [.S, .SM_AD, .SM_A, .M] :=
  single_writer ⟨_, run_after (by decide +kernel)⟩
    (show (after (ask 1 0 .ST ++ fetch 1 0)).2.state 1 0 = .M by decide +kernel) (by decide)

/-! ### The data value law -/

section Values

variable {C D A : Type} [DecidableEq C] [DecidableEq D] [DecidableEq A] {n : ℕ} {cfg : Config D A}
  {s : System C D A n cfg} {mem : A → DataBlock n} {ls : List (Label C D A n cfg)}

/-- Along a run every load returns the value of its block. -/
theorem Run.reads (h : Run mem ls s) (a : A) : Reads (mem a) (trace ls a) := by
  refine Lts.Run.invariant (P := fun ls _ => Reads (mem a) (trace ls a)) ?_ ?_ h
  · exact fun _ _ => Reads.nil (mem a)
  · intro ls s l s' hr hreads hs
    have hl : Reads (ghost mem ls a) (callbacksOf a l.2) := ((Run.coherent hr).step hs).1 a
    have ht : trace (ls ++ [l]) a = trace ls a ++ callbacksOf a l.2 := by
      simp [trace, List.flatMap_append]
    rw [ht]
    exact hreads.append hl

/-- **The data value law.** Along every run, a load of a block returns the content of memory at the
start, overwritten by all stores to the block before it. -/
theorem loads_return_ghost (h : Run mem ls s) {a : A} {before after : List (L1Cache.Callback n)}
    {d : DataBlock n} (ht : trace ls a = before ++ .read d :: after) :
    d = before.foldl L1Cache.Callback.overwrite (mem a) :=
  Run.reads h a before d after ht

end Values

/-- One cache stores to a block, and another one loads it from there. -/
def storeThenLoad : List DemoMove :=
  ask 1 0 .ST ++ fetch 1 0 ++ ask 2 0 .LD ++
    [.deliverForward 0 1, .forward 1, .deliverResponse (.L1Cache 1) (.L1Cache 2),
      .response 2 fun _ => 3]

theorem loads_return_ghost_demo :
    trace (after storeThenLoad).1 0 = [.write fun _ => 2] ++ .read (fun _ => 2) :: [] ∧
      (fun _ => 2 : DataBlock 1) =
        [L1Cache.Callback.write fun _ => 2].foldl L1Cache.Callback.overwrite default := by
  have ht : trace (after storeThenLoad).1 0 = [.write fun _ => 2] ++ .read (fun _ => 2) :: [] := rfl
  exact ⟨ht, loads_return_ghost (run_after (by decide +kernel)) ht⟩

/-! ### Completeness of the transition tables -/

/-- The requests of processors that the protocol supports. -/
def Move.Supported {C D A : Type} {n : ℕ} {cfg : Config D A} : Move C D A n cfg → Prop
  | .issue _ r => (r.type = .LD ∨ r.type = .IFETCH) ∨ r.type = .ST ∨ r.type = .ATOMIC
  | _ => True

section Faults

variable {C D A : Type} [DecidableEq C] [DecidableEq D] [DecidableEq A] {n : ℕ} {cfg : Config D A}
  {s s' : System C D A n cfg}

/-- The states the system can reach while the processors issue supported requests only. -/
def SupportedReachable (mem : A → DataBlock n) : System C D A n cfg → Prop :=
  Lts.Reachable (· = System.init cfg mem) fun s l s' => Step s l s' ∧ l.1.Supported

theorem SupportedReachable.reachable {mem : A → DataBlock n} (h : SupportedReachable mem s) :
    Reachable mem s := by
  obtain ⟨ls, hr⟩ := h
  exact ⟨ls, hr.mono fun _ _ _ hs => hs.1⟩

/-- A mandatory queue after a cache transition that shortens it or leaves it alone. -/
theorem System.mem_mandatoryQueue_l1Finish {c c' : C} {a : A} {x : L1Cache.Ctx C D A n}
    {f : Cache C D A n cfg → Cache C D A n cfg}
    (hf : ∀ k, ∀ r ∈ (f k).mandatoryQueue, r ∈ k.mandatoryQueue) {r : RubyRequest A}
    (hr : r ∈ ((s.l1Finish c' a x f).l1 c).mandatoryQueue) : r ∈ (s.l1 c).mandatoryQueue := by
  by_cases hc : c = c'
  · subst hc
    simp only [System.l1Finish, Function.update_self] at hr
    have hk := hf _ r hr
    exact hk
  · simpa [System.l1Finish, hc] using hr

theorem System.mem_of_mem_popped {α : Type} {h : Option α} {q : List α} {m : α}
    (hm : m ∈ popped h q) : m ∈ q := by
  unfold popped at hm
  split at hm
  · exact List.mem_of_mem_tail hm
  · exact hm

/-- A request enters a mandatory queue only when it is issued. -/
theorem Step.mandatoryQueue {l : Label C D A n cfg} (h : Step s l s') {c : C} {r : RubyRequest A}
    (hr : r ∈ (s'.l1 c).mandatoryQueue) : r ∈ (s.l1 c).mandatoryQueue ∨ l.1 = .issue c r := by
  obtain ⟨mv, rep⟩ := l
  -- only a processor, and a network that hands a message over, replace a cache otherwise
  have hset : ∀ {c' : C} {k : Cache C D A n cfg}, r ∈ (Function.update s.l1 c' k c).mandatoryQueue →
      (c = c' → r ∈ k.mandatoryQueue → r ∈ (s.l1 c).mandatoryQueue ∨ mv = .issue c r) →
      r ∈ (s.l1 c).mandatoryQueue ∨ mv = .issue c r := by
    intro c' k hk hk'
    by_cases hc : c = c'
    · subst hc
      rw [Function.update_self] at hk
      exact hk' rfl hk
    · rw [Function.update_of_ne hc] at hk
      exact .inl hk
  cases h.carried with
  | issue c' r' =>
      refine hset hr fun hc hk => ?_
      subst hc
      rcases List.mem_append.1 hk with hk | hk
      · exact .inl hk
      · rw [List.mem_singleton.1 hk]
        exact .inr rfl
  | replacement | mandatory =>
      left
      exact System.mem_mandatoryQueue_l1Finish (fun k r hr => System.mem_of_mem_popped hr) hr
  | forward | response =>
      left
      refine System.mem_mandatoryQueue_l1Finish ?_ hr
      exact fun _ _ hk => hk
  | deliverForward | deliverToCache => exact hset hr fun hc hk => .inl (hc ▸ hk)
  | request | dirResponse | memory | memAnswer | deliverRequest | deliverToDir => exact .inl hr

/-- Requests of other types do not appear in the mandatory queues. -/
theorem SupportedReachable.type {mem : A → DataBlock n} (h : SupportedReachable mem s) (c : C) :
    ∀ r ∈ (s.l1 c).mandatoryQueue,
      (r.type = .LD ∨ r.type = .IFETCH) ∨ r.type = .ST ∨ r.type = .ATOMIC := by
  refine Lts.Reachable.invariant (P := fun s : System C D A n cfg => ∀ r ∈ (s.l1 c).mandatoryQueue,
    (r.type = .LD ∨ r.type = .IFETCH) ∨ r.type = .ST ∨ r.type = .ATOMIC) ?_ ?_ h
  · rintro s rfl r hr
    simp [System.init] at hr
  · intro s l s' _ ih hs r hr
    rcases hs.1.mandatoryQueue hr with hr | hl
    · exact ih r hr
    · have := hs.2
      rw [hl] at this
      exact this

/-- **Completeness.** While the processors issue supported requests only, no move makes a controller
fail: the transition of every queue head is declared, and no assertion of an action, an in port or
`setState` is violated. -/
theorem exec_ne_fault {mem : A → DataBlock n} (h : SupportedReachable mem s)
    (mv : Move C D A n cfg) (f : Fault) : s.exec mv ≠ .fault f := by
  intro hf
  obtain ⟨value, hcoh⟩ := Reachable.coherent h.reachable
  cases mv with
  | issue c r => cases hf
  | mandatory c victim v =>
      cases hq : (s.l1 c).mandatoryQueue with
      | nil =>
          simp only [System.exec, hq] at hf
          cases hf
      | cons r q =>
          rcases hcoh.exec_mandatory hq (h.type c r (by simp [hq])) victim v with hst | ⟨out, hv⟩
          · cases hst.symm.trans hf
          · cases hv.symm.trans hf
  | forward c =>
      cases hq : (s.l1 c).forwardToCache with
      | nil =>
          simp only [System.exec, hq] at hf
          cases hf
      | cons m q =>
          obtain ⟨t, -, -, ⟨hst, -⟩ | ⟨out, hv⟩⟩ := hcoh.exec_forward hq
          · cases hst.symm.trans hf
          · cases hv.symm.trans hf
  | response c v =>
      by_cases hq : (s.l1 c).responseToCache = []
      · simp only [System.exec, hq] at hf
        cases hf
      · obtain ⟨out, hv⟩ := hcoh.exec_response hq v
        cases hv.symm.trans hf
  | request d =>
      cases hq : (s.dir d).requestToDir with
      | nil =>
          simp only [System.exec, hq] at hf
          cases hf
      | cons m q =>
          obtain ⟨t, -, -, ⟨hst, -⟩ | ⟨out, hv⟩⟩ := hcoh.exec_request hq
          · cases hst.symm.trans hf
          · cases hv.symm.trans hf
  | dirResponse d =>
      by_cases hq : (s.dir d).responseToDir = []
      · simp only [System.exec, hq] at hf
        cases hf
      · obtain ⟨out, hv⟩ := hcoh.exec_dirResponse hq
        cases hv.symm.trans hf
  | memory d =>
      by_cases hq : (s.dir d).memResponse = []
      · simp only [System.exec, hq] at hf
        cases hf
      · obtain ⟨out, hv⟩ := hcoh.exec_memory hq
        cases hv.symm.trans hf
  | memAnswer d i | deliverRequest c d | deliverForward d c =>
      simp only [System.exec] at hf
      split at hf <;> cases hf
  | deliverResponse src dst =>
      simp only [System.exec] at hf
      split at hf
      · cases hf
      · cases dst <;> cases hf

end Faults

theorem exec_ne_fault_demo :
    (after (ask 1 0 .ST ++ fetch 1 0 ++ ask 2 0 .LD ++ [.deliverForward 0 1])).2.exec (.forward 1) ≠
      .fault .invalidTransition :=
  exec_ne_fault ⟨_, play_after (by simp [ask, fetch, Move.Supported]) (by decide +kernel)⟩ _ _

/-! ### Agreement of a quiescent block -/

section Quiescent

variable {C D A : Type} [DecidableEq C] [DecidableEq D] [DecidableEq A] {n : ℕ} {cfg : Config D A}
  {s : System C D A n cfg}

/-- No message about a block is in flight. -/
structure System.Quiescent (s : System C D A n cfg) (a : A) : Prop where
  requestNet : ∀ c d, ∀ m ∈ s.requestNet c d, m.address ≠ a
  requestToDir : ∀ d, ∀ m ∈ (s.dir d).requestToDir, m.address ≠ a
  forwardNet : ∀ d c, ∀ m ∈ s.forwardNet d c, m.address ≠ a
  forwardToCache : ∀ c, ∀ m ∈ (s.l1 c).forwardToCache, m.address ≠ a
  responseNet : ∀ src dst, ∀ m ∈ s.responseNet src dst, m.address ≠ a
  responseToCache : ∀ c, ∀ m ∈ (s.l1 c).responseToCache, m.address ≠ a
  responseToDir : ∀ d, ∀ m ∈ (s.dir d).responseToDir, m.address ≠ a
  memInput : ∀ d, ∀ m ∈ (s.dir d).memInput, m.address ≠ a
  memResponse : ∀ d, ∀ m ∈ (s.dir d).memResponse, m.address ≠ a

/-- Nothing is in flight in the abstract state of a quiescent block. -/
theorem System.Quiescent.quiet {a : A} {t : Abs C (DataBlock n)} (hq : s.Quiescent a)
    (hr : Rel (cfg.mapAddressToDirectory a) (s.block a) t) :
    t.Quiet (cfg.mapAddressToDirectory a) := by
  refine hr.quiet (hr.settled (fun src dst => ?_) ?_) (fun c => ?_) fun c => ?_
  · simp only [System.block, List.append_eq_nil_iff, List.filter_eq_nil_iff]
    refine ⟨fun m hm e => ?_, fun m hm e => hq.responseNet src dst m hm (by simpa using e)⟩
    have ha : m.address = a := (of_decide_eq_true e).1
    cases dst with
    | L1Cache c => exact hq.responseToCache c m hm ha
    | Directory d => exact hq.responseToDir d m hm ha
  · simp only [System.block, Multiset.coe_eq_zero, List.filter_eq_nil_iff]
    intro m hm e
    rcases List.mem_append.1 hm with hm | hm
    · exact hq.memInput _ m hm (of_decide_eq_true e)
    · exact hq.memResponse _ m hm (of_decide_eq_true e)
  · simp only [System.block, List.append_eq_nil_iff, List.filter_eq_nil_iff]
    exact ⟨fun m hm e => hq.requestToDir _ m hm (of_decide_eq_true e).1,
      fun m hm e => hq.requestNet c _ m hm (of_decide_eq_true e)⟩
  · simp only [System.block, List.append_eq_nil_iff, List.filter_eq_nil_iff]
    exact ⟨fun m hm e => hq.forwardToCache c m hm (of_decide_eq_true e),
      fun m hm e => hq.forwardNet _ c m hm (of_decide_eq_true e)⟩

/-- The state of a block in a directory without a transient entry for it. -/
theorem Rel.dirState {a : A} {t : Abs C (DataBlock n)}
    (hr : Rel (cfg.mapAddressToDirectory a) (s.block a) t) (hd : t.dst.stable = true) :
    s.dirTbe a = none ∧ s.dirState a = t.dst := by
  have htbe : s.dirTbe a = none := hr.dtbe_stable hd
  refine ⟨htbe, ?_⟩
  rw [System.dirState, htbe, show s.dirEntry a = t.dirEntry from hr.dentry]
  rfl

/-- All controllers are in a stable state for a quiescent block, without a transient entry. -/
theorem System.Quiescent.stable {value : A → DataBlock n} (h : Coherent value s) {a : A}
    (hq : s.Quiescent a) : (∀ c, s.state c a ∈ [.I, .S, .M] ∧ (s.l1 c).tbes a = none) ∧
      s.dirTbe a = none ∧ s.dirState a ∈ [.I, .S, .M] := by
  obtain ⟨t, hrel, hinv⟩ := h.block a
  have hquiet := hq.quiet hrel
  refine ⟨fun c => ?_, ?_⟩
  · rw [show s.state c a = (t.ph c).st from hrel.state c,
      show (s.l1 c).tbes a = (t.cell c).tbe from hrel.tbe c]
    unfold Cell.tbe
    rcases hinv.quiet_phase hquiet c with e | e | e <;>
      rw [show (t.cell c).ph = _ from e, e] <;> simp
  · have hd := hinv.quiet_dir hquiet
    obtain ⟨htbe, hst⟩ := hrel.dirState hd
    refine ⟨htbe, ?_⟩
    rw [hst]
    generalize t.dst = d at hd
    cases d with
    | I | S | M => simp
    | _ => cases hd

/-- **Agreement.** While no message about a block is in flight, all controllers are in a stable
state for it without a transient entry, and the directory's view is exact. -/
theorem quiescent_agreement {mem : A → DataBlock n} (h : Reachable mem s) {a : A}
    (hq : s.Quiescent a) :
    (∀ c, s.state c a ∈ [.I, .S, .M] ∧ (s.l1 c).tbes a = none) ∧ s.dirTbe a = none ∧
    (s.dirState a = .I ∧ (∀ c, s.state c a = .I) ∨
      s.dirState a = .S ∧ (s.dirEntry a).owner = ∅ ∧
        (∀ x, x ∈ (s.dirEntry a).sharers ↔ ∃ c, x = .L1Cache c ∧ s.state c a = .S) ∧
        (∀ c, s.state c a ≠ .M) ∧
        (∀ c, s.state c a = .S → s.entry c a = some ⟨.S, (s.dirEntry a).dataBlk⟩) ∨
      s.dirState a = .M ∧ (s.dirEntry a).sharers = ∅ ∧
        ∃ c, (s.dirEntry a).owner = {.L1Cache c} ∧ s.state c a = .M ∧
          ∀ c', c' ≠ c → s.state c' a = .I) := by
  obtain ⟨value, hcoh⟩ := Reachable.coherent h
  obtain ⟨hstable, hdtbe, -⟩ := hq.stable hcoh
  obtain ⟨t, hrel, hinv⟩ := hcoh.block a
  have hquiet := hq.quiet hrel
  have hph := hinv.quiet_phase hquiet
  have hst : ∀ c, s.state c a = (t.ph c).st := hrel.state
  have hentry : ∀ c, s.entry c a = (t.cell c).entry := hrel.entry
  have hdentry : s.dirEntry a = t.dirEntry := hrel.dentry
  have hdst : s.dirState a = t.dst := (hrel.dirState (hinv.quiet_dir hquiet)).2
  have hdir := hinv.dir
  -- the role of a cache in the directory is that of its stable state
  have hsh : ∀ c, c ∈ t.sharers ↔ t.ph c = .shared none := by
    intro c
    rw [(hinv.roles c).1]
    rcases hph c with e | e | e <;> rw [e] <;> simp
  have hown : ∀ c, c ∈ t.owner ↔ t.ph c = .modified none := by
    intro c
    rw [(hinv.roles c).2]
    rcases hph c with e | e | e <;> rw [e] <;> simp
  refine ⟨hstable, hdtbe, ?_⟩
  rw [hdst, hdentry]
  cases hd : t.dst with
  | I =>
      rw [hd] at hdir
      obtain ⟨hs, ho, -⟩ := hdir
      refine .inl ⟨rfl, fun c => ?_⟩
      rw [hst]
      rcases hph c with e | e | e
      · rw [e]
        rfl
      · exact absurd ((hsh c).2 e) (by simp [hs])
      · exact absurd ((hown c).2 e) (by simp [ho])
  | S =>
      rw [hd] at hdir
      obtain ⟨ho, -⟩ := hdir
      have hnoM : ∀ c, t.ph c ≠ .modified none := fun c e => by
        have := (hown c).2 e
        simp [ho] at this
      have hS : ∀ c, s.state c a = .S ↔ c ∈ t.sharers := by
        intro c
        rw [hst, hsh]
        rcases hph c with e | e | e <;> rw [e] <;> simp
      refine .inr (.inl ⟨rfl, by simp [Abs.dirEntry, ho], fun x => ?_, fun c => ?_, fun c hc => ?_⟩)
      · cases x with
        | L1Cache c => simp [Abs.dirEntry, hS]
        | Directory d => simp [Abs.dirEntry, caches]
      · rw [hst]
        rcases hph c with e | e | e
        · rw [e]
          rintro ⟨⟩
        · rw [e]
          rintro ⟨⟩
        · exact absurd e (hnoM c)
      · have e := (hsh c).1 ((hS c).1 hc)
        have hdata : (t.cell c).data = value a := (hinv.cells c).copy (by
          rw [show (t.cell c).ph = _ from e]
          rfl)
        have hddata : t.ddata = value a := hinv.vDir (by simp [hd]) (by simp [hd])
        rw [hentry]
        unfold Cell.entry
        rw [show (t.cell c).ph = _ from e]
        simp [Abs.dirEntry, hdata, hddata]
  | M =>
      rw [hd] at hdir
      obtain ⟨hs, ⟨c, ho⟩, -⟩ := hdir
      have hc : t.ph c = .modified none := (hown c).1 (by simp [ho])
      refine .inr (.inr ⟨rfl, by simp [Abs.dirEntry, hs], c, by simp [Abs.dirEntry, ho], ?_, ?_⟩)
      · rw [hst, hc]
        rfl
      · intro c' hne
        rw [hst]
        rcases hph c' with e | e | e
        · rw [e]
          rfl
        · exact absurd ((hsh c').2 e) (by simp [hs])
        · exact absurd ((hown c').2 e) (by simp [ho, hne])
  | _ =>
      have := hinv.quiet_dir hquiet
      rw [hd] at this
      cases this

end Quiescent

/-- The block that one cache has stored to is quiescent. -/
theorem quiescent_after_store : (after (ask 1 0 .ST ++ fetch 1 0)).2.Quiescent 0 where
  requestNet := by decide +kernel
  requestToDir := by decide +kernel
  forwardNet := by decide +kernel
  forwardToCache := by decide +kernel
  responseNet := by
    rintro (c | d) (c' | d')
    · revert c c'
      decide +kernel
    · revert c d'
      decide +kernel
    · revert d c'
      decide +kernel
    · revert d d'
      decide +kernel
  responseToCache := by decide +kernel
  responseToDir := by decide +kernel
  memInput := by decide +kernel
  memResponse := by decide +kernel

theorem quiescent_agreement_demo :
    (∀ c, (after (ask 1 0 .ST ++ fetch 1 0)).2.state c 0 ∈ [.I, .S, .M] ∧
      ((after (ask 1 0 .ST ++ fetch 1 0)).2.l1 c).tbes 0 = none) ∧
    ((after (ask 1 0 .ST ++ fetch 1 0)).2.dirEntry 0).sharers = ∅ ∧
    ∃ c, ((after (ask 1 0 .ST ++ fetch 1 0)).2.dirEntry 0).owner = {.L1Cache c} ∧
      (after (ask 1 0 .ST ++ fetch 1 0)).2.state c 0 = .M ∧
      ∀ c', c' ≠ c → (after (ask 1 0 .ST ++ fetch 1 0)).2.state c' 0 = .I := by
  have h := quiescent_agreement ⟨_, run_after (by decide +kernel)⟩ quiescent_after_store
  have hd : (after (ask 1 0 .ST ++ fetch 1 0)).2.dirState 0 = .M := by decide +kernel
  rcases h with ⟨hc, -, ⟨hd', -⟩ | ⟨hd', -⟩ | ⟨-, hM⟩⟩
  · rw [hd] at hd'
    cases hd'
  · rw [hd] at hd'
    cases hd'
  · exact ⟨hc, hM⟩

end Msi
