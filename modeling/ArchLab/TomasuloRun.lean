/-
**The Tomasulo machine comes to an end.**

Each cycle does a part of the work that the trace stands for: an instruction is fetched, leaves the
queue, starts, comes nearer to the end of its execution, leaves its station, or makes room on the
bus.  What is left to do of it is a natural number (`Tomasulo.total`), which no cycle increases and
which a cycle decreases as long as the machine is not empty.  The argument for the stations is that
the oldest instruction in them waits for nobody: its producers are older, and a producer whose tag
has not been broadcast is still in a station.

Main definitions:

* `Tomasulo.work`, `Tomasulo.total` — what is left to do for an instruction, and for all;
* `Tomasulo.Advanced` — a part of the work for an instruction is done.

Main results:

* `Tomasulo.Inv.advance` — while the machine is not empty, a cycle does some work;
* `Tomasulo.runTomasulo_completes` — **termination and completeness**: the loop is left, every
  instruction has gone through its stages then, and the machine is empty.
-/

import ArchLab.TomasuloStages
import Mathlib.Algebra.Order.BigOperators.Group.Finset

set_option relaxedAutoImplicit false
set_option autoImplicit false

namespace Tomasulo

variable {isa : Isa} {prog : ℕ → Instr} {now sent front front' cycle : ℕ} {s s' : State}

/-! ### What is left to do -/

section Work

open Classical in
/-- One unit of work, as long as something is outstanding. -/
noncomputable def pending (p : Prop) : ℕ := if p then 1 else 0

theorem pending_le {p q : Prop} (h : q → p) : pending q ≤ pending p := by
  unfold pending
  split
  · next hq => rw [if_pos (h hq)]
  · exact Nat.zero_le _

theorem pending_lt {p q : Prop} (hp : p) (hq : ¬ q) : pending q < pending p := by
  unfold pending
  rw [if_pos hp, if_neg hq]
  exact Nat.one_pos

/-- The cycles until the end of the execution; more than any latency before it starts. -/
def remaining (isa : Isa) (prog : ℕ → Instr) (now : ℕ) (s : State) (j : ℕ) : ℕ :=
  if (s.table j).tomExecuteCycle = 0 then 8
  else (s.table j).tomExecuteCycle + latency isa prog j - now

/-- What is left to do for an instruction: it has to be fetched, leave the queue, execute, leave its
station and leave the bus. -/
noncomputable def work (isa : Isa) (prog : ℕ → Instr) (now front : ℕ) (s : State) (j : ℕ) : ℕ :=
  pending (s.fetchIndex < j) + pending (front ≤ j) + remaining isa prog now s j +
    pending (¬ Left isa prog now s j) +
    pending ((s.table j).tomCdbCycle = 0 ∨ (s.table j).tomCdbCycle = now)

/-- What is left to do for all instructions, and for the entry behind the last one. -/
noncomputable def total (isa : Isa) (prog : ℕ → Instr) (n now front : ℕ) (s : State) : ℕ :=
  ∑ j ∈ Finset.range (n + 2), work isa prog now front s j

/-- A part of the work for an instruction is done. -/
inductive Advanced (isa : Isa) (prog : ℕ → Instr) (now front front' : ℕ) (s s' : State) (j : ℕ) :
    Prop
  | fetched (h : s.fetchIndex < j) (h' : j ≤ s'.fetchIndex)
  | dispatched (h : front ≤ j) (h' : j < front')
  | started (h : (s.table j).tomExecuteCycle = 0) (h' : (s'.table j).tomExecuteCycle ≠ 0)
  | executing (h : (s.table j).tomExecuteCycle ≠ 0)
      (h' : now < (s.table j).tomExecuteCycle + latency isa prog j)
  | left (h : ¬ Left isa prog now s j) (h' : Left isa prog (now + 1) s' j)
  | retired (h : (s.table j).tomCdbCycle ≠ 0) (h' : (s.table j).tomCdbCycle = now)

theorem latency_le (j : ℕ) : latency isa prog j ≤ 7 := by
  unfold latency
  cases isa.fuKind (prog j).op with
  | none => exact Nat.zero_le _
  | some k => cases k <;> decide

section Monotone

variable {last : ℕ} (h' : Inv isa prog (now + 1) last front' s') (hl : Later s s') (j : ℕ)

include hl

theorem Later.left (hj : Left isa prog now s j) : Left isa prog (now + 1) s' j := by
  unfold Left at hj ⊢
  split at hj
  · next hw => rw [if_pos hw, hl.cdb j hj]; exact hj
  · next hw =>
      rw [if_neg hw, hl.execute j hj.1]
      exact ⟨hj.1, by omega⟩

include h'

theorem remaining_le : remaining isa prog (now + 1) s' j ≤ remaining isa prog now s j := by
  unfold remaining
  have hlat : latency isa prog j ≤ 7 := latency_le j
  by_cases he : (s.table j).tomExecuteCycle = 0
  · rw [if_pos he]
    split
    · exact le_rfl
    · next he' =>
        have := (h'.started j he').2
        omega
  · rw [if_neg he, hl.execute j he, if_neg he]
    omega

omit hl in
theorem remaining_lt_of_started (he : (s.table j).tomExecuteCycle = 0)
    (he' : (s'.table j).tomExecuteCycle ≠ 0) :
    remaining isa prog (now + 1) s' j < remaining isa prog now s j := by
  unfold remaining
  have hlat : latency isa prog j ≤ 7 := latency_le j
  have hle := (h'.started j he').2
  rw [if_pos he, if_neg he']
  omega

omit h' in
theorem remaining_lt_of_executing (he : (s.table j).tomExecuteCycle ≠ 0)
    (hlt : now < (s.table j).tomExecuteCycle + latency isa prog j) :
    remaining isa prog (now + 1) s' j < remaining isa prog now s j := by
  unfold remaining
  rw [if_neg he, hl.execute j he, if_neg he]
  omega

omit h' in
/-- The bus is not entered a second time. -/
theorem Later.bus_pending (h : Inv isa prog now sent front s)
    (hc : (s'.table j).tomCdbCycle = 0 ∨ (s'.table j).tomCdbCycle = now + 1) :
    (s.table j).tomCdbCycle = 0 ∨ (s.table j).tomCdbCycle = now := by
  by_contra hn
  obtain ⟨hne, _⟩ := not_or.1 hn
  have hle := (h.written j hne).2.2.2
  rw [hl.cdb j hne] at hc
  omega

/-- No cycle adds work. -/
theorem work_le (h : Inv isa prog now sent front s) (hle : front ≤ front') :
    work isa prog (now + 1) front' s' j ≤ work isa prog now front s j := by
  refine Nat.add_le_add (Nat.add_le_add (Nat.add_le_add (Nat.add_le_add ?_ ?_) ?_) ?_) ?_
  · exact pending_le fun hj => Nat.lt_of_le_of_lt hl.fetchIndex hj
  · exact pending_le fun hj => hle.trans hj
  · exact remaining_le h' hl j
  · exact pending_le fun hn hj => hn (hl.left j hj)
  · exact pending_le (hl.bus_pending j h)

/-- **A cycle that advances an instruction does some of its work.** -/
theorem Advanced.work_lt (h : Inv isa prog now sent front s) (hle : front ≤ front')
    (ha : Advanced isa prog now front front' s s' j) :
    work isa prog (now + 1) front' s' j < work isa prog now front s j := by
  have h₁ : pending (s'.fetchIndex < j) ≤ pending (s.fetchIndex < j) :=
    pending_le fun hj => Nat.lt_of_le_of_lt hl.fetchIndex hj
  have h₂ : pending (front' ≤ j) ≤ pending (front ≤ j) := pending_le fun hj => hle.trans hj
  have h₃ := remaining_le h' hl j
  have h₄ : pending (¬ Left isa prog (now + 1) s' j) ≤ pending (¬ Left isa prog now s j) :=
    pending_le fun hn hj => hn (hl.left j hj)
  have h₅ := pending_le (hl.bus_pending j h)
  unfold work
  cases ha with
  | fetched ha ha' =>
      have := pending_lt ha (Nat.not_lt.2 ha')
      omega
  | dispatched ha ha' =>
      have := pending_lt ha (Nat.not_le.2 ha')
      omega
  | started ha ha' =>
      have := remaining_lt_of_started h' j ha ha'
      omega
  | executing ha ha' =>
      have := remaining_lt_of_executing hl j ha ha'
      omega
  | left ha ha' =>
      have := pending_lt ha (not_not.2 ha')
      omega
  | retired ha ha' =>
      have hdone : ¬ ((s'.table j).tomCdbCycle = 0 ∨ (s'.table j).tomCdbCycle = now + 1) := by
        rw [hl.cdb j ha]
        omega
      have := pending_lt (p := (s.table j).tomCdbCycle = 0 ∨ (s.table j).tomCdbCycle = now)
        (.inr ha') hdone
      omega

end Monotone

/-- The work for all instructions decreases, if it does for one of them. -/
theorem total_lt {n last : ℕ} (h : Inv isa prog now sent front s)
    (h' : Inv isa prog (now + 1) last front' s') (hl : Later s s') (hle : front ≤ front') {j : ℕ}
    (hj : j ≤ n + 1) (ha : Advanced isa prog now front front' s s' j) :
    total isa prog n (now + 1) front' s' < total isa prog n now front s :=
  Finset.sum_lt_sum (fun i _ => work_le h' hl i h hle)
    ⟨j, Finset.mem_range.2 (by omega), ha.work_lt h' hl j h hle⟩

end Work

/-! ### A cycle does some work -/

section Advance

/-- What `issueToExecute` does not change, and when instructions start. -/
structure Issued (prog : ℕ → Instr) (cycle : ℕ) (s s' : State) : Prop where
  queue : s'.instrQueue = s.instrQueue
  reserv : s'.reserv = s.reserv
  fetchIndex : s'.fetchIndex = s.fetchIndex
  execute : ∀ j, (s'.table j).tomExecuteCycle = ((startAll prog cycle s).table j).tomExecuteCycle
  cdb : ∀ j, (s'.table j).tomCdbCycle = (s.table j).tomCdbCycle

theorem issueToExecute_issued (hc : cycle ≠ 0) :
    Issued prog cycle s (issueToExecute prog cycle s) := by
  have hst : Started cycle s (startAll prog cycle s) := startAll_started hc
  rw [issueToExecute_eq]
  split
  · refine ⟨?_, ?_, ?_, fun _ => rfl, hst.tomCdbCycle⟩
    all_goals rw [hst.same]
  · refine ⟨?_, ?_, ?_, tomExecuteCycle_broadcastTags _, fun j => ?_⟩
    · change (startAll prog cycle s).instrQueue = _
      rw [hst.same]
    · change (startAll prog cycle s).reserv = _
      rw [hst.same]
    · change (startAll prog cycle s).fetchIndex = _
      rw [hst.same]
    · rw [tomCdbCycle_broadcastTags, hst.tomCdbCycle]

/-- An instruction that has started does not start again. -/
theorem Started.execute (h : Started cycle s s') {j : ℕ} (hj : (s.table j).tomExecuteCycle ≠ 0) :
    (s'.table j).tomExecuteCycle = (s.table j).tomExecuteCycle := by
  rcases h.table j with e | ⟨hi, _⟩
  · rw [e]
  · simp only [State.issueable, decide_eq_true_eq] at hi
    exact absurd hi.2.1 hj

/-- An instruction that can start now could start before. -/
theorem Started.issueable_of (h : Started cycle s s') {j : ℕ} (hj : s'.issueable cycle j = true) :
    s.issueable cycle j = true := by
  rcases h.table j with e | ⟨hi, _⟩
  · rw [← hj, State.issueable, State.issueable, e]
  · exact hi

/-- If an instruction can still start, the units of its kind are taken. -/
theorem startAll_busy (hc : cycle ≠ 0) {u : Station} {j : ℕ}
    (hu : (startAll prog cycle s).reserv u = some j)
    (hj : (startAll prog cycle s).issueable cycle j = true) {v : FuncUnit} (hv : v.1 = u.1) :
    (startAll prog cycle s).fu v ≠ none := by
  obtain ⟨k, i⟩ := u
  cases k with
  | FP =>
      unfold startAll at hu hj ⊢
      exact issueUnits_busy hc (k := .FP) (fun _ => mem_units.1) rfl hu hj v (mem_units.2 hv)
  | INT =>
      have hst : Started cycle (Tomasulo.issueUnits prog cycle .INT (units .INT) s)
          (startAll prog cycle s) := (Started.refl cycle _).issueUnits hc .FP
      have hu' : (Tomasulo.issueUnits prog cycle .INT (units .INT) s).reserv ⟨.INT, i⟩ =
        some j := by
        rw [hst.same] at hu
        exact hu
      obtain ⟨m, hm⟩ := Option.ne_none_iff_exists'.1
        (issueUnits_busy hc (fun _ => mem_units.1) rfl hu' (hst.issueable_of hj) v (mem_units.2 hv))
      rw [hst.fuSub v m hm]
      exact nofun

/-- The first two stages keep the cycle numbers. -/
theorem Executed.later {s₁ : State} (h : Inv isa prog now sent front s)
    (hx : Executed isa prog (freed s) cycle s₁) : Later s s₁ := by
  refine ⟨hx.fetchIndex.ge, fun j _ => hx.tomExecuteCycle j, fun j hj => ?_⟩
  have hfree : Inv isa prog now sent front (freed s) := h.retire
  exact hx.tomCdbCycle_of_ne fun hb => hj (hfree.bus_fresh hx hb).2.2.2.2

theorem Issued.later (h : Issued prog cycle s s') (hc : cycle ≠ 0) : Later s s' := by
  refine ⟨h.fetchIndex.ge, fun j hj => ?_, fun j _ => h.cdb j⟩
  rw [h.execute]
  exact (startAll_started hc).execute hj

theorem Queued.later (h : Queued s s') : Later s s' :=
  ⟨h.fetchIndex.ge, fun j _ => h.execute j, fun j _ => h.cdb j⟩

/-- A producer whose tag has not been broadcast is in a station, or has just gone to the bus. -/
theorem Inv.producer_placed (ht : Trace isa prog) (h : Inv isa prog now sent front s)
    {bound p : ℕ} {r : Fin MD_TOTAL_REGS} (hle : bound ≤ front) (hp : LastWriter isa prog bound r p)
    (hs : ¬ Sent sent s p) : Slots.Holds s.reserv p ∨
      sent < (s.table p).tomCdbCycle ∧ (s.table p).tomCdbCycle ≤ now := by
  by_cases hl : Left isa prog now s p
  · right
    have hw : isa.writesCdb (prog p).op = true := ht.writesCdb hp
    simp only [Left, hw, if_true] at hl
    have hnow := (h.written p hl).2.2.2
    exact ⟨Nat.lt_of_not_le fun hle => hs ⟨hl, hle⟩, hnow⟩
  · exact .inl ((h.reserv p).2 ⟨⟨hp.tracked, Nat.lt_of_lt_of_le hp.lt hle⟩, hl⟩)

/-- Between two cycles the producer of an input that an instruction waits for is in a station. -/
theorem Inv.producer_waits (ht : Trace isa prog) (h : Inv isa prog now now front s) {bound p : ℕ}
    {r : Fin MD_TOTAL_REGS} (hle : bound ≤ front) (hp : LastWriter isa prog bound r p)
    (hs : ¬ Sent now s p) : Slots.Holds s.reserv p :=
  (h.producer_placed ht hle hp hs).resolve_right fun ⟨hlt, hle⟩ => absurd hle (Nat.not_le.2 hlt)

/-- **The oldest instruction in the stations** does not wait for an input. -/
theorem Inv.oldest_ready (ht : Trace isa prog) (h : Inv isa prog now now front s) {j : ℕ}
    (hj : Slots.Holds s.reserv j) (he : (s.table j).tomExecuteCycle = 0)
    (hmin : ∀ i, Slots.Holds s.reserv i → j ≤ i) (m : Fin 3) : (s.table j).Q m = none := by
  cases hQ : (s.table j).Q m with
  | none => rfl
  | some p =>
      obtain ⟨r, _, hp, hs⟩ := (h.tags j hj he m p).1 hQ
      have hlt := ((h.reserv j).1 hj).1.2
      have hle := hmin p (h.producer_waits ht hlt.le hp hs)
      exact absurd hp.lt (Nat.not_lt.2 hle)

/-- With nothing in the units, the second stage leaves the stations alone. -/
theorem Executed.idle {s₁ : State} (hx : Executed isa prog (freed s) cycle s₁)
    (hfu : ∀ u, s.fu u = none) (j : ℕ) : Slots.Holds s₁.reserv j ↔ Slots.Holds s.reserv j := by
  have hno : ∀ u, ¬ Finished cycle (freed s) u j := by
    rintro u ⟨hu, _⟩
    change s.fu u = some j at hu
    rw [hfu] at hu
    cases hu
  rw [hx.reserv]
  refine ⟨And.left, fun hj => ⟨hj, fun ⟨u, hf, _⟩ => hno u hf, fun hb => ?_⟩⟩
  obtain ⟨u, hf, _⟩ := hx.bus j hb
  exact hno u hf

/-- An instruction is in a unit: it comes nearer to its end, or another one goes to the bus. -/
theorem Inv.advance_unit {s₁ : State} (h : Inv isa prog now now front s)
    (hx : Executed isa prog (freed s) (now + 1) s₁) (hl : Later s₁ s') {u : FuncUnit} {j : ℕ}
    (hu : s.fu u = some j) :
    ∃ i, Tracked isa prog i ∧ Advanced isa prog now front front' s s' i := by
  obtain ⟨htj, he, hleft⟩ := h.in_unit hu
  by_cases hlt : now < (s.table j).tomExecuteCycle + latency isa prog j
  · exact ⟨j, htj.1, .executing he hlt⟩
  · have hfree : Inv isa prog now now front (freed s) := h.retire
    have hw : isa.writesCdb (prog j).op = true := by
      by_contra hn
      refine hleft ?_
      simp only [Left, if_neg hn]
      exact ⟨he, by omega⟩
    have hle : ((freed s).table j).tomExecuteCycle + latency isa prog j ≤ now + 1 := by
      change (s.table j).tomExecuteCycle + latency isa prog j ≤ now + 1
      omega
    obtain ⟨o, ho, _⟩ := hx.oldest u j (hfree.finished_iff.2 ⟨hu, hle⟩) hw
    obtain ⟨hwo, hto, _, _, hco⟩ := hfree.bus_fresh hx ho
    change (s.table o).tomCdbCycle = 0 at hco
    have hcdb : (s₁.table o).tomCdbCycle = now + 1 := hx.tomCdbCycle_of_bus ho
    refine ⟨o, hto.1, .left ?_ ?_⟩
    · simp [Left, hwo, hco]
    · simp only [Left, hwo, if_true]
      rw [hl.cdb o (by omega)]
      omega

/-- No instruction is in a unit, but some are in the stations: one of them starts. -/
theorem Inv.advance_station {s₁ : State} (ht : Trace isa prog) (h : Inv isa prog now now front s)
    (hx : Executed isa prog (freed s) (now + 1) s₁) (h₁ : Inv isa prog (now + 1) now front s₁)
    (hl : Later (startAll prog (now + 1) s₁) s') (hfu : ∀ u, s.fu u = none)
    (hr : ∃ j, Slots.Holds s.reserv j) :
    ∃ i, Tracked isa prog i ∧ Advanced isa prog now front front' s s' i := by
  classical
  have hc : now + 1 ≠ 0 := by omega
  have hst : Started (now + 1) s₁ (startAll prog (now + 1) s₁) := startAll_started hc
  have hidle := hx.idle hfu
  have hexec : ∀ i, (s₁.table i).tomExecuteCycle = (s.table i).tomExecuteCycle := hx.tomExecuteCycle
  have hzero : ∀ i, Slots.Holds s.reserv i → (s.table i).tomExecuteCycle = 0 := by
    intro i hi
    by_contra he
    obtain ⟨u, hu⟩ := (h.fu i).2 ⟨hi, he⟩
    rw [hfu] at hu
    cases hu
  -- whatever has started in this cycle is an advance
  have hadv : ∀ i, Slots.Holds s.reserv i →
      ((startAll prog (now + 1) s₁).table i).tomExecuteCycle ≠ 0 →
      ∃ i, Tracked isa prog i ∧ Advanced isa prog now front front' s s' i := by
    intro i hi he
    exact ⟨i, ((h.reserv i).1 hi).1.1, .started (hzero i hi) (by rwa [hl.execute i he])⟩
  obtain ⟨j, hj, hmin⟩ : ∃ j, Slots.Holds s.reserv j ∧ ∀ i, Slots.Holds s.reserv i → j ≤ i :=
    ⟨Nat.find hr, Nat.find_spec hr, fun i hi => Nat.find_min' hr hi⟩
  by_cases he : ((startAll prog (now + 1) s₁).table j).tomExecuteCycle = 0
  · -- the oldest one could still start, so the units of its kind are taken by others
    obtain ⟨u, hu⟩ := (hidle j).2 hj
    have htable : (startAll prog (now + 1) s₁).table j = s₁.table j := by
      rcases hst.table j with e | ⟨_, e⟩
      · exact e
      · rw [e] at he
        exact absurd he hc
    have hready : (startAll prog (now + 1) s₁).issueable (now + 1) j = true := by
      obtain ⟨htj, hlt⟩ := ((h.reserv j).1 hj).1
      have hissue := (h.issued j htj hlt).2
      simp only [State.issueable, htable, decide_eq_true_eq]
      refine ⟨fun m => ?_, by rw [hexec]; exact hzero j hj, ?_⟩
      · rw [hx.Q]
        exact h.oldest_ready ht hj (hzero j hj) hmin m
      · rw [hx.tomIssueCycle]
        change (s.table j).tomIssueCycle < now + 1
        omega
    have hu' : (startAll prog (now + 1) s₁).reserv u = some j := by
      rw [hst.same]
      exact hu
    have hsize : 0 < u.1.fuSize := by cases u.1 <;> decide
    obtain ⟨i, hi⟩ := Option.ne_none_iff_exists'.1
      (startAll_busy hc hu' hready (v := ⟨u.1, ⟨0, hsize⟩⟩) rfl)
    have hinv : Inv isa prog (now + 1) now front (startAll prog (now + 1) s₁) :=
      (h₁.issueUnits (by omega) .INT).issueUnits (by omega) .FP
    obtain ⟨hri, hei⟩ := (hinv.fu i).1 ⟨_, hi⟩
    have hri' : Slots.Holds s₁.reserv i := by
      rw [hst.same] at hri
      exact hri
    exact hadv i ((hidle i).1 hri') hei
  · exact hadv j hj he

/-- Everything has gone through the machine, as far as the queue and the stations are concerned. -/
theorem Inv.done_of_empty (ht : Trace isa prog) (h : Inv isa prog now now front s) {n : ℕ}
    (hn : n < s.fetchIndex) (hq : s.instrQueue = []) (hr : ∀ u, s.reserv u = none)
    (hfu : ∀ u, s.fu u = none) (hb : s.commonDataBus = none) : isSimulationDone n s = true := by
  refine decide_eq_true ⟨hn, hq, hr, hfu, hb, fun r => ?_⟩
  cases hm : s.mapTable r with
  | none => rfl
  | some p =>
      obtain ⟨hp, hs⟩ := (h.map r p).1 hm
      obtain ⟨u, hu⟩ := h.producer_waits ht le_rfl hp hs
      rw [hr] at hu
      cases hu

/-- **Progress.**  A cycle keeps the invariant; and unless the machine was empty at its start, it
does some work for an instruction of the trace. -/
theorem Inv.advance {trace : List Chunk} {n : ℕ} (ht : Trace isa (instrAt trace))
    (hend : ∀ j, Tracked isa (instrAt trace) j → j ≤ n)
    (h : Inv isa (instrAt trace) now now front s) (hb : Bus now s)
    (hs : Tomasulo.cycleOnce isa trace n (now + 1) s = some s') (hf : s.fetchIndex ≤ n + 1) :
    ∃ front', front ≤ front' ∧ Inv isa (instrAt trace) (now + 1) (now + 1) front' s' ∧
      Bus (now + 1) s' ∧ Later s s' ∧
      (isSimulationDone n s = false →
        ∃ j ≤ n + 1, Advanced isa (instrAt trace) now front front' s s' j) := by
  rw [cycleOnce_eq hb] at hs
  have hc : now + 1 ≠ 0 := by omega
  obtain ⟨hx, h₁, hb₁⟩ := h.first
  have hi : Issued (instrAt trace) (now + 1) (drained isa (instrAt trace) (now + 1) s) _ :=
    issueToExecute_issued hc
  obtain ⟨h₂, hb₂⟩ := h₁.issueToExecute hb₁
  obtain ⟨front', hle, h₃, hq, hhead⟩ := h₂.dispatchToIssue hc
  obtain ⟨h₄, hl₄, hbus, hcdb, hfetch⟩ := h₃.fetchToDispatch hc hs
  have hl₂ : Later (Tomasulo.issueToExecute (instrAt trace) (now + 1)
      (drained isa (instrAt trace) (now + 1) s)) s' := hq.later.trans hl₄
  have hl₁ := (hi.later hc).trans hl₂
  have hl := (Executed.later h hx).trans hl₁
  refine ⟨front', hle, h₄, fun j => ?_, hl, fun hnot => ?_⟩
  · rw [hbus, hcdb]
    exact hq.bus_iff hb₂ j
  -- an advance of a tracked instruction is one of an instruction of the trace
  have hbound : (∃ i, Tracked isa (instrAt trace) i ∧
      Advanced isa (instrAt trace) now front front' s s' i) →
      ∃ j ≤ n + 1, Advanced isa (instrAt trace) now front front' s s' j :=
    fun ⟨i, hti, ha⟩ => ⟨i, (hend i hti).trans (by omega), ha⟩
  cases hcase : s.commonDataBus with
  | some j =>
      obtain ⟨hne, he⟩ := (hb j).1 hcase
      refine hbound ⟨j, ?_, .retired hne he⟩
      by_contra hn
      exact hne (h.fresh j fun hj => hn hj.1).2.2.2
  | none =>
  by_cases hfu : ∀ u, s.fu u = none
  case neg =>
      obtain ⟨u, hu⟩ := not_forall.1 hfu
      obtain ⟨j, hj⟩ := Option.ne_none_iff_exists'.1 hu
      exact hbound (h.advance_unit hx hl₁ hj)
  case pos =>
  by_cases hr : ∀ u, s.reserv u = none
  case neg =>
      obtain ⟨u, hu⟩ := not_forall.1 hr
      obtain ⟨j, hj⟩ := Option.ne_none_iff_exists'.1 hu
      have hl₁' : Later (startAll (instrAt trace) (now + 1)
        (drained isa (instrAt trace) (now + 1) s))
          s' := by
        refine ⟨?_, fun j hj => ?_, fun j hj => ?_⟩
        · rw [(startAll_started hc).same]
          exact hl₁.fetchIndex
        · rw [← hi.execute] at hj ⊢
          exact hl₂.execute j hj
        · rw [(startAll_started hc).tomCdbCycle] at hj ⊢
          exact hl₁.cdb j hj
      exact hbound (h.advance_station ht hx h₁ hl₁' hfu ⟨j, u, hj⟩)
  case pos =>
  have hr₁ : ∀ u, (drained isa (instrAt trace) (now + 1) s).reserv u = none := by
    intro u
    by_contra hu
    obtain ⟨j, hj⟩ := Option.ne_none_iff_exists'.1 hu
    have := hx.reservSub u j hj
    change s.reserv u = some j at this
    rw [hr] at this
    cases this
  have hqueue : (Tomasulo.issueToExecute (instrAt trace) (now + 1)
      (drained isa (instrAt trace) (now + 1) s)).instrQueue = s.instrQueue :=
    hi.queue.trans hx.queue
  cases hqs : s.instrQueue with
  | cons j rest =>
      have hj : j < front' := by
        refine hhead j rest (hqueue.trans hqs) fun u => ?_
        rw [hi.reserv]
        exact hr₁ u
      have hcons := h.queue
      rw [hqs] at hcons
      obtain ⟨hfj, hjf, _⟩ := queued_cons hcons.symm
      exact ⟨j, by omega, .dispatched hfj hj⟩
  | nil =>
      have hidx : (Tomasulo.dispatchToIssue isa (instrAt trace) (now + 1)
          (Tomasulo.issueToExecute (instrAt trace) (now + 1)
            (drained isa (instrAt trace) (now + 1) s))).fetchIndex = s.fetchIndex :=
        hq.fetchIndex.trans (hi.fetchIndex.trans hx.fetchIndex)
      by_cases hn : s.fetchIndex ≤ n
      · have hlt := hfetch (hq.queue (hqueue.trans hqs)) (by rw [hidx]; exact hn)
        rw [hidx] at hlt
        exact ⟨s.fetchIndex + 1, by omega, .fetched (by omega) hlt⟩
      · rw [h.done_of_empty ht (by omega) hqs hr hfu hcase] at hnot
        cases hnot

end Advance

/-! ### The loop -/

section Loop

variable {trace : List Chunk} {n : ℕ}

/-- The next instruction is found if the trace goes on to one that is not a trap. -/
theorem skipTraps_isSome {m : ℕ} (hm : isa.isTrap (instrAt trace m).op = false)
    (hlen : m < trace.length * INSTR_TRACE_SIZE) {fuel fetchIndex : ℕ} (h₁ : fetchIndex < m)
    (h₂ : m - fetchIndex ≤ fuel) : ∃ i ≤ m, skipTraps isa trace fuel fetchIndex = some i := by
  induction fuel generalizing fetchIndex with
  | zero => omega
  | succ fuel ih =>
      obtain ⟨x, hx⟩ := Option.isSome_iff_exists.1
        (getInstr_isSome.2 (Nat.lt_of_le_of_lt (show fetchIndex + 1 ≤ m from h₁) hlen))
      unfold skipTraps
      simp only [hx]
      split
      · next htrap =>
          have hne : fetchIndex + 1 ≠ m := by
            rintro rfl
            rw [instrAt, hx] at hm
            rw [Option.getD_some, htrap] at hm
            cases hm
          exact ih (by omega) (by omega)
      · exact ⟨fetchIndex + 1, h₁, rfl⟩

/-- A cycle does not fail, and does not read behind the entry after the last instruction. -/
theorem cycleOnce_isSome (hm : isa.isTrap (instrAt trace (n + 1)).op = false)
    (hlen : n + 1 < trace.length * INSTR_TRACE_SIZE) (h : Inv isa (instrAt trace) now now front s)
    (hb : Bus now s) (hf : s.fetchIndex ≤ n + 1) :
    ∃ s', cycleOnce isa trace n (now + 1) s = some s' ∧ s'.fetchIndex ≤ n + 1 := by
  have hc : now + 1 ≠ 0 := by omega
  obtain ⟨hx, h₁, hb₁⟩ := h.first
  have hi : Issued (instrAt trace) (now + 1) (drained isa (instrAt trace) (now + 1) s) _ :=
    issueToExecute_issued hc
  obtain ⟨h₂, hb₂⟩ := h₁.issueToExecute hb₁
  obtain ⟨_, _, _, hq, _⟩ := h₂.dispatchToIssue hc
  rw [cycleOnce_eq hb, fetchToDispatch_eq]
  have hidx := hq.fetchIndex.trans (hi.fetchIndex.trans hx.fetchIndex)
  change _ = s.fetchIndex at hidx
  generalize dispatchToIssue isa (instrAt trace) (now + 1) _ = s₃ at hidx ⊢
  have hnote : ∀ s₄ : State, (noteDispatch (now + 1) s₄).fetchIndex = s₄.fetchIndex := by
    intro s₄
    obtain ⟨d, hd, _⟩ := noteDispatch_eq (now + 1) s₄
    rw [hd]
  unfold fetch
  split
  · next hroom =>
      obtain ⟨i, hi, he⟩ : ∃ i ≤ n + 1,
          skipTraps isa trace (trace.length * INSTR_TRACE_SIZE) s₃.fetchIndex = some i :=
        skipTraps_isSome hm hlen (by omega) (by omega)
      rw [he]
      exact ⟨_, rfl, by rw [hnote]; exact hi⟩
  · exact ⟨_, rfl, by rw [hnote, hidx]; exact hf⟩

/-- **Termination** of the loop, by induction on the work that is left. -/
theorem runFrom_isSome (ht : Trace isa (instrAt trace))
    (hend : ∀ j, Tracked isa (instrAt trace) j → j ≤ n)
    (hm : isa.isTrap (instrAt trace (n + 1)).op = false)
    (hlen : n + 1 < trace.length * INSTR_TRACE_SIZE) (w : ℕ) :
    ∀ {now front : ℕ} {s : State}, Inv isa (instrAt trace) now now front s → Bus now s →
      s.fetchIndex ≤ n + 1 → isSimulationDone n s = false →
      total isa (instrAt trace) n now front s ≤ w →
      ∃ fuel, (runFrom isa trace n fuel (now + 1) s).isSome = true := by
  induction w with
  | zero =>
      intro now front s h hb hf hnot hw
      obtain ⟨s', hs, _⟩ := cycleOnce_isSome hm hlen h hb hf
      obtain ⟨front', hle, h', _, hl, hadv⟩ := h.advance ht hend hb hs hf
      obtain ⟨j, hj, ha⟩ := hadv hnot
      have := total_lt h h' hl hle hj ha
      omega
  | succ w ih =>
      intro now front s h hb hf hnot hw
      obtain ⟨s', hs, hf'⟩ := cycleOnce_isSome hm hlen h hb hf
      obtain ⟨front', hle, h', hb', hl, hadv⟩ := h.advance ht hend hb hs hf
      obtain ⟨j, hj, ha⟩ := hadv hnot
      have hlt := total_lt h h' hl hle hj ha
      by_cases hdone : isSimulationDone n s' = true
      · refine ⟨1, ?_⟩
        unfold runFrom
        simp [hs, hdone]
      · obtain ⟨fuel, hfuel⟩ := ih h' hb' hf' (by simpa using hdone) (by omega)
        refine ⟨fuel + 1, ?_⟩
        unfold runFrom
        simp only [hs, hdone]
        exact hfuel

/-- A loop that is left, is left in a state that it has reached, and that is empty. -/
theorem runFrom_after {fuel now c : ℕ} {s s' : State} (hs : after isa trace n now = some s)
    (h : runFrom isa trace n fuel (now + 1) s = some (c, s')) :
    after isa trace n c = some s' ∧ isSimulationDone n s' = true := by
  induction fuel generalizing now s with
  | zero => cases h
  | succ fuel ih =>
      unfold runFrom at h
      split at h
      · cases h
      · next s₁ h₁ =>
          have hnext : after isa trace n (now + 1) = some s₁ := by
            rw [after, hs]
            exact h₁
          split at h
          · next hdone =>
              cases h
              exact ⟨hnext, hdone⟩
          · exact ih hnext h

end Loop

/-- What is true of an instruction when the simulation is over. -/
structure Completed (isa : Isa) (prog : ℕ → Instr) (s : State) (j : ℕ) : Prop where
  dispatch : isa.isTrap (prog j).op = false → (s.table j).tomDispatchCycle ≠ 0
  issue : Tracked isa prog j →
    (s.table j).tomIssueCycle ≠ 0 ∧ (s.table j).tomExecuteCycle ≠ 0
  cdb : Tracked isa prog j →
    ((s.table j).tomCdbCycle ≠ 0 ↔ isa.writesCdb (prog j).op = true)
  untracked : ¬ Tracked isa prog j → (s.table j).tomIssueCycle = 0 ∧
    (s.table j).tomExecuteCycle = 0 ∧ (s.table j).tomCdbCycle = 0

/-- In an empty machine every instruction that has been fetched has gone through its stages. -/
theorem Inv.completed (h : Inv isa prog now sent front s) {n : ℕ}
    (hdone : isSimulationDone n s = true) {j : ℕ} (h₁ : 1 ≤ j) (h₂ : j ≤ n) :
    Completed isa prog s j := by
  obtain ⟨hn, hq, hr, _, _, _⟩ := of_decide_eq_true hdone
  -- nothing is in the queue, so everything but traps has left it
  have hfront : isa.isTrap (prog j).op = false → j < front := by
    intro ht
    by_contra hge
    have hmem : j ∈ queued isa prog front s.fetchIndex := by
      rw [queued, List.mem_filter, List.mem_range'_1]
      exact ⟨by omega, by simp [ht]⟩
    rw [← h.queue, hq] at hmem
    cases hmem
  have hleft : Tracked isa prog j → Left isa prog now s j := by
    intro ht
    by_contra hn
    obtain ⟨u, hu⟩ := (h.reserv j).2 ⟨⟨ht, hfront ht.1⟩, hn⟩
    rw [hr] at hu
    cases hu
  refine ⟨fun ht => h.dispatched j ht h₁ (by omega), fun ht => ⟨?_, ?_⟩, fun ht => ⟨?_, ?_⟩,
    fun hn => (h.fresh j fun hj => hn hj.1).2⟩
  · exact (h.issued j ht (hfront ht.1)).1
  · have hl := hleft ht
    unfold Left at hl
    split at hl
    · exact (h.written j hl).2.1
    · exact hl.1
  · exact fun hc => (h.written j hc).1
  · intro hw
    have hl := hleft ht
    rwa [Left, if_pos hw] at hl

/-- **Termination and completeness.**  If the trace goes one entry further than the program run, the
loop of `runTomasulo` is left; and when it is left, every instruction has gone through the stages it
has to go through, and the machine is empty. -/
theorem runTomasulo_completes (isa : Isa) (xs : List Instr) (hout : ∀ x ∈ xs, Silent isa x)
    (hslot : getInstr (record xs) (xs.length + 1) = some Instr.zero) :
    (∃ fuel, (runTomasulo isa (record xs) xs.length fuel).isSome = true) ∧
      ∀ fuel cycle s, runTomasulo isa (record xs) xs.length fuel = some (cycle, s) →
        (∀ j, 1 ≤ j → j ≤ xs.length → Completed isa (instrAt (record xs)) s j) ∧
        s.instrQueue = [] ∧ (∀ u, s.reserv u = none) ∧ (∀ u, s.fu u = none) ∧
        s.commonDataBus = none ∧ ∀ r, s.mapTable r = none := by
  have ht := trace_record hout
  constructor
  · have hm : isa.isTrap (instrAt (record xs) (xs.length + 1)).op = false := by
      rw [instrAt_record_eq_zero (.inr (by omega))]
      exact isa.isTrap_na
    have hlen := getInstr_isSome.1 (Option.isSome_iff_exists.2 ⟨_, hslot⟩)
    have hend : ∀ j, Tracked isa (instrAt (record xs)) j → j ≤ xs.length := by
      intro j hj
      by_contra hlt
      exact not_tracked_zero (.inr (by omega)) hj
    refine runFrom_isSome ht hend hm hlen _ (Inv.init ht.zero) Bus.init (Nat.zero_le _) ?_ le_rfl
    exact decide_eq_false fun h => absurd h.1 (Nat.not_lt_zero _)
  · intro fuel cycle s hrun
    have hinit : after isa (record xs) xs.length 0 = some _ := rfl
    obtain ⟨hs, hdone⟩ := runFrom_after hinit hrun
    obtain ⟨front, hinv, _⟩ := between_after ht.zero hs
    obtain ⟨_, hempty⟩ := of_decide_eq_true hdone
    exact ⟨fun j h₁ h₂ => hinv.completed hdone h₁ h₂, hempty⟩

/-- The simulation of the example is over after 20 cycles. -/
theorem runTomasulo_completes_demo : ∃ s,
    runTomasulo demoIsa (record demoRun) demoRun.length 30 = some (20, s) ∧
      Completed demoIsa (instrAt (record demoRun)) s 3 := by
  have hrun : (runTomasulo demoIsa (record demoRun) demoRun.length 30).map Prod.fst = some 20 := by
    decide +kernel
  obtain ⟨⟨c, s⟩, hs, rfl⟩ := Option.map_eq_some_iff.1 hrun
  have hslot : getInstr (record demoRun) (demoRun.length + 1) = some Instr.zero := by
    rcases (stored_record demoRun).getInstr_of_le (i := demoRun.length + 1) (by decide) with h | h
    · have hsome : (getInstr (record demoRun) (demoRun.length + 1)).isSome = true := by
        decide +kernel
      rw [h] at hsome
      cases hsome
    · exact h
  have h := runTomasulo_completes demoIsa demoRun (by decide +kernel) hslot
  exact ⟨s, hs, (h.2 30 _ s hs).1 3 (by decide) (by decide)⟩

end Tomasulo
