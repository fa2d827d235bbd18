/-
**The stall counters of `sim-safe.c`.**

`sim_main` executes a program one instruction at a time.  For every instruction it looks at the
registers that the instruction reads and writes, and counts how often a pipelined processor would
stall: `sim_num_lduh` counts load-use hazards, and the counters of questions one and two count the
stalls of a pipeline without forwarding, and of one with forwarding.  There is no simulated time:
`reg_ready_q1` and `reg_ready_q2` hold for each register the number of the first instruction that
could read it without a stall, and after a stall the numbers of all pending registers are lowered.

This module shows that the stalls are those of an in-order pipeline in the sense of
`ArchLab/InOrder.lean`, and that the reported formula is its number of cycles per instruction.

Main definitions:

* `SimSafe.Insn` — what `sim_main` looks at in an instruction;
* `SimSafe.Question`, `SimSafe.q1`, `SimSafe.q2` — the two pipelines;
* `SimSafe.Question.maxStallCycBeforeReady`, `SimSafe.Question.count` — the stall before an
  instruction, and what is counted;
* `SimSafe.step`, `SimSafe.simMain` — one round of the main loop, and the whole loop;
* `SimSafe.Question.pipeline` — the reference.

Main results:

* `SimSafe.Question.inv_count` — what one round keeps;
* `SimSafe.stalls_inOrder` — **the counted stalls are those of an in-order pipeline**;
* `SimSafe.simMain_lduh` — the load-use hazards are the loads that the next instruction uses.
-/

import Mathlib.Algebra.Field.Rat
import Mathlib.Data.List.Induction
import Mathlib.Order.Fin.Basic
import Mathlib.Tactic.FieldSimp
import ArchLab.InOrder

set_option relaxedAutoImplicit false
set_option autoImplicit false

namespace SimSafe

open InOrder

/-! ### Instructions -/

/-- The number of registers of the PISA target, without the program counters. -/
def MD_TOTAL_REGS : ℕ := 32 + 32 + 3 + 1 + 1 + 1

abbrev Reg := Fin MD_TOTAL_REGS

/-- No dependence. -/
def DNA : Reg := ⟨0, by decide⟩

def F_MEM : BitVec 32 := 0x20#32

def F_LOAD : BitVec 32 := 0x40#32

def F_STORE : BitVec 32 := 0x80#32

/-- An executed instruction: the flags of its opcode, and the registers that it writes and reads. -/
structure Insn where
  flags : BitVec 32
  rOut : Fin 2 → Reg
  rIn : Fin 3 → Reg

namespace Insn

def has (i : Insn) (flag : BitVec 32) : Bool := i.flags &&& flag != 0#32

def isLoad (i : Insn) : Bool := i.has F_MEM && i.has F_LOAD

def isStore (i : Insn) : Bool := i.has F_MEM && i.has F_STORE

/-- The ready numbers after the registers that an instruction writes were given a new one. -/
def setReady (i : Insn) (v : ℤ) (ready : Reg → ℤ) : Reg → ℤ :=
  let ready := if i.rOut 0 ≠ DNA then Function.update ready (i.rOut 0) v else ready
  if i.rOut 1 ≠ DNA then Function.update ready (i.rOut 1) v else ready

/-- The registers that an instruction writes. -/
def outputs (i : Insn) : List Reg := [i.rOut 0, i.rOut 1]

theorem setReady_apply {i : Insn} {v : ℤ} {ready : Reg → ℤ} {r : Reg} (hr : r ≠ DNA) :
    i.setReady v ready r = if r ∈ i.outputs then v else ready r := by
  have hupdate : ∀ (q : Reg) (f : Reg → ℤ),
      (if q ≠ DNA then Function.update f q v else f) r = if r = q then v else f r := by
    intro q f
    by_cases hq : r = q
    · subst hq
      rw [if_pos hr, if_pos rfl, Function.update_self]
    · rw [if_neg hq]
      split
      · exact Function.update_of_ne hq _ _
      · rfl
  unfold setReady outputs
  rw [hupdate, hupdate]
  by_cases h₀ : r = i.rOut 0
  · simp [h₀]
  · simp [h₀]

theorem setReady_le {i : Insn} {v : ℤ} {ready : Reg → ℤ} {r : Reg} (h : ready r ≤ v) :
    i.setReady v ready r ≤ v := by
  have hupdate : ∀ (q : Reg) (f : Reg → ℤ), f r ≤ v →
      (if q ≠ DNA then Function.update f q v else f) r ≤ v := by
    intro q f hf
    split
    · rw [Function.update_apply]
      split
      · exact le_rfl
      · exact hf
    · exact hf
  exact hupdate _ _ (hupdate _ _ h)

end Insn

/-! ### The main loop -/

/-- The pipeline of a question: the sources that do not cause a stall, and the distance to the first
instruction that may read a result without one. -/
structure Question where
  skips : Insn → Fin 3 → Bool
  latency : Insn → ℕ

/-- Without forwarding. -/
def q1 : Question where
  skips _ _ := false
  latency _ := 3

/-- With forwarding: the data of a store is not needed before the memory stage, and the result of a
load is there a stage later than others. -/
def q2 : Question where
  skips i k := decide (k = 0) && i.isStore
  latency i := if i.isStore then 1 else if i.isLoad then 3 else 2

/-- The global variables of a question. -/
structure Counters where
  regReady : Reg → ℤ
  simNumRAWHazard : ℤ
  simNumStallOneCyc : ℤ
  simNumStallTwoCyc : ℤ

/-- The loop over the sources of the instruction with number `n`. -/
def Question.maxStallCycBeforeReady (q : Question) (n : ℤ) (i : Insn) (ready : Reg → ℤ) : ℤ :=
  (List.finRange 3).foldl (fun stall k =>
    if i.rIn k ≠ DNA ∧ ready (i.rIn k) > n then
      if q.skips i k then stall
      else if ready (i.rIn k) - n > stall then ready (i.rIn k) - n
      else stall
    else stall) 0

/-- What is done for a question in a round of the main loop. -/
def Question.count (q : Question) (n : ℤ) (i : Insn) (c : Counters) : Counters :=
  let stall := q.maxStallCycBeforeReady n i c.regReady
  { regReady := i.setReady (n + q.latency i) fun r =>
      if c.regReady r > n then c.regReady r - stall else c.regReady r
    simNumRAWHazard := if stall > 0 then c.simNumRAWHazard + 1 else c.simNumRAWHazard
    simNumStallOneCyc := if stall = 1 then c.simNumStallOneCyc + 1 else c.simNumStallOneCyc
    simNumStallTwoCyc := if stall = 2 then c.simNumStallTwoCyc + 1 else c.simNumStallTwoCyc }

/-- The formulas `CPI_from_RAW_hazard_q1` and `CPI_from_RAW_hazard_q2`, without the rounding of the
division. -/
def Counters.CPIFromRAWHazard (c : Counters) (simNumInsn : ℤ) : ℚ :=
  1 + (c.simNumStallOneCyc / simNumInsn) * 1 + (c.simNumStallTwoCyc / simNumInsn) * 2

/-- The global variables. -/
structure SimState where
  simNumInsn : ℤ
  simNumLoads : ℤ
  simNumLduh : ℤ
  regReady : Reg → ℤ
  c1 : Counters
  c2 : Counters

/-- All variables are static, and start as zero. -/
def SimState.start : SimState :=
  ⟨0, 0, 0, fun _ => 0, ⟨fun _ => 0, 0, 0, 0⟩, ⟨fun _ => 0, 0, 0, 0⟩⟩

/-- The loop for load-use hazards stops at the first source that has one. -/
def loadUseHazard (n : ℤ) (i : Insn) (ready : Reg → ℤ) : Bool :=
  (List.finRange 3).any fun k =>
    decide (i.rIn k ≠ DNA ∧ ready (i.rIn k) > n) && !(decide (k = 0) && i.isStore)

/-- **One round of the main loop.** -/
def step (s : SimState) (i : Insn) : SimState :=
  let n := s.simNumInsn + 1
  { simNumInsn := n
    simNumLoads := if i.isLoad then s.simNumLoads + 1 else s.simNumLoads
    simNumLduh := if loadUseHazard n i s.regReady then s.simNumLduh + 1 else s.simNumLduh
    regReady := if i.isLoad then i.setReady (n + 2) s.regReady else s.regReady
    c1 := q1.count n i s.c1
    c2 := q2.count n i s.c2 }

/-- **The main loop**, for the instructions that the program executes. -/
def simMain (is : List Insn) : SimState := is.foldl step SimState.start

theorem simMain_snoc (is : List Insn) (i : Insn) : simMain (is ++ [i]) = step (simMain is) i := by
  unfold simMain
  rw [List.foldl_append]
  rfl

theorem simNumInsn_simMain (is : List Insn) : (simMain is).simNumInsn = is.length := by
  induction is using List.reverseRecOn with
  | nil => rfl
  | append_singleton is i ih =>
      rw [simMain_snoc, List.length_append]
      change (simMain is).simNumInsn + 1 = _
      rw [ih]
      rfl

/-! ### The reference -/

/-- The in-order pipeline of a question. -/
def Question.pipeline (q : Question) : Pipeline Insn Reg where
  sources i := ((List.finRange 3).filter fun k => decide (i.rIn k ≠ DNA) && !q.skips i k).map i.rIn
  outputs i := i.outputs
  latency i := q.latency i

section Question

variable {q : Question} {is : List Insn} {i : Insn} {n : ℤ} {c : Counters} {ready : Reg → ℤ}

theorem Question.ne_of_mem_sources {r : Reg} (h : r ∈ q.pipeline.sources i) : r ≠ DNA := by
  obtain ⟨k, hk, rfl⟩ := List.mem_map.1 h
  have hcond := (List.mem_filter.1 hk).2
  rw [Bool.and_eq_true] at hcond
  exact of_decide_eq_true hcond.1

/-- The loop over the sources is a maximum. -/
theorem Question.maxStall_eq_wait :
    q.maxStallCycBeforeReady n i ready = wait n ready (q.pipeline.sources i) := by
  unfold Question.maxStallCycBeforeReady wait Question.pipeline
  -- the rounds that skip a source are those that the filter removes
  have hloop : ∀ (ks : List (Fin 3)) (m : ℤ), 0 ≤ m →
      ks.foldl (fun stall k =>
        if i.rIn k ≠ DNA ∧ ready (i.rIn k) > n then
          if q.skips i k then stall
          else if ready (i.rIn k) - n > stall then ready (i.rIn k) - n
          else stall
        else stall) m =
      ((ks.filter fun k => decide (i.rIn k ≠ DNA) && !q.skips i k).map i.rIn).foldl
        (fun m r => max m (ready r - n)) m := by
    intro ks
    induction ks with
    | nil => exact fun _ _ => rfl
    | cons k ks ih =>
        intro m hm
        rw [List.foldl_cons]
        by_cases hdna : i.rIn k ≠ DNA
        · by_cases hskip : q.skips i k = true
          · rw [List.filter_cons_of_neg (by simp [hskip]), hskip, if_pos rfl, ite_self]
            exact ih m hm
          · rw [List.filter_cons_of_pos (by simp [hdna, hskip]), List.map_cons, List.foldl_cons,
              if_neg hskip]
            have hmax : (if i.rIn k ≠ DNA ∧ ready (i.rIn k) > n then
                if ready (i.rIn k) - n > m then ready (i.rIn k) - n else m else m) =
                max m (ready (i.rIn k) - n) := by
              simp only [hdna, ne_eq, not_false_eq_true, true_and]
              split_ifs <;> omega
            rw [hmax]
            exact ih _ (le_max_of_le_left hm)
        · rw [List.filter_cons_of_neg (by simp [hdna]), if_neg fun h => hdna h.1]
          exact ih m hm
  exact hloop _ 0 le_rfl

/-! ### The invariant -/

/-- The ready numbers stand for times, and the counters add up to the cycles of the pipeline. -/
structure Question.Inv (q : Question) (is : List Insn) (c : Counters) : Prop where
  rebased : ∀ r ≠ DNA, Rebased q.pipeline (q.pipeline.schedule is) is.length c.regReady r
  bounded : Bounded q.pipeline 3 (q.pipeline.schedule is)
  raw : c.simNumRAWHazard = c.simNumStallOneCyc + c.simNumStallTwoCyc
  cycles : is.length + c.simNumStallOneCyc + 2 * c.simNumStallTwoCyc = q.pipeline.time is

theorem Question.Inv.start : q.Inv [] ⟨fun _ => 0, 0, 0, 0⟩ where
  rebased _ _ := Rebased.start rfl
  bounded := Bounded.start 3
  raw := rfl
  cycles := rfl

/-- **The stall before an instruction** is the distance between the times of issue. -/
theorem Question.Inv.stall (h : q.Inv is c) (i : Insn) :
    q.maxStallCycBeforeReady (is.length + 1) i c.regReady =
      q.pipeline.time (is ++ [i]) - q.pipeline.time is - 1 := by
  have hissue := issue_eq_wait (i := i) fun r hr => h.rebased r (Question.ne_of_mem_sources hr)
  rw [Question.maxStall_eq_wait, Pipeline.time_snoc, hissue]
  unfold Pipeline.time
  omega

/-- A stall takes at most two cycles. -/
theorem Question.Inv.stall_range (h : q.Inv is c) (i : Insn) :
    0 ≤ q.maxStallCycBeforeReady (is.length + 1) i c.regReady ∧
      q.maxStallCycBeforeReady (is.length + 1) i c.regReady < 3 := by
  rw [Question.maxStall_eq_wait]
  exact ⟨wait_nonneg _, h.bounded.wait_lt (by decide) fun r hr =>
    h.rebased r (Question.ne_of_mem_sources hr)⟩

/-- **A round of the main loop keeps the invariant.** -/
theorem Question.inv_count (hlat : q.latency i ≤ 3) (h : q.Inv is c) :
    q.Inv (is ++ [i]) (q.count (is.length + 1) i c) := by
  have hstall := h.stall i
  obtain ⟨hpos, hlt⟩ := h.stall_range i
  have hcycles := h.cycles
  have hraw := h.raw
  have hlen : ((is ++ [i]).length : ℤ) = is.length + 1 := by
    rw [List.length_append]
    rfl
  have hissue : (q.pipeline.issue (q.pipeline.schedule is) i : ℤ) =
      now (q.pipeline.schedule is) + 1 + q.maxStallCycBeforeReady (is.length + 1) i c.regReady := by
    rw [hstall, Pipeline.time_snoc]
    unfold Pipeline.time
    omega
  constructor
  · intro r hr
    rw [Pipeline.schedule_snoc, hlen]
    exact (h.rebased r hr).step hissue hpos (Insn.setReady_apply hr)
  · rw [Pipeline.schedule_snoc]
    exact h.bounded.step hlat
  · change (if _ > 0 then _ else _) = (if _ = 1 then _ else _) + (if _ = 2 then _ else _)
    split_ifs <;> omega
  · rw [hlen]
    change _ + (if _ = 1 then _ else _) + 2 * (if _ = 2 then _ else _) = _
    split_ifs <;> omega

end Question

/-- Both questions keep their invariant throughout. -/
theorem simMain_inv (is : List Insn) :
    q1.Inv is (simMain is).c1 ∧ q2.Inv is (simMain is).c2 := by
  induction is using List.reverseRecOn with
  | nil => exact ⟨Question.Inv.start, Question.Inv.start⟩
  | append_singleton is i ih =>
      have hlat : q2.latency i ≤ 3 := by
        change (if _ then 1 else if _ then 3 else 2) ≤ 3
        split_ifs <;> decide
      rw [simMain_snoc]
      unfold step
      rw [simNumInsn_simMain]
      exact ⟨Question.inv_count le_rfl ih.1, Question.inv_count hlat ih.2⟩

/-- The counters of a question agree with its pipeline, after some instructions and for the next
one. -/
structure Question.Agrees (q : Question) (is : List Insn) (i : Insn) (n : ℤ) (c : Counters) :
    Prop where
  stall : q.maxStallCycBeforeReady (n + 1) i c.regReady =
    q.pipeline.time (is ++ [i]) - q.pipeline.time is - 1
  range : q.maxStallCycBeforeReady (n + 1) i c.regReady = 0 ∨
    q.maxStallCycBeforeReady (n + 1) i c.regReady = 1 ∨
      q.maxStallCycBeforeReady (n + 1) i c.regReady = 2
  raw : c.simNumRAWHazard = c.simNumStallOneCyc + c.simNumStallTwoCyc
  cycles : is.length + c.simNumStallOneCyc + 2 * c.simNumStallTwoCyc = q.pipeline.time is
  cpi : is.length * c.CPIFromRAWHazard n = q.pipeline.time is

theorem Question.Inv.cpi {q : Question} {is : List Insn} {c : Counters} (h : q.Inv is c) :
    is.length * c.CPIFromRAWHazard is.length = q.pipeline.time is := by
  have hcycles : ((is.length : ℤ) + c.simNumStallOneCyc + 2 * c.simNumStallTwoCyc : ℚ) =
      q.pipeline.time is := by exact_mod_cast h.cycles
  by_cases hzero : is.length = 0
  · rw [List.length_eq_zero_iff] at hzero
    subst hzero
    simp [Pipeline.time, now]
  · have hne : ((is.length : ℤ) : ℚ) ≠ 0 := by exact_mod_cast hzero
    rw [← hcycles]
    unfold Counters.CPIFromRAWHazard
    push_cast at hne ⊢
    field_simp

theorem Question.Inv.agrees {q : Question} {is : List Insn} {c : Counters} (h : q.Inv is c)
    (i : Insn) :
    q.Agrees is i is.length c := by
  have hrange := h.stall_range i
  exact ⟨h.stall i, by omega, h.raw, h.cycles, h.cpi⟩

/-- **The counted stalls are those of an in-order pipeline**, for both questions: before each
instruction, and in total. -/
theorem stalls_inOrder (is : List Insn) (i : Insn) :
    q1.Agrees is i (simMain is).simNumInsn (simMain is).c1 ∧
      q2.Agrees is i (simMain is).simNumInsn (simMain is).c2 := by
  obtain ⟨h₁, h₂⟩ := simMain_inv is
  rw [simNumInsn_simMain]
  exact ⟨h₁.agrees i, h₂.agrees i⟩

/-! ### Load-use hazards -/

/-- An instruction uses what the instruction before it loads. -/
def loadUse (i j : Insn) : Bool :=
  i.isLoad && (List.finRange 3).any fun k =>
    decide (j.rIn k ≠ DNA ∧ j.rIn k ∈ i.outputs) && !(decide (k = 0) && j.isStore)

/-- A register has a load-use hazard exactly if the last instruction loads it. -/
structure LoadReady (is : List Insn) (ready : Reg → ℤ) : Prop where
  le : ∀ r, ready r ≤ is.length + 2
  iff : ∀ r ≠ DNA, ready r > is.length + 1 ↔ ∃ i ∈ is.getLast?, i.isLoad = true ∧ r ∈ i.outputs

theorem loadReady_simMain (is : List Insn) : LoadReady is (simMain is).regReady := by
  induction is using List.reverseRecOn with
  | nil =>
      refine ⟨fun r => ?_, fun r _ => ?_⟩
      · change (0 : ℤ) ≤ 0 + 2
        decide
      · change (0 : ℤ) > 0 + 1 ↔ _
        simp
  | append_singleton is i ih =>
      have hlen : ((is ++ [i]).length : ℤ) = is.length + 1 := by
        rw [List.length_append]
        rfl
      have hle := ih.le
      rw [simMain_snoc]
      unfold step
      simp only [simNumInsn_simMain]
      constructor
      · intro r
        have := hle r
        rw [hlen]
        split
        · exact Insn.setReady_le (by omega)
        · omega
      · intro r hr
        have := hle r
        have hmem : (∃ j ∈ (is ++ [i]).getLast?, j.isLoad = true ∧ r ∈ j.outputs) ↔
            i.isLoad = true ∧ r ∈ i.outputs := by
          simp
        rw [hlen, hmem]
        by_cases hload : i.isLoad = true
        · rw [if_pos hload, Insn.setReady_apply hr]
          by_cases ho : r ∈ i.outputs
          · rw [if_pos ho]
            exact ⟨fun _ => ⟨hload, ho⟩, fun _ => by omega⟩
          · rw [if_neg ho]
            exact ⟨fun h => by omega, fun h => absurd h.2 ho⟩
        · rw [if_neg hload]
          exact ⟨fun h => by omega, fun h => absurd h.1 hload⟩

/-- The loop for load-use hazards looks at the last instruction. -/
theorem LoadReady.hazard {is : List Insn} {ready : Reg → ℤ} (h : LoadReady is ready) (j : Insn) :
    loadUseHazard (is.length + 1) j ready = is.getLast?.any fun i => loadUse i j := by
  have hone : ∀ k, decide (j.rIn k ≠ DNA ∧ ready (j.rIn k) > is.length + 1) =
      decide (j.rIn k ≠ DNA ∧ ∃ i ∈ is.getLast?, i.isLoad = true ∧ j.rIn k ∈ i.outputs) :=
    fun k => decide_eq_decide.2 (and_congr_right fun hk => h.iff _ hk)
  unfold loadUseHazard loadUse
  simp only [hone]
  cases is.getLast? with
  | none => simp
  | some i => cases hload : i.isLoad <;> simp [hload]

/-- The pairs of neighbours in a list with one more element. -/
theorem zip_tail_snoc {α : Type} (a b : α) : ∀ l : List α,
    (l ++ [a, b]).zip (l ++ [a, b]).tail = (l ++ [a]).zip (l ++ [a]).tail ++ [(a, b)]
  | [] => rfl
  | [_] => rfl
  | c :: d :: l => congrArg ((c, d) :: ·) (zip_tail_snoc a b (d :: l))

/-- **The load-use hazards** are the pairs of a load and an instruction right after it that uses its
result. -/
theorem simMain_lduh (is : List Insn) :
    (simMain is).simNumLduh = (is.zip is.tail).countP fun p => loadUse p.1 p.2 := by
  induction is using List.reverseRecOn with
  | nil => rfl
  | append_singleton is j ih =>
      have hready := loadReady_simMain is
      have hstep : (simMain (is ++ [j])).simNumLduh =
          if is.getLast?.any fun i => loadUse i j then (simMain is).simNumLduh + 1
          else (simMain is).simNumLduh := by
        rw [simMain_snoc, ← hready.hazard j, ← simNumInsn_simMain]
        rfl
      rw [hstep, ih]
      rcases List.eq_nil_or_concat is with rfl | ⟨is, i, rfl⟩
      · rfl
      · rw [List.concat_eq_append, List.getLast?_concat, List.append_assoc]
        change _ = (((is ++ [i, j]).zip (is ++ [i, j]).tail).countP _ : ℤ)
        rw [zip_tail_snoc, List.countP_append, List.countP_singleton]
        cases hij : loadUse i j <;> simp [hij]

end SimSafe
