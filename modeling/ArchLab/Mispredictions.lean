/-
**The main loop of the branch prediction simulator, and how often its predictors err.**

`main.cc` reads a trace, asks three predictors about every conditional branch, trains them with the
outcome and counts their mispredictions.  This module models the simplest of the three, the table of
two-bit counters of `predictor.cc`, and the loop over all three.

The loop never uses an index out of bounds.  A counter of the first two predictors errs at most
twice for each occurrence of the rarer outcome among the branches that use it, up to the one error
that its initial value may cost.  For the two-level predictor the branches that use a counter are
those with the same recent history, so that a program in which the recent history determines the
outcomes of branches costs two mispredictions for each counter at most, as long as the 64-bit
counters of the loop do not overflow.

The comment in `InitPredictor_2bitsat` says that the counters start as weakly not taken; the code
writes `W_T`.  The reader of traces (`tracer.cc`) is not modelled: a trace is a list of records, of
which the loop uses the type, the address and the outcome.

Main definitions:

* `TwoBitSat.initPredictor`, `TwoBitSat.getPrediction`, `TwoBitSat.updatePredictor` — the table of
  two-bit counters;
* `Cbp.Sim`, `Cbp.round`, `Cbp.main` — the main loop.

Main results:

* `Cbp.Counted.round` — a round of the loop, for all three predictors;
* `Cbp.main_mispredictions` — **how often the predictors err**;
* `Cbp.main_learns` — **the two-level predictor learns what its histories determine**.
-/

import ArchLab.Counters
import ArchLab.TageFrame
import ArchLab.TwoLevel

set_option relaxedAutoImplicit false
set_option autoImplicit false

open Openend (UINT32 TAKEN NOT_TAKEN OutOfBounds index index_of_lt)
open TwoLevel (S_NT W_NT W_T S_T decode)
open Refine (bind_ok)

/-! ### The table of two-bit counters -/

namespace TwoBitSat

def TWO_BIT_SAT_PHT_IDX_MASK : UINT32 := 0x00000FFF#32

/-- The counters. -/
abbrev State : Type := Fin 4096 → UINT32

/-- **`InitPredictor_2bitsat`.** -/
def initPredictor : State := fun _ => W_T

/-- The counter of a branch. -/
def locate (PC : UINT32) : Except OutOfBounds (Fin 4096) :=
  index 4096 (PC &&& TWO_BIT_SAT_PHT_IDX_MASK).toNat

/-- **`GetPrediction_2bitsat`.** -/
def getPrediction (PC : UINT32) (s : State) : Except OutOfBounds Bool := do
  let i ← locate PC
  return decode (s i)

/-- **`UpdatePredictor_2bitsat`.** -/
def updatePredictor (PC : UINT32) (resolveDir : Bool) (s : State) : Except OutOfBounds State := do
  let i ← locate PC
  if resolveDir = TAKEN then
    return if s i ≠ S_T then Function.update s i (s i + 1#32) else s
  else
    return if s i ≠ S_NT then Function.update s i (s i - 1#32) else s

theorem entry_lt (PC : UINT32) : (PC &&& TWO_BIT_SAT_PHT_IDX_MASK).toNat < 4096 := by
  rw [BitVec.toNat_and]
  exact Nat.lt_of_le_of_lt Nat.and_le_right (by decide)

/-- The number of the counter of a branch. -/
def entryOf (PC : UINT32) : Fin 4096 := ⟨_, entry_lt PC⟩

theorem locate_eq (PC : UINT32) : locate PC = .ok (entryOf PC) := index_of_lt (entry_lt PC)

/-- The outcomes of the branches that use a counter. -/
def outcomes (k : Fin 4096) (bs : List TwoLevel.Branch) : List Bool :=
  (bs.filter fun b => entryOf b.PC = k).map TwoLevel.Branch.resolveDir

theorem outcomes_concat (k : Fin 4096) (bs : List TwoLevel.Branch) (b : TwoLevel.Branch) :
    outcomes k (bs ++ [b]) =
      if entryOf b.PC = k then outcomes k bs ++ [b.resolveDir] else outcomes k bs := by
  unfold outcomes
  rw [List.filter_append, List.map_append]
  split
  · next h => simp [h]
  · next h => simp [h]

/-- The counters have followed the outcomes of the branches that use them. -/
def Follows (bs : List TwoLevel.Branch) (s : State) : Prop :=
  ∀ k, (s k).toNat = (outcomes k bs).foldl TwoLevel.saturate 2

variable {bs : List TwoLevel.Branch} {s : State}

theorem Follows.init : Follows [] initPredictor := fun _ => rfl

theorem Follows.counter_le (h : Follows bs s) (k : Fin 4096) : (s k).toNat ≤ 3 := by
  rw [h k]
  exact TwoLevel.foldl_saturate_le _ (by decide)

/-- The prediction is that of the counter. -/
theorem Follows.getPrediction_eq (h : Follows bs s) (PC : UINT32) :
    getPrediction PC s =
      .ok (decide (2 ≤ (outcomes (entryOf PC) bs).foldl TwoLevel.saturate 2)) := by
  rw [getPrediction, locate_eq, ← h, ← TwoLevel.decode_eq (h.counter_le _)]
  rfl

/-- A counter is moved towards an outcome. -/
theorem toNat_update (s : State) (i k : Fin 4096) (c : UINT32) :
    (Function.update s i c k).toNat = if i = k then c.toNat else (s k).toNat := by
  by_cases hk : i = k
  · subst hk
    rw [if_pos rfl, Function.update_self]
  · rw [if_neg hk, Function.update_of_ne (Ne.symm hk)]

/-- **An update** keeps the correspondence. -/
theorem Follows.step (h : Follows bs s) (b : TwoLevel.Branch) :
    ∃ s', updatePredictor b.PC b.resolveDir s = .ok s' ∧ Follows (bs ++ [b]) s' := by
  -- both branches of the source write one counter
  have hwrite : ∀ c : UINT32, c.toNat = TwoLevel.saturate (s (entryOf b.PC)).toNat b.resolveDir →
      Follows (bs ++ [b]) (Function.update s (entryOf b.PC) c) := by
    intro c hc k
    rw [toNat_update, outcomes_concat]
    split
    · next hk =>
        subst hk
        rw [hc, h, List.foldl_append]
        rfl
    · exact h k
  have hite : ∀ (p : Prop) [Decidable p] (c : UINT32),
      (if p then Function.update s (entryOf b.PC) c else s) =
        Function.update s (entryOf b.PC) (if p then c else s (entryOf b.PC)) := by
    intro p _ c
    split
    · rfl
    · rw [Function.update_eq_self]
  have hle := h.counter_le (entryOf b.PC)
  unfold updatePredictor
  rw [locate_eq]
  cases hdir : b.resolveDir with
  | true =>
      rw [hdir] at hwrite
      exact ⟨_, congrArg Except.ok (hite _ _), hwrite _ (TwoLevel.toNat_taken hle)⟩
  | false =>
      rw [hdir] at hwrite
      exact ⟨_, congrArg Except.ok (hite _ _), hwrite _ (TwoLevel.toNat_notTaken hle)⟩

end TwoBitSat

/-! ### The main loop -/

namespace Cbp

abbrev UINT64 := BitVec 64

/-- The type of a record; the loop tells conditional branches from all others. -/
inductive OpType where
  | OPTYPE_BRANCH_COND
  | other (code : ℕ)
  deriving DecidableEq

/-- A record of the trace, and what undefined shifts give while it is processed. -/
structure Record where
  opType : OpType
  PC : UINT32
  branchTaken : Bool
  undef : ℕ → UINT32

/-- The three predictors, and their mispredictions. -/
structure Sim where
  bitsat : TwoBitSat.State
  level : TwoLevel.State
  openend : Openend.State
  numMispred_2bitsat : UINT64
  numMispred_2level : UINT64
  numMispred_openend : UINT64

/-- Count a misprediction. -/
def countMispred (predDir branchTaken : Bool) (n : UINT64) : UINT64 :=
  if predDir ≠ branchTaken then n + 1#64 else n

/-- A round of the loop: all predictions are made before any of the predictors is trained. -/
def round (x : Sim) (r : Record) : Except OutOfBounds Sim :=
  if r.opType = .OPTYPE_BRANCH_COND then do
    let predDir_2bitsat ← TwoBitSat.getPrediction r.PC x.bitsat
    let predDir_2level ← TwoLevel.getPrediction r.PC x.level
    let (predDir_openend, openend) ← Openend.getPrediction r.undef r.PC x.openend
    let bitsat ← TwoBitSat.updatePredictor r.PC r.branchTaken x.bitsat
    let level ← TwoLevel.updatePredictor r.PC r.branchTaken x.level
    let openend ← Openend.updatePredictor r.undef r.PC r.branchTaken openend
    return {
      bitsat, level, openend
      numMispred_2bitsat := countMispred predDir_2bitsat r.branchTaken x.numMispred_2bitsat
      numMispred_2level := countMispred predDir_2level r.branchTaken x.numMispred_2level
      numMispred_openend := countMispred predDir_openend r.branchTaken x.numMispred_openend }
  else return x

/-- **The main loop**, with whatever was in the global variables before. -/
def main (s₀ : Openend.State) (trace : List Record) : Except OutOfBounds Sim :=
  trace.foldlM round ⟨TwoBitSat.initPredictor, TwoLevel.initPredictor, Openend.initPredictor s₀,
    0#64, 0#64, 0#64⟩

/-- The conditional branches of a trace. -/
def branches (trace : List Record) : List TwoLevel.Branch :=
  (trace.filter fun r => r.opType = .OPTYPE_BRANCH_COND).map fun r => ⟨r.PC, r.branchTaken⟩

/-- The same, with what undefined shifts give. -/
def openendBranches (trace : List Record) : List Openend.Branch :=
  (trace.filter fun r => r.opType = .OPTYPE_BRANCH_COND).map fun r =>
    ⟨r.PC, r.branchTaken, r.undef⟩

theorem length_branches_le (trace : List Record) : (branches trace).length ≤ trace.length := by
  unfold branches
  rw [List.length_map]
  exact List.length_filter_le _ trace

/-! ### A round of the loop -/

/-- Whether an outcome was predicted, as a number. -/
def wrong (predDir branchTaken : Bool) : ℕ := if predDir = branchTaken then 0 else 1

theorem toNat_countMispred {n : UINT64} (h : n.toNat + 1 < 2 ^ 64) (predDir branchTaken : Bool) :
    (countMispred predDir branchTaken n).toNat = n.toNat + wrong predDir branchTaken := by
  unfold countMispred wrong
  by_cases hp : predDir = branchTaken
  · simp [hp]
  · simp only [ne_eq, hp, not_false_eq_true, if_true, if_false, BitVec.toNat_add]
    exact Nat.mod_eq_of_lt h

/-- **The predictors have followed the trace**, and their mispredictions are those of their
counters. -/
structure Counted (s₀ : Openend.State) (trace : List Record) (x : Sim) : Prop where
  bitsat : TwoBitSat.Follows (branches trace) x.bitsat
  level : TwoLevel.Follows (branches trace) x.level
  openend : Openend.InRange (openendBranches trace) x.openend
  num_2bitsat : x.numMispred_2bitsat.toNat =
    ∑ k, Counters.misses 3 2 2 (TwoBitSat.outcomes k (branches trace))
  num_2level : x.numMispred_2level.toNat =
    ∑ p : Fin 8 × Fin 64, Counters.misses 3 2 1 (TwoLevel.trained p.1 p.2 [] (branches trace))
  num_openend : Openend.run s₀ (openendBranches trace) = .ok (x.openend, x.numMispred_openend.toNat)
  le_2bitsat : x.numMispred_2bitsat.toNat ≤ (branches trace).length
  le_2level : x.numMispred_2level.toNat ≤ (branches trace).length
  le_openend : x.numMispred_openend.toNat ≤ (branches trace).length

end Cbp

/-- The prediction of the two-level predictor is that of the counter for its history. -/
theorem TwoLevel.Follows.getPrediction_eq {bs : List TwoLevel.Branch} {s : TwoLevel.State}
    (h : TwoLevel.Follows bs s) (PC : UINT32) :
    TwoLevel.getPrediction PC s = .ok (decide (2 ≤ (TwoLevel.trained (TwoLevel.rowOf PC)
      (TwoLevel.lastSix (TwoLevel.outcomes (TwoLevel.historyOf PC) bs)) [] bs).foldl
        TwoLevel.saturate 1)) := by
  have hh := h.history_lt ⟨TwoLevel.historyOf PC, TwoLevel.historyOf_lt PC⟩
  have hc := h.counter ⟨TwoLevel.rowOf PC, TwoLevel.rowOf_lt PC⟩ ⟨_, hh⟩
  rw [show ((⟨_, hh⟩ : Fin 64) : ℕ) = _ from h.history _] at hc
  rw [TwoLevel.getPrediction, TwoLevel.locate_eq hh, ← hc, ← TwoLevel.decode_eq (h.counter_le _ _)]
  rfl

namespace Cbp

variable {s₀ : Openend.State} {trace : List Record} {x : Sim}

/-- One more misprediction of the table of two-bit counters, or none. -/
theorem sum_2bitsat (bs : List TwoLevel.Branch) (b : TwoLevel.Branch) :
    ∑ k, Counters.misses 3 2 2 (TwoBitSat.outcomes k (bs ++ [b])) =
      ∑ k, Counters.misses 3 2 2 (TwoBitSat.outcomes k bs) +
        wrong (decide (2 ≤ (TwoBitSat.outcomes (TwoBitSat.entryOf b.PC) bs).foldl
          TwoLevel.saturate 2)) b.resolveDir := by
  refine Counters.sum_misses_concat (k := TwoBitSat.entryOf b.PC) ?_ ?_ 2
  · rw [TwoBitSat.outcomes_concat, if_pos rfl]
  · intro j hj
    rw [TwoBitSat.outcomes_concat, if_neg (Ne.symm hj)]

/-- One more misprediction of the two-level predictor, or none. -/
theorem sum_2level (bs : List TwoLevel.Branch) (b : TwoLevel.Branch) :
    ∑ p : Fin 8 × Fin 64, Counters.misses 3 2 1 (TwoLevel.trained p.1 p.2 [] (bs ++ [b])) =
      ∑ p : Fin 8 × Fin 64, Counters.misses 3 2 1 (TwoLevel.trained p.1 p.2 [] bs) +
        wrong (decide (2 ≤ (TwoLevel.trained (TwoLevel.rowOf b.PC)
          (TwoLevel.lastSix (TwoLevel.outcomes (TwoLevel.historyOf b.PC) bs)) [] bs).foldl
            TwoLevel.saturate 1)) b.resolveDir := by
  let k : Fin 8 × Fin 64 := (⟨TwoLevel.rowOf b.PC, TwoLevel.rowOf_lt b.PC⟩,
    ⟨_, TwoLevel.lastSix_lt (TwoLevel.outcomes (TwoLevel.historyOf b.PC) bs)⟩)
  refine Counters.sum_misses_concat (k := k) ?_ ?_ 1
  · rw [TwoLevel.trained_concat, if_pos ⟨rfl, rfl⟩]
  · intro j hj
    rw [TwoLevel.trained_concat, if_neg, List.append_nil]
    rintro ⟨hr, hh⟩
    exact hj (Prod.ext (Fin.ext hr.symm) (Fin.ext hh.symm))

theorem Counted.init (s₀ : Openend.State) :
    Counted s₀ [] ⟨TwoBitSat.initPredictor, TwoLevel.initPredictor, Openend.initPredictor s₀,
      0#64, 0#64, 0#64⟩ where
  bitsat := TwoBitSat.Follows.init
  level := TwoLevel.Follows.init
  openend := ⟨Openend.ranges_initPredictor, fun h => absurd rfl h, Openend.Recorded.start s₀⟩
  num_2bitsat := (Finset.sum_eq_zero fun _ _ => rfl).symm
  num_2level := (Finset.sum_eq_zero fun _ _ => rfl).symm
  num_openend := rfl
  le_2bitsat := le_rfl
  le_2level := le_rfl
  le_openend := le_rfl

/-- **A round of the loop** succeeds, and counts the mispredictions. -/
theorem Counted.round (h : Counted s₀ trace x) (r : Record) (hlen : trace.length + 1 < 2 ^ 64) :
    ∃ x', round x r = .ok x' ∧ Counted s₀ (trace ++ [r]) x' := by
  have hshort : (branches trace).length + 1 < 2 ^ 64 :=
    Nat.lt_of_le_of_lt (Nat.succ_le_succ (length_branches_le trace)) hlen
  have hwrong : ∀ p q, wrong p q ≤ 1 := by decide
  by_cases hr : r.opType = .OPTYPE_BRANCH_COND
  · have hb : branches (trace ++ [r]) = branches trace ++ [⟨r.PC, r.branchTaken⟩] := by
      simp [branches, List.filter_append, hr]
    have hb' : openendBranches (trace ++ [r]) =
        openendBranches trace ++ [⟨r.PC, r.branchTaken, r.undef⟩] := by
      simp [openendBranches, List.filter_append, hr]
    have hlength : (branches (trace ++ [r])).length = (branches trace).length + 1 := by
      rw [hb, List.length_append, List.length_singleton]
    obtain ⟨bitsat, hbitsat, hfollows⟩ := h.bitsat.step ⟨r.PC, r.branchTaken⟩
    obtain ⟨level, hlevel, hfollows'⟩ := h.level.step ⟨r.PC, r.branchTaken⟩
    obtain ⟨s', m', hstep, hrange⟩ := h.openend.step x.numMispred_openend.toNat
      ⟨r.PC, r.branchTaken, r.undef⟩
    obtain ⟨⟨predDir, s₁⟩, hpred, hrest⟩ := bind_ok.1 hstep
    obtain ⟨s₂, hupdate, hm'⟩ := bind_ok.1 hrest
    obtain ⟨rfl, hcount⟩ := Prod.mk.inj (Except.ok.inj hm')
    obtain ⟨p₁, hp₁, hsum₁⟩ : ∃ p, TwoBitSat.getPrediction r.PC x.bitsat = .ok p ∧
        ∑ k, Counters.misses 3 2 2 (TwoBitSat.outcomes k (branches (trace ++ [r]))) =
          x.numMispred_2bitsat.toNat + wrong p r.branchTaken := by
      rw [hb, sum_2bitsat, ← h.num_2bitsat]
      exact ⟨_, h.bitsat.getPrediction_eq r.PC, rfl⟩
    obtain ⟨p₂, hp₂, hsum₂⟩ : ∃ p, TwoLevel.getPrediction r.PC x.level = .ok p ∧
        ∑ k : Fin 8 × Fin 64,
            Counters.misses 3 2 1 (TwoLevel.trained k.1 k.2 [] (branches (trace ++ [r]))) =
          x.numMispred_2level.toNat + wrong p r.branchTaken := by
      rw [hb, sum_2level, ← h.num_2level]
      exact ⟨_, h.level.getPrediction_eq r.PC, rfl⟩
    have h₁ := toNat_countMispred (Nat.lt_of_le_of_lt (Nat.succ_le_succ h.le_2bitsat) hshort) p₁
      r.branchTaken
    have h₂ := toNat_countMispred (Nat.lt_of_le_of_lt (Nat.succ_le_succ h.le_2level) hshort) p₂
      r.branchTaken
    have h₃ := toNat_countMispred (Nat.lt_of_le_of_lt (Nat.succ_le_succ h.le_openend) hshort)
      predDir r.branchTaken
    refine ⟨⟨bitsat, level, s₂, countMispred p₁ r.branchTaken x.numMispred_2bitsat,
      countMispred p₂ r.branchTaken x.numMispred_2level,
      countMispred predDir r.branchTaken x.numMispred_openend⟩, ?_, ?_⟩
    · rw [Cbp.round, if_pos hr]
      refine bind_ok.2 ⟨_, hp₁, bind_ok.2 ⟨_, hp₂, bind_ok.2 ⟨_, hpred, ?_⟩⟩⟩
      exact bind_ok.2 ⟨_, hbitsat, bind_ok.2 ⟨_, hlevel, bind_ok.2 ⟨_, hupdate, rfl⟩⟩⟩
    constructor
    · rw [hb]; exact hfollows
    · rw [hb]; exact hfollows'
    · rw [hb']; exact hrange
    · rw [hsum₁]; exact h₁
    · rw [hsum₂]; exact h₂
    · have hcount' : m' = x.numMispred_openend.toNat + wrong predDir r.branchTaken := by
        rw [← hcount, wrong]
        by_cases hp : predDir = r.branchTaken <;> simp [hp]
      rw [hb', Openend.run, List.foldlM_append]
      refine bind_ok.2 ⟨_, h.num_openend, ?_⟩
      rw [List.foldlM_cons, hstep, hcount', ← h₃]
      rfl
    · rw [hlength, h₁]
      exact Nat.add_le_add h.le_2bitsat (hwrong _ _)
    · rw [hlength, h₂]
      exact Nat.add_le_add h.le_2level (hwrong _ _)
    · rw [hlength, h₃]
      exact Nat.add_le_add h.le_openend (hwrong _ _)
  · have hb : branches (trace ++ [r]) = branches trace := by
      simp [branches, List.filter_append, hr]
    have hb' : openendBranches (trace ++ [r]) = openendBranches trace := by
      simp [openendBranches, List.filter_append, hr]
    refine ⟨x, if_neg hr, ?_⟩
    constructor
    · rw [hb]; exact h.bitsat
    · rw [hb]; exact h.level
    · rw [hb']; exact h.openend
    · rw [hb]; exact h.num_2bitsat
    · rw [hb]; exact h.num_2level
    · rw [hb']; exact h.num_openend
    · rw [hb]; exact h.le_2bitsat
    · rw [hb]; exact h.le_2level
    · rw [hb]; exact h.le_openend

/-! ### Whole traces -/

theorem main_counted (s₀ : Openend.State) (trace : List Record) (hlen : trace.length < 2 ^ 64) :
    ∃ x, main s₀ trace = .ok x ∧ Counted s₀ trace x := by
  induction trace using List.reverseRecOn with
  | nil => exact ⟨_, rfl, Counted.init s₀⟩
  | append_singleton trace r ih =>
      rw [List.length_append, List.length_singleton] at hlen
      obtain ⟨x, hx, hcounted⟩ := ih (Nat.lt_of_succ_lt hlen)
      obtain ⟨x', hround, hcounted'⟩ := hcounted.round r hlen
      refine ⟨x', ?_, hcounted'⟩
      unfold main at hx ⊢
      rw [List.foldlM_append, hx]
      change List.foldlM Cbp.round x [r] = _
      rw [List.foldlM_cons, hround]
      rfl

/-- **How often the predictors err**, for every trace.  No index is out of bounds.  Each two-bit
counter errs at most twice for each time its branches were not taken, and at most twice for each
time they were taken, up to one error because of its initial value; and so does each counter of the
two-level predictor, the branches of which are those with the same recent history. -/
theorem main_mispredictions (s₀ : Openend.State) (trace : List Record)
    (hlen : trace.length < 2 ^ 64) :
    ∃ x, main s₀ trace = .ok x ∧
      x.numMispred_2bitsat.toNat ≤ ∑ k,
        min (2 * (TwoBitSat.outcomes k (branches trace)).count NOT_TAKEN)
          (2 * (TwoBitSat.outcomes k (branches trace)).count TAKEN + 1) ∧
      x.numMispred_2level.toNat ≤ ∑ p : Fin 8 × Fin 64,
        min (2 * (TwoLevel.trained p.1 p.2 [] (branches trace)).count NOT_TAKEN + 1)
          (2 * (TwoLevel.trained p.1 p.2 [] (branches trace)).count TAKEN) ∧
      x.numMispred_openend.toNat ≤ (branches trace).length := by
  obtain ⟨x, hx, h⟩ := main_counted s₀ trace hlen
  refine ⟨x, hx, ?_, ?_, ?_⟩
  · rw [h.num_2bitsat]
    refine Finset.sum_le_sum fun k _ => le_min ?_ ?_
    · exact Counters.misses_le_false (by decide) 2 _
    · exact Counters.misses_le_true (by decide) 2 _
  · rw [h.num_2level]
    refine Finset.sum_le_sum fun p _ => le_min ?_ ?_
    · exact Counters.misses_le_false (by decide) 1 _
    · exact Counters.misses_le_true (by decide) 1 _
  · exact h.le_openend

/-- Three records: a branch that is taken, an instruction of another kind, and the branch again,
not taken. -/
def demoTrace : List Record :=
  [⟨.OPTYPE_BRANCH_COND, 0x400#32, true, fun _ => 0#32⟩, ⟨.other 3, 0x404#32, false, fun _ => 0#32⟩,
    ⟨.OPTYPE_BRANCH_COND, 0x400#32, false, fun _ => 0#32⟩]

/-- Two branches: the open-ended predictor does not err more often than that. -/
theorem main_mispredictions_demo :
    ∃ x, main Openend.blank demoTrace = .ok x ∧ x.numMispred_openend.toNat ≤ 2 := by
  obtain ⟨x, hx, -, -, h⟩ := main_mispredictions Openend.blank demoTrace (by decide)
  exact ⟨x, hx, h⟩

end Cbp

/-! ### Histories that determine the outcome -/

namespace TwoLevel

/-- The outcomes that a counter sees in the second part of a trace. -/
theorem trained_append (r h : ℕ) (past bs bs' : List Branch) :
    trained r h past (bs ++ bs') = trained r h past bs ++ trained r h (past ++ bs) bs' := by
  induction bs generalizing past with
  | nil => simp [trained]
  | cons c bs ih =>
      simp only [List.cons_append, trained, ih, List.append_assoc, List.nil_append]
      split
      · rw [List.cons_append]
      · rfl

/-- After some branches, the outcomes are determined by the row and the history. -/
def Determined (f : ℕ → ℕ → Bool) (past bs : List Branch) : Prop :=
  ∀ before b after, bs = before ++ b :: after →
    b.resolveDir = f (rowOf b.PC) (lastSix (outcomes (historyOf b.PC) (past ++ before)))

/-- A counter then sees one outcome only. -/
theorem Determined.trained_eq {f : ℕ → ℕ → Bool} {past bs : List Branch} (h : Determined f past bs)
    (r c : ℕ) : ∀ o ∈ trained r c past bs, o = f r c := by
  induction bs generalizing past with
  | nil =>
      intro o ho
      cases ho
  | cons b bs ih =>
      have htail : Determined f (past ++ [b]) bs := by
        rintro before b' after rfl
        have := h (b :: before) b' after rfl
        rwa [List.append_cons] at this
      intro o ho
      unfold trained at ho
      split at ho
      · next hb =>
          rcases List.mem_cons.1 ho with rfl | ho
          · have := h [] b bs rfl
            rw [List.append_nil] at this
            rw [this, hb.1, hb.2]
          · exact ih htail o ho
      · exact ih htail o ho

/-- Such a counter errs at most twice. -/
theorem Determined.misses_le {f : ℕ → ℕ → Bool} {past bs : List Branch} (h : Determined f past bs)
    (r c : ℕ) {cnt : ℕ} (hcnt : cnt ≤ 3) :
    Counters.misses 3 2 cnt (trained r c past bs) ≤ 2 := by
  have hfalse : Counters.misses 3 2 cnt (trained r c past bs) ≤ _ :=
    Counters.misses_le_false (by decide) cnt _
  have htrue : Counters.misses 3 2 cnt (trained r c past bs) ≤ _ :=
    Counters.misses_le_true (by decide) cnt _
  have hall := h.trained_eq r c
  cases hf : f r c with
  | true =>
      have : (trained r c past bs).count false = 0 := by
        rw [List.count_eq_zero]
        intro hm
        cases (hall false hm).trans hf
      omega
  | false =>
      have : (trained r c past bs).count true = 0 := by
        rw [List.count_eq_zero]
        intro hm
        cases (hall true hm).trans hf
      omega

end TwoLevel

namespace Cbp

theorem branches_append (trace trace' : List Record) :
    branches (trace ++ trace') = branches trace ++ branches trace' := by
  simp [branches, List.filter_append]

/-- **The two-level predictor learns what its histories determine.** Whatever has happened before:
in a part of a trace in which the outcome of every branch is a function of its row and of its
history, the two-level predictor errs at most twice for each of its counters.  The trace may have
any length below 2⁶⁴. -/
theorem main_learns (s₀ : Openend.State) (trace trace' : List Record)
    (hlen : (trace ++ trace').length < 2 ^ 64) (f : ℕ → ℕ → Bool)
    (hdet : TwoLevel.Determined f (branches trace) (branches trace')) :
    ∃ x x', main s₀ trace = .ok x ∧ main s₀ (trace ++ trace') = .ok x' ∧
      x'.numMispred_2level.toNat ≤ x.numMispred_2level.toNat + 1024 := by
  have hlen' : trace.length < 2 ^ 64 := by
    rw [List.length_append] at hlen
    omega
  obtain ⟨x, hx, h⟩ := main_counted s₀ trace hlen'
  obtain ⟨x', hx', h'⟩ := main_counted s₀ (trace ++ trace') hlen
  refine ⟨x, x', hx, hx', ?_⟩
  rw [h.num_2level, h'.num_2level, branches_append]
  simp only [TwoLevel.trained_append, Counters.misses_append, List.nil_append,
    Finset.sum_add_distrib]
  refine Nat.add_le_add_left ?_ _
  calc ∑ p : Fin 8 × Fin 64, Counters.misses 3 2
        ((TwoLevel.trained p.1 p.2 [] (branches trace)).foldl (Counters.train 3) 1)
        (TwoLevel.trained p.1 p.2 (branches trace) (branches trace'))
      ≤ ∑ _p : Fin 8 × Fin 64, 2 :=
        Finset.sum_le_sum fun p _ =>
          hdet.misses_le p.1 p.2 (TwoLevel.foldl_saturate_le _ (by decide))
    _ = 1024 := by simp

/-- A branch that is taken every other time, after some other branches. -/
theorem main_learns_alternating :
    ∃ x x', main Openend.blank demoTrace = .ok x ∧
      main Openend.blank (demoTrace ++
        [⟨.OPTYPE_BRANCH_COND, 0x800#32, true, fun _ => 0#32⟩,
          ⟨.OPTYPE_BRANCH_COND, 0x800#32, false, fun _ => 0#32⟩]) = .ok x' ∧
      x'.numMispred_2level.toNat ≤ x.numMispred_2level.toNat + 1024 := by
  refine main_learns Openend.blank demoTrace _ (by decide) (fun _ h => h % 2 = 0) ?_
  rintro before b after h
  rcases before with _ | ⟨b₁, _ | ⟨b₂, before⟩⟩
  · cases h
    decide
  · cases h
    decide
  · simp [branches] at h

end Cbp
