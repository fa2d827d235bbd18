/-
**The two-level predictor of `predictor.cc`.**

The predictor keeps the last outcomes of the branches in a table of histories, and a counter for
each history in a second table.  A branch finds its history by some bits of its address, and the row
of the counters by others; so branches share histories and counters in different ways.  This module
models the predictor and proves that both tables are what the trace of branches says they should be:
a history is the word of the last six outcomes of the branches that share it, and a counter has
followed the outcomes of the branches that have used it.

The arguments `predDir` and `branchTarget` of the update are not used by the source and are left
out.

Main definitions:

* `TwoLevel.State`, `TwoLevel.initPredictor`, `TwoLevel.getPrediction`, `TwoLevel.updatePredictor`,
  `TwoLevel.run` — the predictor;
* `TwoLevel.lastSix`, `TwoLevel.saturate` — the word of the last six outcomes, and a counter from 0
  to 3, as numbers;
* `TwoLevel.outcomes`, `TwoLevel.trained` — the outcomes that a history and a counter have seen.

Main results:

* `TwoLevel.lastSix_concat` — one more outcome is shifted into the word;
* `TwoLevel.Follows.step` — an update keeps the correspondence;
* `TwoLevel.run_follows` — **the tables are what the trace says**, and no index is out of bounds.
-/

import ArchLab.TageSpec
import Mathlib.Data.List.Induction
import Mathlib.Data.Nat.Bitwise

set_option relaxedAutoImplicit false
set_option autoImplicit false

namespace TwoLevel

open Openend (UINT32 TAKEN NOT_TAKEN OutOfBounds index index_of_lt)

/-! ### The predictor -/

def S_NT : UINT32 := 0#32
def W_NT : UINT32 := 1#32
def W_T : UINT32 := 2#32
def S_T : UINT32 := 3#32

def TWO_LEVEL_PHT_IDX_MASK : UINT32 := 0x00000007#32
def TWO_LEVEL_BHT_IDX_MASK : UINT32 := 0x00000FF8#32
def TWO_LEVEL_BHT_BIT_MASK : UINT32 := 0x0000003F#32

/-- The two tables: histories, and counters. -/
structure State where
  BHT : Fin 512 → UINT32
  PHT : Fin 8 → Fin 64 → UINT32

/-- Nothing has been taken yet, and all counters are weakly not taken. -/
def initPredictor : State where
  BHT _ := 0#32
  PHT _ _ := W_NT

/-- The place of a counter, and of the history that leads to it. -/
structure Place where
  history : Fin 512
  row : Fin 8
  column : Fin 64

/-- The places that a branch uses. -/
def locate (PC : UINT32) (s : State) : Except OutOfBounds Place := do
  let row ← index 8 (PC &&& TWO_LEVEL_PHT_IDX_MASK).toNat
  let history ← index 512 ((PC &&& TWO_LEVEL_BHT_IDX_MASK) >>> 3).toNat
  let column ← index 64 (s.BHT history).toNat
  return ⟨history, row, column⟩

/-- The cases of `GetPrediction_2level`. -/
def decode (cnt : UINT32) : Bool :=
  if cnt = S_NT then NOT_TAKEN
  else if cnt = W_NT then NOT_TAKEN
  else if cnt = W_T then TAKEN
  else if cnt = S_T then TAKEN
  else TAKEN

/-- **`GetPrediction_2level`.** -/
def getPrediction (PC : UINT32) (s : State) : Except OutOfBounds Bool := do
  let p ← locate PC s
  return decode (s.PHT p.row p.column)

/-- Write a counter, then a history. -/
def State.write (p : Place) (cnt history : UINT32) (s : State) : State where
  PHT := Function.update s.PHT p.row (Function.update (s.PHT p.row) p.column cnt)
  BHT := Function.update s.BHT p.history history

/-- **`UpdatePredictor_2level`.** -/
def updatePredictor (PC : UINT32) (resolveDir : Bool) (s : State) : Except OutOfBounds State := do
  let p ← locate PC s
  let cnt := s.PHT p.row p.column
  let history := s.BHT p.history
  if resolveDir = TAKEN then
    return s.write p (if cnt ≠ S_T then cnt + 1#32 else cnt)
      (((history <<< 1) ||| 0x1#32) &&& TWO_LEVEL_BHT_BIT_MASK)
  else
    return s.write p (if cnt ≠ S_NT then cnt - 1#32 else cnt)
      ((history <<< 1) &&& (TWO_LEVEL_BHT_BIT_MASK - 0b1#32))

/-- A branch of the trace. -/
structure Branch where
  PC : UINT32
  resolveDir : Bool

/-- The updates for a trace of branches. -/
def run (bs : List Branch) : Except OutOfBounds State :=
  bs.foldlM (fun s b => updatePredictor b.PC b.resolveDir s) initPredictor

/-! ### What the tables should be -/

/-- The word of the last six outcomes, the youngest one in bit 0; missing ones are not taken. -/
def lastSix (os : List Bool) : ℕ := Nat.ofBits fun i : Fin 6 => os.reverse.getD i false

/-- A saturating counter from 0 to 3. -/
def saturate (cnt : ℕ) (taken : Bool) : ℕ := if taken then min (cnt + 1) 3 else cnt - 1

/-- The number of the history of a branch. -/
def historyOf (PC : UINT32) : ℕ := ((PC >>> 3) &&& 511#32).toNat

/-- The row of the counters of a branch. -/
def rowOf (PC : UINT32) : ℕ := (PC &&& 7#32).toNat

/-- The outcomes of the branches that share a history. -/
def outcomes (k : ℕ) (bs : List Branch) : List Bool :=
  (bs.filter fun b => historyOf b.PC = k).map Branch.resolveDir

/-- The outcomes of the branches that use a counter: those of its row whose history was `h` just
before their update.  `past` are the branches before. -/
def trained (r h : ℕ) : List Branch → List Branch → List Bool
  | _, [] => []
  | past, b :: bs =>
      if rowOf b.PC = r ∧ lastSix (outcomes (historyOf b.PC) past) = h then
        b.resolveDir :: trained r h (past ++ [b]) bs
      else trained r h (past ++ [b]) bs

/-! ### Words and counters -/

section Words

theorem lastSix_lt (os : List Bool) : lastSix os < 64 := Nat.ofBits_lt_two_pow _

/-- Before any outcome the word is 0. -/
theorem lastSix_nil : lastSix [] = 0 := by decide

/-- **One more outcome** is shifted into the word. -/
theorem lastSix_concat (os : List Bool) (b : Bool) :
    lastSix (os ++ [b]) = (2 * lastSix os + b.toNat) % 64 := by
  refine Nat.eq_of_testBit_eq fun i => ?_
  rw [show 64 = 2 ^ 6 from rfl, Nat.testBit_mod_two_pow, lastSix, List.reverse_concat]
  by_cases hi : i < 6
  · rw [Nat.testBit_ofBits_lt _ i hi, decide_eq_true hi, Bool.true_and]
    cases i with
    | zero => cases b <;> simp [Nat.testBit_zero, Nat.add_mod]
    | succ i =>
        have hhalf : (2 * lastSix os + b.toNat) / 2 = lastSix os := by
          have hle := b.toNat_le
          omega
        rw [Nat.testBit_succ, hhalf, lastSix, Nat.testBit_ofBits_lt _ i (by omega)]
        rfl
  · rw [Nat.testBit_ofBits_ge _ i (by omega)]
    simp [hi]

theorem saturate_le {cnt : ℕ} (h : cnt ≤ 3) (taken : Bool) : saturate cnt taken ≤ 3 := by
  unfold saturate
  split <;> omega

/-- A counter stays between 0 and 3. -/
theorem foldl_saturate_le (os : List Bool) {cnt : ℕ} (h : cnt ≤ 3) :
    os.foldl saturate cnt ≤ 3 := by
  induction os generalizing cnt with
  | nil => exact h
  | cons b os ih => exact ih (saturate_le h b)

/-- The last branch of a trace uses a counter or does not. -/
theorem trained_concat (r h : ℕ) (past bs : List Branch) (b : Branch) :
    trained r h past (bs ++ [b]) = trained r h past bs ++
      if rowOf b.PC = r ∧ lastSix (outcomes (historyOf b.PC) (past ++ bs)) = h then [b.resolveDir]
      else [] := by
  induction bs generalizing past with
  | nil => simp [trained]
  | cons c bs ih =>
      simp only [List.cons_append, trained, ih, List.append_assoc, List.nil_append]
      split
      · rw [List.cons_append]
      · rfl

theorem outcomes_concat (k : ℕ) (bs : List Branch) (b : Branch) :
    outcomes k (bs ++ [b]) =
      if historyOf b.PC = k then outcomes k bs ++ [b.resolveDir] else outcomes k bs := by
  unfold outcomes
  rw [List.filter_append, List.map_append]
  split
  · next h => simp [h]
  · next h => simp [h]

end Words

/-! ### The tables -/

section Tables

theorem historyOf_lt (PC : UINT32) : historyOf PC < 512 := by
  rw [historyOf, BitVec.toNat_and]
  exact Nat.lt_of_le_of_lt Nat.and_le_right (by decide)

theorem rowOf_lt (PC : UINT32) : rowOf PC < 8 := by
  rw [rowOf, BitVec.toNat_and]
  exact Nat.lt_of_le_of_lt Nat.and_le_right (by decide)

/-- The mask and the shift of the source, the other way around. -/
theorem toNat_history (PC : UINT32) :
    ((PC &&& TWO_LEVEL_BHT_IDX_MASK) >>> 3).toNat = historyOf PC := by
  rw [BitVec.ushiftRight_and_distrib]
  rfl

/-- The places that a branch uses, if its history is a word of six bits. -/
def placeOf (PC : UINT32) {h : ℕ} (hh : h < 64) : Place :=
  ⟨⟨historyOf PC, historyOf_lt PC⟩, ⟨rowOf PC, rowOf_lt PC⟩, ⟨h, hh⟩⟩

theorem locate_eq {PC : UINT32} {s : State}
    (hh : (s.BHT ⟨historyOf PC, historyOf_lt PC⟩).toNat < 64) :
    locate PC s = .ok (placeOf PC hh) := by
  unfold locate
  rw [toNat_history]
  change (do
    let row ← index 8 (rowOf PC)
    let history ← index 512 (historyOf PC)
    let column ← index 64 (s.BHT history).toNat
    return Place.mk history row column) = _
  rw [index_of_lt (rowOf_lt PC), index_of_lt (historyOf_lt PC)]
  change (do
    let column ← index 64 (s.BHT ⟨historyOf PC, historyOf_lt PC⟩).toNat
    return Place.mk _ _ column) = _
  rw [index_of_lt hh]
  rfl

/-- A small word is one of a few. -/
theorem exists_ofNat {n : ℕ} {x : UINT32} (h : x.toNat < n) : ∃ i : Fin n, x = BitVec.ofNat 32 i :=
  ⟨⟨x.toNat, h⟩, by simp⟩

/-- The counter after a branch that is taken. -/
theorem toNat_taken {cnt : UINT32} (h : cnt.toNat ≤ 3) :
    (if cnt ≠ S_T then cnt + 1#32 else cnt).toNat = saturate cnt.toNat true := by
  obtain ⟨n, rfl⟩ := exists_ofNat (Nat.lt_succ_of_le h)
  clear h
  revert n
  decide

/-- The counter after a branch that is not taken. -/
theorem toNat_notTaken {cnt : UINT32} (h : cnt.toNat ≤ 3) :
    (if cnt ≠ S_NT then cnt - 1#32 else cnt).toNat = saturate cnt.toNat false := by
  obtain ⟨n, rfl⟩ := exists_ofNat (Nat.lt_succ_of_le h)
  clear h
  revert n
  decide

/-- The history after a branch that is taken. -/
theorem toNat_shift_taken {w : UINT32} (h : w.toNat < 64) :
    (((w <<< 1) ||| 0x1#32) &&& TWO_LEVEL_BHT_BIT_MASK).toNat = (2 * w.toNat + 1) % 64 := by
  obtain ⟨n, rfl⟩ := exists_ofNat h
  clear h
  revert n
  decide

/-- The history after a branch that is not taken; the mask is a different one. -/
theorem toNat_shift_notTaken {w : UINT32} (h : w.toNat < 64) :
    ((w <<< 1) &&& (TWO_LEVEL_BHT_BIT_MASK - 0b1#32)).toNat = 2 * w.toNat % 64 := by
  obtain ⟨n, rfl⟩ := exists_ofNat h
  clear h
  revert n
  decide

/-- The prediction of a counter. -/
theorem decode_eq {cnt : UINT32} (h : cnt.toNat ≤ 3) : decode cnt = decide (2 ≤ cnt.toNat) := by
  obtain ⟨n, rfl⟩ := exists_ofNat (Nat.lt_succ_of_le h)
  clear h
  revert n
  decide

/-- What a write leaves behind. -/
theorem write_BHT (p : Place) (cnt history : UINT32) (s : State) (k : Fin 512) :
    (s.write p cnt history).BHT k = if k = p.history then history else s.BHT k := by
  by_cases hk : k = p.history
  · subst hk
    rw [if_pos rfl]
    exact Function.update_self p.history _ s.BHT
  · rw [if_neg hk]
    exact Function.update_of_ne hk _ s.BHT

theorem write_PHT (p : Place) (cnt history : UINT32) (s : State) (r : Fin 8) (h : Fin 64) :
    (s.write p cnt history).PHT r h = if r = p.row ∧ h = p.column then cnt else s.PHT r h := by
  by_cases hr : r = p.row
  · subst hr
    have hrow : (s.write p cnt history).PHT p.row = Function.update (s.PHT p.row) p.column cnt :=
      Function.update_self p.row _ s.PHT
    rw [hrow]
    by_cases hh : h = p.column
    · subst hh
      rw [if_pos ⟨rfl, rfl⟩, Function.update_self]
    · rw [if_neg fun e => hh e.2, Function.update_of_ne hh]
  · rw [if_neg fun e => hr e.1]
    exact congrFun (Function.update_of_ne hr _ s.PHT) h

/-- **The effect of an update**, in numbers. -/
theorem updatePredictor_spec {PC : UINT32} {s : State} (dir : Bool)
    (hh : (s.BHT ⟨historyOf PC, historyOf_lt PC⟩).toNat < 64)
    (hc : (s.PHT ⟨rowOf PC, rowOf_lt PC⟩ ⟨_, hh⟩).toNat ≤ 3) :
    ∃ s', updatePredictor PC dir s = .ok s' ∧
      (∀ k, (s'.BHT k).toNat = if k.val = historyOf PC then (2 * (s.BHT k).toNat + dir.toNat) % 64
        else (s.BHT k).toNat) ∧
      ∀ r h, (s'.PHT r h).toNat =
        if r.val = rowOf PC ∧ h.val = (s.BHT ⟨historyOf PC, historyOf_lt PC⟩).toNat then
          saturate (s.PHT r h).toNat dir
        else (s.PHT r h).toNat := by
  -- the two branches of the source write the same places
  have hwrite : ∀ cnt history : UINT32,
      cnt.toNat = saturate (s.PHT ⟨rowOf PC, rowOf_lt PC⟩ ⟨_, hh⟩).toNat dir →
      history.toNat = (2 * (s.BHT ⟨historyOf PC, historyOf_lt PC⟩).toNat + dir.toNat) % 64 →
      (∀ k, ((s.write (placeOf PC hh) cnt history).BHT k).toNat =
        if k.val = historyOf PC then (2 * (s.BHT k).toNat + dir.toNat) % 64
        else (s.BHT k).toNat) ∧
      ∀ r h, ((s.write (placeOf PC hh) cnt history).PHT r h).toNat =
        if r.val = rowOf PC ∧ h.val = (s.BHT ⟨historyOf PC, historyOf_lt PC⟩).toNat then
          saturate (s.PHT r h).toNat dir
        else (s.PHT r h).toNat := by
    intro cnt history hcnt hhistory
    constructor
    · intro k
      rw [write_BHT]
      by_cases hk : k = (placeOf PC hh).history
      · rw [if_pos hk, hk, hhistory]
        exact (if_pos rfl).symm
      · rw [if_neg hk]
        exact (if_neg fun e => hk (Fin.ext e)).symm
    · intro r h
      rw [write_PHT]
      by_cases hp : r = (placeOf PC hh).row ∧ h = (placeOf PC hh).column
      · rw [if_pos hp, hp.1, hp.2, hcnt]
        exact (if_pos ⟨rfl, rfl⟩).symm
      · rw [if_neg hp]
        exact (if_neg fun e => hp ⟨Fin.ext e.1, Fin.ext e.2⟩).symm
  unfold updatePredictor
  rw [locate_eq hh]
  cases dir with
  | true => exact ⟨_, rfl, hwrite _ _ (toNat_taken hc) (toNat_shift_taken hh)⟩
  | false => exact ⟨_, rfl, hwrite _ _ (toNat_notTaken hc) (toNat_shift_notTaken hh)⟩

end Tables

/-! ### Traces -/

section Traces

/-- The tables are what a trace of branches says. -/
structure Follows (bs : List Branch) (s : State) : Prop where
  history : ∀ k : Fin 512, (s.BHT k).toNat = lastSix (outcomes k bs)
  counter : ∀ (r : Fin 8) (h : Fin 64), (s.PHT r h).toNat = (trained r h [] bs).foldl saturate 1

theorem Follows.init : Follows [] initPredictor where
  history _ := lastSix_nil.symm
  counter _ _ := rfl

variable {bs : List Branch} {s : State}

theorem Follows.history_lt (h : Follows bs s) (k : Fin 512) : (s.BHT k).toNat < 64 := by
  rw [h.history]
  exact lastSix_lt _

theorem Follows.counter_le (h : Follows bs s) (r : Fin 8) (c : Fin 64) : (s.PHT r c).toNat ≤ 3 := by
  rw [h.counter]
  exact foldl_saturate_le _ (by decide)

/-- **An update** keeps the correspondence. -/
theorem Follows.step (h : Follows bs s) (b : Branch) :
    ∃ s', updatePredictor b.PC b.resolveDir s = .ok s' ∧ Follows (bs ++ [b]) s' := by
  obtain ⟨s', hs', hhistory, hcounter⟩ := updatePredictor_spec b.resolveDir
    (h.history_lt ⟨historyOf b.PC, historyOf_lt b.PC⟩) (h.counter_le _ _)
  refine ⟨s', hs', ?_, ?_⟩
  · intro k
    rw [hhistory, outcomes_concat, h.history]
    by_cases hk : k.val = historyOf b.PC
    · rw [if_pos hk, if_pos hk.symm, lastSix_concat]
    · rw [if_neg hk, if_neg (Ne.symm hk)]
  · intro r c
    rw [hcounter, trained_concat, List.foldl_append, List.nil_append, h.counter, h.history]
    by_cases hc : r.val = rowOf b.PC ∧ c.val = lastSix (outcomes (historyOf b.PC) bs)
    · rw [if_pos hc, if_pos ⟨hc.1.symm, hc.2.symm⟩]
      rfl
    · rw [if_neg hc, if_neg fun e => hc ⟨e.1.symm, e.2.symm⟩]
      rfl

/-- **The two-level predictor** equals its specification.  After any trace of branches the tables
are what the trace says, all indices are in bounds, and a branch is predicted to be taken exactly
when its counter is at least 2. -/
theorem run_follows (bs : List Branch) : ∃ s, run bs = .ok s ∧
    (∀ k : Fin 512, (s.BHT k).toNat < 64 ∧ (s.BHT k).toNat = lastSix (outcomes k bs)) ∧
    (∀ (r : Fin 8) (h : Fin 64),
      (s.PHT r h).toNat = (trained r h [] bs).foldl saturate 1) ∧
    ∀ PC : UINT32, ∃ (k : Fin 512) (r : Fin 8) (h : Fin 64), k.val = ((PC >>> 3) &&& 511#32).toNat ∧
      r.val = (PC &&& 7#32).toNat ∧ h.val = (s.BHT k).toNat ∧
      getPrediction PC s = .ok (decide (2 ≤ (s.PHT r h).toNat)) := by
  have hrun : ∃ s, run bs = .ok s ∧ Follows bs s := by
    induction bs using List.reverseRecOn with
    | nil => exact ⟨initPredictor, rfl, Follows.init⟩
    | append_singleton bs b ih =>
        obtain ⟨s, hs, hfollows⟩ := ih
        obtain ⟨s', hs', hfollows'⟩ := hfollows.step b
        refine ⟨s', ?_, hfollows'⟩
        unfold run at hs ⊢
        rw [List.foldlM_append, hs]
        change List.foldlM (fun s b => updatePredictor b.PC b.resolveDir s) s [b] = _
        rw [List.foldlM_cons, hs']
        rfl
  obtain ⟨s, hs, h⟩ := hrun
  refine ⟨s, hs, fun k => ⟨h.history_lt k, h.history k⟩, h.counter, fun PC => ?_⟩
  have hh := h.history_lt ⟨historyOf PC, historyOf_lt PC⟩
  refine ⟨⟨historyOf PC, historyOf_lt PC⟩, ⟨rowOf PC, rowOf_lt PC⟩, ⟨_, hh⟩, rfl, rfl, rfl, ?_⟩
  rw [getPrediction, locate_eq hh, ← decode_eq (h.counter_le _ _)]
  rfl

end Traces

end TwoLevel
