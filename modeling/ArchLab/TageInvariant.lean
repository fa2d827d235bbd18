/-
**The TAGE predictor stays in range.**

All counters of the predictor are words of 32 bits, and the code relies on them having only a few:
they are compared with the largest value of so many bits, and what is left of them after a shift is
taken as a prediction.  This module shows that they do, for every sequence of branches, that no
index is out of bounds, and that the two history words hold the last outcomes.  Nothing depends on
the value of shifts that are not defined.

Main definitions:

* `Openend.TageEntry.Ok`, `Openend.Ranges` — the ranges of the counters;
* `Openend.Predicted` — what the global variables hold after a prediction;
* `Openend.outcomes` — the outcomes of the branches that share a history, the last one first;
* `Openend.InRange` — all of this.

Main results:

* `Openend.Ranges.trained`, `Openend.Ranges.allocates` — the parts of an update keep the ranges;
* `Openend.InRange.step` — a round of the main loop succeeds, and keeps everything in range;
* `Openend.run_inRange` — **the predictor stays in range**.
-/

import Mathlib.Data.List.Induction
import ArchLab.TageSpec

set_option relaxedAutoImplicit false
set_option autoImplicit false

namespace Openend

open Refine

/-! ### Counters -/

/-- Training a counter keeps its size. -/
theorem trainCnt_lt {cnt : UINT32} {size : ℕ} (hs : size < 32) (h : cnt.toNat < 2 ^ size)
    (up : Bool) :
    (trainCnt cnt size up).toNat < 2 ^ size := by
  have hmask := toNat_MASK_OF_SIZE hs
  have hpow : 2 ^ size < 2 ^ 32 := Nat.pow_lt_pow_right (by decide) hs
  unfold trainCnt INC_SAT_CNT DEC_SAT_CNT
  split
  · by_cases hc : cnt = MASK_OF_SIZE size
    · rw [if_pos hc]
      exact h
    · rw [if_neg hc, BitVec.toNat_add, BitVec.toNat_ofNat]
      have hne : cnt.toNat ≠ 2 ^ size - 1 := fun he =>
        hc (BitVec.eq_of_toNat_eq (he.trans hmask.symm))
      omega
  · by_cases hc : cnt = 0#32
    · rw [if_pos hc]
      exact h
    · rw [if_neg hc, BitVec.toNat_sub, BitVec.toNat_ofNat]
      have hne : cnt.toNat ≠ 0 := fun he => hc (BitVec.eq_of_toNat_eq he)
      omega

/-- The ranges of a tagged entry. -/
structure TageEntry.Ok (e : TageEntry) : Prop where
  cnt : e.cnt.toNat < 8
  tag : e.tag.toNat < 2 ^ 11
  useful : e.useful.toNat < 4

/-- The ranges of all counters. -/
structure Ranges (s : State) : Prop where
  base : ∀ j, (s.basePHT j).toNat < 16
  tage : ∀ l, (s.tagePHT l).Ok
  useAlt : s.useAlt.toNat < 64
  numPredictionMade : s.numPredictionMade.toNat < CYC_RST_U

section Ranges

variable {undef : ℕ → UINT32} {PC : UINT32} {dir : Bool} {s s' : State} {l : Option Loc}
  {e : TageEntry}

theorem ranges_initPredictor : Ranges (initPredictor s) := by
  refine ⟨fun _ => ?_, fun _ => ⟨?_, ?_, ?_⟩, ?_, ?_⟩
  · change (WEAK_TAKEN BASE_CNT_SIZE).toNat < 16
    decide
  · change (WEAK_TAKEN TAGE_CNT_SIZE).toNat < 8
    decide
  · change 0 < 2 ^ 11
    decide
  · change 0 < 4
    decide
  · change (WEAK_NOT_TAKEN BIAS_SIZE).toNat < 64
    decide
  · change 0 < CYC_RST_U
    decide

theorem TageEntry.Ok.trainUseful (h : e.Ok) : (s.trainUseful dir e).Ok := by
  unfold State.trainUseful
  split
  · exact ⟨h.cnt, h.tag, trainCnt_lt (by decide) h.useful _⟩
  · exact h

theorem TageEntry.Ok.train (h : e.Ok) : (e.train dir).Ok :=
  ⟨trainCnt_lt (by decide) h.cnt _, h.tag, h.useful⟩

theorem TageEntry.Ok.weakened (h : e.Ok) : e.weakened.Ok := by
  refine ⟨h.cnt, h.tag, ?_⟩
  change (e.useful &&& _).toNat < 4
  rw [BitVec.toNat_and]
  exact Nat.lt_of_le_of_lt Nat.and_le_left h.useful

theorem TageEntry.Ok.decreased (h : e.Ok) : e.decreased.Ok := by
  have hu : (trainCnt e.useful TAGE_U_SIZE false).toNat < 2 ^ 2 :=
    trainCnt_lt (by decide) h.useful false
  exact ⟨h.cnt, h.tag, hu⟩

theorem ok_update {table : Loc → TageEntry} (h : ∀ k, (table k).Ok) {k₀ : Loc} (he : e.Ok)
    (k : Loc) :
    (Function.update table k₀ e k).Ok := by
  rw [Function.update_apply]
  split
  · exact he
  · exact h k

theorem ok_modified {table : Loc → TageEntry} {f : TageEntry → TageEntry} (h : ∀ k, (table k).Ok)
    (hf : ∀ e : TageEntry, e.Ok → (f e).Ok) (k : Loc) : (modified table l f k).Ok := by
  cases l with
  | none => exact h k
  | some l => exact ok_update h (hf _ (h l)) k

theorem bias_lt (h : s.useAlt.toNat < 64) : (s.bias dir l).toNat < 64 := by
  cases l with
  | none => exact h
  | some l =>
      rw [bias_some]
      split
      · exact trainCnt_lt (by decide) h _
      · exact h

/-- **Training keeps the ranges.** -/
theorem Ranges.trained (h : Ranges s) : Ranges (s.trained PC dir l) := by
  have hmod : ∀ k, (modified s.tagePHT l (s.trainUseful dir) k).Ok :=
    ok_modified h.tage fun _ he => he.trainUseful
  have haged : ∀ k, (s.aged dir l k).Ok := by
    intro k
    unfold State.aged
    split
    · exact (hmod k).weakened
    · exact hmod k
  refine ⟨fun j => ?_, ok_modified haged fun _ he => he.train, bias_lt h.useAlt, ?_⟩
  · change (Function.update s.basePHT _ _ j).toNat < 16
    rw [Function.update_apply]
    split
    · exact trainCnt_lt (by decide) (h.base _) _
    · exact h.base j
  · -- the counter wraps exactly when it reaches its limit
    have hlt := h.numPredictionMade
    have hcyc : CYC_RST_U = 122880 := by decide
    change (if s.Rolls then 0#128 else s.numPredictionMade + 1#128).toNat < _
    by_cases hr : s.Rolls
    · rw [if_pos hr, hcyc]
      decide
    · have hadd : (s.numPredictionMade + 1#128).toNat = s.numPredictionMade.toNat + 1 := by
        rw [BitVec.toNat_add, BitVec.toNat_ofNat]
        omega
      have hne : s.numPredictionMade.toNat + 1 ≠ CYC_RST_U := by
        intro he
        refine hr (BitVec.eq_of_toNat_eq ?_)
        rw [hadd, he, BitVec.toNat_ofNat, hcyc]
      rw [if_neg hr, hadd]
      omega

/-- **Allocation keeps the ranges.** -/
theorem Ranges.allocates (h : Ranges s) (ha : Allocates undef PC dir s s') : Ranges s' := by
  cases ha with
  | right _ => exact h
  | found _ t _ _ =>
      have hweak : (WEAK_TAKEN TAGE_CNT_SIZE).toNat < 8 := by decide
      exact ⟨h.base, ok_update h.tage ⟨hweak, getTag_lt _ _ _ _, (h.tage _).useful⟩, h.useAlt,
        h.numPredictionMade⟩
  | full _ =>
      refine ⟨h.base, fun k => ?_, h.useAlt, h.numPredictionMade⟩
      change (if _ then _ else _ : TageEntry).Ok
      split
      · exact (h.tage k).decreased
      · exact h.tage k

theorem Ranges.pushed (h : Ranges s) : Ranges (s.pushed PC dir) :=
  ⟨h.base, h.tage, h.useAlt, h.numPredictionMade⟩

end Ranges

/-! ### Predictions -/

/-- A table, or the base table, and an index in it. -/
structure InTable (num : ℤ) (idx : UINT32) : Prop where
  lo : -1 ≤ num
  hi : num ≤ 6
  idx_lt : idx.toNat < 1024
  base_lt : num = -1 → idx.toNat < 512

theorem inTable_base (PC : UINT32) : InTable (-1) (PC &&& BASE_IDX_MASK) := by
  have hlt : (PC &&& BASE_IDX_MASK).toNat < 512 := (baseIdx PC).isLt
  exact ⟨by decide, by decide, by omega, fun _ => hlt⟩

theorem inTable_getIdx (undef : ℕ → UINT32) (PC : UINT32) (history : UINT128)
    (t : Fin NUM_TAGE_PHT) :
    InTable (t : ℕ) (getIdx undef PC history t) := by
  have ht : (t : ℕ) < 7 := t.isLt
  exact ⟨by omega, by omega, getIdx_lt _ _ _ _, fun h => by omega⟩

/-- **What the global variables hold after a prediction.** -/
structure Predicted (s : State) : Prop where
  lh : InTable s.lhPHTNum s.lhPHTIdx
  alt : InTable s.altPHTNum s.altPHTIdx
  order : s.altPHTNum < s.lhPHTNum ∨ s.altPHTNum = -1 ∧ s.lhPHTNum = -1

/-- The global variables that a prediction leaves alone. -/
structure SameTables (s s' : State) : Prop where
  BHT : s'.BHT = s.BHT
  basePHT : s'.basePHT = s.basePHT
  tagePHT : s'.tagePHT = s.tagePHT
  useAlt : s'.useAlt = s.useAlt
  numPredictionMade : s'.numPredictionMade = s.numPredictionMade

section Prediction

variable {undef : ℕ → UINT32} {PC : UINT32} {dir : Bool} {s s' : State}

theorem sameTables_found : SameTables s (s.found undef PC) := by
  unfold State.found
  rcases s.hits undef PC NUM_TAGE_PHT with _ | ⟨a, _ | ⟨b, _⟩⟩ <;> exact ⟨rfl, rfl, rfl, rfl, rfl⟩

theorem Ranges.found (h : Ranges s) : Ranges (s.found undef PC) := by
  have hs : SameTables s (s.found undef PC) := sameTables_found
  exact ⟨hs.basePHT ▸ h.base, hs.tagePHT ▸ h.tage, hs.useAlt ▸ h.useAlt,
    hs.numPredictionMade ▸ h.numPredictionMade⟩

theorem predicted_found : Predicted (s.found undef PC) := by
  have hsorted : (s.hits undef PC NUM_TAGE_PHT).Pairwise (· > ·) := pairwise_hits (Nat.le_refl _)
  unfold State.found
  generalize s.hits undef PC NUM_TAGE_PHT = hits at hsorted ⊢
  rcases hits with _ | ⟨a, _ | ⟨b, rest⟩⟩
  · exact ⟨inTable_base PC, inTable_base PC, .inr ⟨rfl, rfl⟩⟩
  · refine ⟨inTable_getIdx undef PC _ a, inTable_base PC, .inl ?_⟩
    change -1 < ((a : ℕ) : ℤ)
    omega
  · have hba : (b : ℕ) < a := (List.pairwise_cons.1 hsorted).1 b List.mem_cons_self
    refine ⟨inTable_getIdx undef PC _ a, inTable_getIdx undef PC _ b, .inl ?_⟩
    change ((b : ℕ) : ℤ) < ((a : ℕ) : ℤ)
    omega

/-- The update that follows a prediction succeeds. -/
theorem updatePredictor_found (undef : ℕ → UINT32) (PC : UINT32) (dir : Bool) (s : State) :
    ∃ s', updatePredictor undef PC dir (s.found undef PC) = .ok (s'.pushed PC dir) ∧
      Allocates undef PC dir ((s.found undef PC).trained PC dir (s.provider undef PC)) s' := by
  have hpred : Predicted (s.found undef PC) := predicted_found
  have hprov : Provided (s.found undef PC) (s.provider undef PC) := provided_found
  have hhi : (s.found undef PC).lhPHTNum < NUM_TAGE_PHT :=
    Int.lt_of_le_of_lt hpred.lh.hi (by decide)
  exact updatePredictor_eq hprov hpred.lh.lo hhi

/-- An update does not change what the prediction has left behind. -/
theorem Predicted.updated (h : Predicted s) {l : Option Loc}
    (ha : Allocates undef PC dir (s.trained PC dir l) s') : Predicted (s'.pushed PC dir) := by
  cases ha <;> exact ⟨h.lh, h.alt, h.order⟩

end Prediction

/-! ### Histories -/

/-- The outcomes of the branches with a given bit 1 of their addresses, the last one first. -/
def outcomes (b : Fin BHT_SIZE) (bs : List Branch) : List Bool :=
  ((bs.filter fun x => x.PC.getLsbD 1 == decide ((b : ℕ) = 1)).map Branch.branchTaken).reverse

/-- A history word has the last 128 outcomes as its bits. -/
def Recorded (bs : List Branch) (s : State) : Prop :=
  ∀ b k, k < 128 → (s.BHT b).getLsbD k = (outcomes b bs).getD k false

/-- An outcome is pushed into a history word. -/
theorem getLsbD_push (h : UINT128) (dir : Bool) {k : ℕ} (hk : k < 128) :
    ((h <<< 1) ||| (if dir then 1#128 else 0#128)).getLsbD k =
      if k = 0 then dir else h.getLsbD (k - 1) := by
  rw [BitVec.getLsbD_or, BitVec.getLsbD_shiftLeft]
  cases k with
  | zero => cases dir <;> rfl
  | succ k => cases dir <;> simp [hk]

/-- A branch uses the history for bit 1 of its address. -/
theorem bhtIdx_eq_iff (PC : UINT32) (b : Fin BHT_SIZE) :
    bhtIdx PC = b ↔ (PC.getLsbD 1 == decide ((b : ℕ) = 1)) = true := by
  have hbit : (bhtIdx PC : ℕ) = (PC.getLsbD 1).toNat := by
    change ((PC >>> 1) &&& 1#32).toNat = (PC.toNat.testBit 1).toNat
    rw [BitVec.toNat_and, BitVec.toNat_ushiftRight, Nat.toNat_testBit, Nat.shiftRight_eq_div_pow]
    exact Nat.and_one_is_mod _
  have hb : (b : ℕ) < 2 := b.isLt
  rw [Fin.ext_iff, hbit, beq_iff_eq]
  cases PC.getLsbD 1 <;> simp <;> omega

theorem Recorded.start (s : State) : Recorded [] (initPredictor s) := fun _ _ _ => by
  change (0#128).getLsbD _ = _
  simp [outcomes]

theorem outcomes_snoc (b : Fin BHT_SIZE) (bs : List Branch) (x : Branch) : outcomes b (bs ++ [x]) =
    if bhtIdx x.PC = b then x.branchTaken :: outcomes b bs else outcomes b bs := by
  unfold outcomes
  rw [List.filter_append, List.map_append, List.reverse_append, List.filter_cons]
  by_cases hb : bhtIdx x.PC = b
  · rw [if_pos hb, if_pos ((bhtIdx_eq_iff _ _).1 hb)]
    rfl
  · rw [if_neg hb, if_neg fun hc => hb ((bhtIdx_eq_iff _ _).2 hc)]
    rfl

theorem Recorded.push {bs : List Branch} {s s' : State} (h : Recorded bs s) (x : Branch)
    (hs : s'.BHT = s.BHT) : Recorded (bs ++ [x]) (s'.pushed x.PC x.branchTaken) := by
  intro b k hk
  change (Function.update s'.BHT _ _ b).getLsbD k = _
  rw [hs, Function.update_apply, outcomes_snoc]
  by_cases hb : b = bhtIdx x.PC
  · rw [if_pos hb, if_pos hb.symm, getLsbD_push _ _ hk, ← hb]
    cases k with
    | zero => rfl
    | succ k => exact h b k (by omega)
  · rw [if_neg hb, if_neg fun hc => hb hc.symm]
    exact h b k hk

/-! ### Runs -/

/-- **Everything is in range** after some branches. -/
structure InRange (bs : List Branch) (s : State) : Prop where
  ranges : Ranges s
  predicted : bs ≠ [] → Predicted s
  recorded : Recorded bs s

/-- **A round of the main loop** succeeds, and keeps everything in range. -/
theorem InRange.step {bs : List Branch} {s : State} (h : InRange bs s) (numMispred : ℕ)
    (x : Branch) :
    ∃ s' numMispred', Openend.step (s, numMispred) x = .ok (s', numMispred') ∧
      InRange (bs ++ [x]) s' := by
  have hsame : SameTables s (s.found x.undef x.PC) := sameTables_found
  have hpred : Predicted (s.found x.undef x.PC) := predicted_found
  obtain ⟨s', he, ha⟩ := updatePredictor_found x.undef x.PC x.branchTaken s
  have hBHT : s'.BHT = s.BHT := by
    rw [← hsame.BHT]
    cases ha <;> rfl
  exact ⟨_, _, bind_ok.2 ⟨_, getPrediction_eq, bind_ok.2 ⟨_, he, rfl⟩⟩,
    (h.ranges.found.trained.allocates ha).pushed, fun _ => hpred.updated ha, h.recorded.push x hBHT⟩

/-- **The predictor stays in range**, for every sequence of branches and whatever the undefined
shifts give: no index is out of bounds, all counters have their sizes, and the history words hold
the last outcomes. -/
theorem run_inRange (s₀ : State) (bs : List Branch) :
    ∃ s numMispred, run s₀ bs = .ok (s, numMispred) ∧ InRange bs s := by
  induction bs using List.reverseRecOn with
  | nil => exact ⟨_, _, rfl, ranges_initPredictor, fun h => absurd rfl h, Recorded.start s₀⟩
  | append_singleton bs x ih =>
      obtain ⟨s, m, hr, h⟩ := ih
      obtain ⟨s', m', hstep, h'⟩ := h.step m x
      refine ⟨s', m', ?_, h'⟩
      unfold run at hr ⊢
      rw [List.foldlM_append, hr]
      change ([x].foldlM Openend.step (s, m)) = _
      rw [List.foldlM_cons, hstep]
      rfl

end Openend
