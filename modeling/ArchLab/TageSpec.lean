/-
**What a prediction and an update of the TAGE predictor do.**

The functions of `ArchLab/Tage.lean` check every index.  This module shows that all indices are in
bounds, and says without them what a prediction leaves in the global variables, and what the parts
of an update do.

Main definitions:

* `Openend.State.slot`, `Openend.State.tagOf` — the place and the tag of a branch in a table;
* `Openend.State.hits` — the tables with a matching tag, the one with the longest history first;
* `Openend.State.found` — the global variables after a prediction;
* `Openend.Provided` — the entry that an update trains;
* `Openend.State.trained` — the global variables after the first part of an update.

Main results:

* `Openend.getPrediction_eq` — **what a prediction leaves behind**;
* `Openend.allocateFrom_spec`, `Openend.decreaseFrom_eq` — the two loops over the tables with longer
  histories;
* `Openend.updatePredictor_eq` — **what an update does**.
-/

import Mathlib.Algebra.Group.Nat.Defs
import ArchLab.Refine
import ArchLab.Tage

set_option relaxedAutoImplicit false
set_option autoImplicit false

namespace Openend

open Refine

/-! ### Indices -/

theorem index_of_lt {n k : ℕ} (h : k < n) : index n k = .ok ⟨k, h⟩ := by
  unfold index
  rw [dif_pos (by omega)]
  rfl

theorem toNat_MASK_OF_SIZE {size : ℕ} (h : size < 32) :
    (MASK_OF_SIZE size).toNat = 2 ^ size - 1 := by
  have hpow : 2 ^ size < 2 ^ 32 := Nat.pow_lt_pow_right (by decide) h
  have hpos := Nat.two_pow_pos size
  unfold MASK_OF_SIZE
  rw [BitVec.toNat_sub, BitVec.toNat_shiftLeft, BitVec.toNat_ofNat, Nat.one_mod, Nat.one_shiftLeft,
    Nat.mod_eq_of_lt hpow]
  omega

/-- A mask bounds a word. -/
theorem and_mask_lt (x : UINT32) {size : ℕ} (h : size < 32) :
    (x &&& MASK_OF_SIZE size).toNat < 2 ^ size := by
  have hle : (x &&& MASK_OF_SIZE size).toNat ≤ 2 ^ size - 1 := by
    rw [BitVec.toNat_and, toNat_MASK_OF_SIZE h]
    exact Nat.and_le_right
  have hpos := Nat.two_pow_pos size
  omega

/-- The index of the history of a branch. -/
def bhtIdx (PC : UINT32) : Fin BHT_SIZE :=
  ⟨((PC >>> BHT_IDX_OFFSET) &&& BHT_IDX_MASK).toNat, and_mask_lt _ (by decide)⟩

/-- The index of a branch in the base table. -/
def baseIdx (PC : UINT32) : Fin BASE_PHT_SIZE :=
  ⟨(PC &&& BASE_IDX_MASK).toNat, and_mask_lt _ (by decide)⟩

theorem index_bhtIdx (PC : UINT32) :
    index BHT_SIZE ((PC >>> BHT_IDX_OFFSET) &&& BHT_IDX_MASK).toNat = .ok (bhtIdx PC) :=
  index_of_lt (bhtIdx PC).isLt

theorem index_baseIdx (PC : UINT32) :
    index BASE_PHT_SIZE (PC &&& BASE_IDX_MASK).toNat = .ok (baseIdx PC) :=
  index_of_lt (baseIdx PC).isLt

theorem getIdx_lt (undef : ℕ → UINT32) (PC : UINT32) (history : UINT128) (n : ℕ) :
    (getIdx undef PC history n).toNat < TAGE_PHT_SIZE := and_mask_lt _ (by decide)

theorem getTag_lt (undef : ℕ → UINT32) (PC : UINT32) (history : UINT128) (n : ℕ) :
    (getTag undef PC history n).toNat < 2 ^ TAGE_TAG_SIZE := and_mask_lt _ (by decide)

section Branch

variable (undef : ℕ → UINT32) (PC : UINT32) (s : State)

/-- The place of a branch in a table. -/
def State.slot (t : Fin NUM_TAGE_PHT) : Loc :=
  (t, ⟨(getIdx undef PC (s.BHT (bhtIdx PC)) t).toNat, getIdx_lt _ _ _ _⟩)

/-- The tag of a branch in a table. -/
def State.tagOf (t : Fin NUM_TAGE_PHT) : UINT32 := getTag undef PC (s.BHT (bhtIdx PC)) t

theorem history_eq : s.history PC = .ok (s.BHT (bhtIdx PC)) := by
  unfold State.history
  rw [index_bhtIdx]
  rfl

theorem baseCnt_eq : s.baseCnt PC = .ok (s.basePHT (baseIdx PC)) := by
  unfold State.baseCnt
  rw [index_baseIdx]
  rfl

theorem locate_slot (t : Fin NUM_TAGE_PHT) :
    locate (t : ℕ) (getIdx undef PC (s.BHT (bhtIdx PC)) t) = .ok (s.slot undef PC t) := by
  unfold locate
  rw [index_of_lt t.isLt, index_of_lt (getIdx_lt _ _ _ _)]
  rfl

/-! ### Prediction -/

/-- A table has an entry with the tag of the branch. -/
def State.Hit (t : Fin NUM_TAGE_PHT) : Prop :=
  (s.tagePHT (s.slot undef PC t)).tag = s.tagOf undef PC t

instance (t : Fin NUM_TAGE_PHT) : Decidable (s.Hit undef PC t) :=
  inferInstanceAs (Decidable (_ = _))

/-- The tables with a matching tag among the first `n`, the one with the longest history first. -/
def State.hits : ℕ → List (Fin NUM_TAGE_PHT)
  | 0 => []
  | n + 1 =>
      if h : n < NUM_TAGE_PHT then
        if s.Hit undef PC ⟨n, h⟩ then ⟨n, h⟩ :: State.hits n else State.hits n
      else State.hits n

/-- A table with a matching tag becomes the first choice. -/
def State.setLh (t : Fin NUM_TAGE_PHT) : State :=
  { s with
    lhPred := MAPPING_RESULT (s.tagePHT (s.slot undef PC t)).cnt TAGE_CNT_SIZE
    lhPHTNum := t
    lhPHTIdx := getIdx undef PC (s.BHT (bhtIdx PC)) t }

/-- A table with a matching tag becomes the second choice. -/
def State.setAlt (t : Fin NUM_TAGE_PHT) : State :=
  { s with
    altPred := MAPPING_RESULT (s.tagePHT (s.slot undef PC t)).cnt TAGE_CNT_SIZE
    altPHTNum := t
    altPHTIdx := getIdx undef PC (s.BHT (bhtIdx PC)) t }

/-- The base table becomes the first choice. -/
def State.baseLh : State :=
  { s with
    lhPred := MAPPING_RESULT (s.basePHT (baseIdx PC)) BASE_CNT_SIZE
    lhPHTNum := -1
    lhPHTIdx := PC &&& BASE_IDX_MASK }

/-- The base table becomes the second choice. -/
def State.baseAlt : State :=
  { s with
    altPred := MAPPING_RESULT (s.basePHT (baseIdx PC)) BASE_CNT_SIZE
    altPHTNum := -1
    altPHTIdx := PC &&& BASE_IDX_MASK }

variable {undef PC s}

theorem hits_succ (t : Fin NUM_TAGE_PHT) :
    s.hits undef PC (t + 1) =
      if s.Hit undef PC t then t :: s.hits undef PC t else s.hits undef PC t := dif_pos t.isLt

/-- The tables with a matching tag, in a state that differs in the choices only. -/
theorem hits_setLh (a : Fin NUM_TAGE_PHT) (n : ℕ) :
    (s.setLh undef PC a).hits undef PC n = s.hits undef PC n := by
  induction n with
  | zero => rfl
  | succ n ih =>
      unfold State.hits
      rw [ih]
      rfl

theorem mem_hits {t : Fin NUM_TAGE_PHT} {n : ℕ} (hn : n ≤ NUM_TAGE_PHT) :
    t ∈ s.hits undef PC n ↔ t < n ∧ s.Hit undef PC t := by
  induction n with
  | zero =>
      unfold State.hits
      simp
  | succ n ih =>
      have ih := ih (Nat.le_of_succ_le hn)
      rw [hits_succ ⟨n, hn⟩]
      by_cases ht : (t : ℕ) = n
      · obtain rfl : t = ⟨n, hn⟩ := Fin.ext ht
        split
        · next h => simp [h]
        · next h => simp [h, ih]
      · have hlt : (t : ℕ) < n + 1 ↔ (t : ℕ) < n := by omega
        have hne : t ≠ ⟨n, hn⟩ := fun h => ht (congrArg Fin.val h)
        rw [hlt, ← ih]
        split
        · simp [hne]
        · rfl

/-- Longer histories come first. -/
theorem pairwise_hits {n : ℕ} (hn : n ≤ NUM_TAGE_PHT) : (s.hits undef PC n).Pairwise (· > ·) := by
  induction n with
  | zero => exact List.Pairwise.nil
  | succ n ih =>
      have hle := Nat.le_of_succ_le hn
      rw [hits_succ ⟨n, hn⟩]
      split
      · exact List.pairwise_cons.2 ⟨fun t ht => ((mem_hits hle).1 ht).1, ih hle⟩
      · exact ih hle

/-- A round of the search. -/
theorem search_succ (t : Fin NUM_TAGE_PHT) (made : Bool) :
    search undef PC (t + 1) made s =
      if s.Hit undef PC t then
        if made then .ok (s.setAlt undef PC t, true, true)
        else search undef PC t true (s.setLh undef PC t)
      else search undef PC t made s := by
  have hentry : s.entry (t : ℕ) (getIdx undef PC (s.BHT (bhtIdx PC)) t) =
      .ok (s.tagePHT (s.slot undef PC t)) := by
    unfold State.entry
    rw [locate_slot]
    rfl
  rw [search, history_eq]
  change (s.entry (t : ℕ) (getIdx undef PC (s.BHT (bhtIdx PC)) t) >>= _) = _
  rw [hentry]
  change (if s.Hit undef PC t then _ else _) = _
  cases made <;> rfl

/-- The search after the first match: it stops at the next one. -/
theorem search_true {n : ℕ} (hn : n ≤ NUM_TAGE_PHT) : search undef PC n true s =
    .ok (match s.hits undef PC n with
      | [] => (s, true, false)
      | b :: _ => (s.setAlt undef PC b, true, true)) := by
  induction n with
  | zero => rfl
  | succ n ih =>
      rw [search_succ ⟨n, hn⟩, hits_succ ⟨n, hn⟩]
      split
      · rfl
      · exact ih (Nat.le_of_succ_le hn)

/-- **The search** finds the first two tables with a matching tag. -/
theorem search_false {n : ℕ} (hn : n ≤ NUM_TAGE_PHT) : search undef PC n false s =
    .ok (match s.hits undef PC n with
      | [] => (s, false, false)
      | [a] => (s.setLh undef PC a, true, false)
      | a :: b :: _ => ((s.setLh undef PC a).setAlt undef PC b, true, true)) := by
  induction n with
  | zero => rfl
  | succ n ih =>
      have hle := Nat.le_of_succ_le hn
      rw [search_succ ⟨n, hn⟩, hits_succ ⟨n, hn⟩]
      split
      · change search undef PC n true _ = _
        rw [search_true hle, hits_setLh]
        cases s.hits undef PC n <;> rfl
      · exact ih hle

variable (undef PC s)

/-- **The global variables after a prediction.** -/
def State.found : State :=
  match s.hits undef PC NUM_TAGE_PHT with
  | [] => (s.baseLh PC).baseAlt PC
  | [a] => (s.setLh undef PC a).baseAlt PC
  | a :: b :: _ => (s.setLh undef PC a).setAlt undef PC b

/-- The entry with a matching tag and the longest history, if any. -/
def State.provider : Option Loc := (s.hits undef PC NUM_TAGE_PHT).head?.map (s.slot undef PC)

variable {undef PC s}

/-- The global variables refer to an entry, or to none. -/
def Provided (s : State) : Option Loc → Prop
  | none => s.lhPHTNum = -1
  | some l => s.lhPHTNum ≠ -1 ∧ locate s.lhPHTNum s.lhPHTIdx = .ok l

theorem provided_found : Provided (s.found undef PC) (s.provider undef PC) := by
  have hsome : ∀ (a : Fin NUM_TAGE_PHT) (s' : State), s'.lhPHTNum = (a : ℕ) →
      s'.lhPHTIdx = getIdx undef PC (s.BHT (bhtIdx PC)) a →
        Provided s' (some (s.slot undef PC a)) := by
    intro a s' hnum hidx
    refine ⟨by omega, ?_⟩
    rw [hnum, hidx, locate_slot]
  unfold State.found State.provider
  rcases s.hits undef PC NUM_TAGE_PHT with _ | ⟨a, _ | ⟨b, _⟩⟩
  · rfl
  · exact hsome a _ rfl rfl
  · exact hsome a _ rfl rfl

/-- The direction that is predicted. -/
def State.choice (s : State) : Option Loc → Bool
  | none => s.lhPred
  | some l =>
      if MAPPING_RESULT s.useAlt BIAS_SIZE then if (s.tagePHT l).unsure then s.altPred else s.lhPred
      else s.lhPred

theorem choose_eq {l : Loc} (h : Provided s (some l)) : choose s = .ok (s.choice (some l)) := by
  unfold choose State.entry State.choice
  rw [h.2]
  split <;> rfl

theorem alternative_false : alternative PC false s = .ok (s.baseAlt PC) := by
  unfold alternative
  rw [baseCnt_eq]
  rfl

/-- **What a prediction leaves behind.** -/
theorem getPrediction_eq : getPrediction undef PC s =
    .ok ((s.found undef PC).choice (s.provider undef PC), s.found undef PC) := by
  have hsearch : search undef PC NUM_TAGE_PHT false s = .ok _ :=
    search_false (Nat.le_refl NUM_TAGE_PHT)
  have hprov : Provided (s.found undef PC) (s.provider undef PC) := provided_found
  unfold getPrediction
  unfold State.found State.provider at *
  generalize s.hits undef PC NUM_TAGE_PHT = hits at hsearch hprov ⊢
  rcases hits with _ | ⟨a, _ | ⟨b, _⟩⟩
  · exact bind_ok.2 ⟨_, hsearch, bind_ok.2 ⟨_, baseCnt_eq PC s, rfl⟩⟩
  · exact bind_ok.2 ⟨_, hsearch, bind_ok.2 ⟨_, alternative_false,
      bind_ok.2 ⟨_, choose_eq hprov, rfl⟩⟩⟩
  · exact bind_ok.2 ⟨_, hsearch, bind_ok.2 ⟨_, rfl, bind_ok.2 ⟨_, choose_eq hprov, rfl⟩⟩⟩

end Branch

/-! ### Training -/

section Training

variable {PC : UINT32} {dir : Bool} {s s' : State} {l : Option Loc}

theorem Provided.congr (h : Provided s l) (hnum : s'.lhPHTNum = s.lhPHTNum)
    (hidx : s'.lhPHTIdx = s.lhPHTIdx) : Provided s' l := by
  cases l with
  | none => exact hnum.trans h
  | some l => exact ⟨hnum ▸ h.1, hnum ▸ hidx ▸ h.2⟩

/-- An entry, if there is one, is replaced. -/
def modified (table : Loc → TageEntry) (l : Option Loc) (f : TageEntry → TageEntry) :
    Loc → TageEntry :=
  match l with
  | none => table
  | some l => Function.update table l (f (table l))

theorem modifyLh_eq {l : Loc} (h : Provided s (some l)) (f : TageEntry → TageEntry) :
    s.modifyLh f = .ok { s with tagePHT := modified s.tagePHT (some l) f } := by
  unfold State.modifyLh
  rw [h.2]
  rfl

theorem updateBase_eq : updateBase PC dir s = .ok { s with
    basePHT := Function.update s.basePHT (baseIdx PC)
      (trainCnt (s.basePHT (baseIdx PC)) BASE_CNT_SIZE (decide (dir = TAKEN))) } := by
  unfold updateBase
  rw [index_baseIdx]
  rfl

/-- The bias counter after an update. -/
def State.bias (s : State) (dir : Bool) : Option Loc → UINT32
  | none => s.useAlt
  | some l =>
      if s.lhPred ≠ s.altPred ∧ (s.tagePHT l).unsure then
        trainCnt s.useAlt BIAS_SIZE (decide (s.altPred = dir))
      else s.useAlt

theorem bias_some (l : Loc) : s.bias dir (some l) =
    if s.lhPred ≠ s.altPred ∧ (s.tagePHT l).unsure then
      trainCnt s.useAlt BIAS_SIZE (decide (s.altPred = dir))
    else s.useAlt := rfl

theorem updateBias_eq (h : Provided s l) :
    updateBias dir s = .ok { s with useAlt := s.bias dir l } := by
  unfold updateBias
  cases l with
  | none =>
      rw [if_neg fun hc => hc.1 h]
      rfl
  | some l =>
      unfold State.entry
      rw [h.2, bias_some]
      by_cases hp : s.lhPred ≠ s.altPred
      · rw [if_pos ⟨h.1, hp⟩]
        change Except.ok (if _ then _ else _) = _
        by_cases hu : (s.tagePHT l).unsure = true
        · rw [if_pos hu, if_pos ⟨hp, hu⟩]
        · rw [if_neg hu, if_neg fun hc => hu hc.2]
      · rw [if_neg fun hc => hp hc.2, if_neg fun hc => hp hc.1]
        rfl

/-- The usefulness of the entry that has made a prediction after an update. -/
def State.trainUseful (s : State) (dir : Bool) (e : TageEntry) : TageEntry :=
  if s.lhPred ≠ s.altPred then
    { e with useful := trainCnt e.useful TAGE_U_SIZE (decide (s.lhPred = dir)) }
  else e

theorem updateUseful_eq (h : Provided s l) :
    updateUseful dir s = .ok { s with tagePHT := modified s.tagePHT l (s.trainUseful dir) } := by
  unfold updateUseful
  cases l with
  | none =>
      rw [if_neg fun hc => hc.1 h]
      rfl
  | some l =>
      unfold State.trainUseful
      by_cases hp : s.lhPred ≠ s.altPred
      · rw [if_pos ⟨h.1, hp⟩, modifyLh_eq h]
        simp only [if_pos hp]
      · rw [if_neg fun hc => hp hc.2]
        simp only [if_neg hp, modified, Function.update_eq_self]
        rfl

/-- An entry after all entries were made less useful. -/
def TageEntry.weakened (e : TageEntry) : TageEntry :=
  { e with useful := e.useful &&& (MASK_OF_SIZE TAGE_U_SIZE - 1#32) }

/-- The counter of the entry that has made a prediction after an update. -/
def TageEntry.train (dir : Bool) (e : TageEntry) : TageEntry :=
  { e with cnt := trainCnt e.cnt TAGE_CNT_SIZE (decide (dir = TAKEN)) }

theorem updateCnt_eq (h : Provided s l) :
    updateCnt dir s = .ok { s with tagePHT := modified s.tagePHT l (TageEntry.train dir) } := by
  unfold updateCnt
  cases l with
  | none =>
      rw [if_neg fun hc => hc h]
      rfl
  | some l =>
      rw [if_pos h.1, modifyLh_eq h]
      rfl

/-- The update reaches the number of predictions at which all entries are made less useful. -/
def State.Rolls (s : State) : Prop := s.numPredictionMade + 1#128 = BitVec.ofNat 128 CYC_RST_U

instance : Decidable s.Rolls := inferInstanceAs (Decidable (_ = _))

/-- The tagged entries after the usefulness has been updated. -/
def State.aged (s : State) (dir : Bool) (l : Option Loc) : Loc → TageEntry :=
  if s.Rolls then fun k => (modified s.tagePHT l (s.trainUseful dir) k).weakened
  else modified s.tagePHT l (s.trainUseful dir)

/-- **The global variables after the first part of an update**: all counters are trained. -/
def State.trained (s : State) (PC : UINT32) (dir : Bool) (l : Option Loc) : State :=
  { s with
    basePHT := Function.update s.basePHT (baseIdx PC)
      (trainCnt (s.basePHT (baseIdx PC)) BASE_CNT_SIZE (decide (dir = TAKEN)))
    tagePHT := modified (s.aged dir l) l (TageEntry.train dir)
    useAlt := s.bias dir l
    numPredictionMade := if s.Rolls then 0#128 else s.numPredictionMade + 1#128 }

/-- Making all entries less useful, after the number of predictions was increased. -/
theorem weaken_eq (hnum : s'.numPredictionMade = s.numPredictionMade + 1#128) :
    weaken s' = { s' with
    tagePHT := if s.Rolls then fun k => (s'.tagePHT k).weakened else s'.tagePHT
    numPredictionMade := if s.Rolls then 0#128 else s.numPredictionMade + 1#128 } := by
  unfold weaken
  rw [hnum]
  change (if s.Rolls then _ else _) = _
  by_cases hr : s.Rolls
  · rw [if_pos hr, if_pos hr, if_pos hr]
    rfl
  · rw [if_neg hr, if_neg hr, if_neg hr, ← hnum]

end Training

/-! ### Allocation -/

section Allocation

variable (undef : ℕ → UINT32) (PC : UINT32) (s : State)

/-- A new entry for the branch in a table. -/
def State.retagged (t : Fin NUM_TAGE_PHT) : State :=
  s.setEntry (s.slot undef PC t) { s.tagePHT (s.slot undef PC t) with
    cnt := WEAK_TAKEN TAGE_CNT_SIZE
    tag := s.tagOf undef PC t }

def TageEntry.decreased (e : TageEntry) : TageEntry :=
  { e with useful := DEC_SAT_CNT e.useful TAGE_U_SIZE }

/-- The entries for the branch in the tables from `i` on become less useful. -/
def State.decreased (i : ℕ) : State :=
  { s with
    tagePHT := fun l =>
      if i ≤ l.1 ∧ l = s.slot undef PC l.1 then (s.tagePHT l).decreased else s.tagePHT l }

/-- **The search for a free entry** in the tables from `i` on. -/
theorem allocateFrom_spec {n i : ℕ} (hn : n = NUM_TAGE_PHT - i) :
    (allocateFrom undef PC n i s = .ok (false, s) ∧
      ∀ t : Fin NUM_TAGE_PHT, i ≤ t → (s.tagePHT (s.slot undef PC t)).useful ≠ 0#32) ∨
    ∃ t : Fin NUM_TAGE_PHT, i ≤ t ∧ (s.tagePHT (s.slot undef PC t)).useful = 0#32 ∧
      allocateFrom undef PC n i s = .ok (true, s.retagged undef PC t) := by
  induction n generalizing i with
  | zero => exact .inl ⟨rfl, fun t ht => by omega⟩
  | succ n ih =>
      have hi : i < NUM_TAGE_PHT := by omega
      have hstep : allocateFrom undef PC (n + 1) i s =
          if (s.tagePHT (s.slot undef PC ⟨i, hi⟩)).useful = 0#32 then
            .ok (true, s.retagged undef PC ⟨i, hi⟩)
          else allocateFrom undef PC n (i + 1 : ℕ) s := by
        rw [allocateFrom, history_eq]
        change (locate (i : ℤ) (getIdx undef PC (s.BHT (bhtIdx PC)) i) >>= _) = _
        rw [locate_slot undef PC s ⟨i, hi⟩]
        rfl
      rw [hstep]
      by_cases hu : (s.tagePHT (s.slot undef PC ⟨i, hi⟩)).useful = 0#32
      · exact .inr ⟨⟨i, hi⟩, Nat.le_refl _, hu, if_pos hu⟩
      · rw [if_neg hu]
        rcases ih (i := i + 1) (by omega) with ⟨he, hall⟩ | ⟨t, ht, h0, he⟩
        · refine .inl ⟨he, fun t ht => ?_⟩
          by_cases hti : (t : ℕ) = i
          · obtain rfl : t = ⟨i, hi⟩ := Fin.ext hti
            exact hu
          · exact hall t (by omega)
        · exact .inr ⟨t, by omega, h0, he⟩

omit s in
/-- **The entries in the tables from `i` on** become less useful. -/
theorem decreaseFrom_eq {n i : ℕ} {s : State} (hn : n = NUM_TAGE_PHT - i) :
    decreaseFrom undef PC n i s = .ok (s.decreased undef PC i) := by
  induction n generalizing i s with
  | zero =>
      have hsame : s.decreased undef PC i = s := by
        have htable : ∀ l : Loc,
            (if i ≤ l.1 ∧ l = s.slot undef PC l.1 then (s.tagePHT l).decreased else s.tagePHT l) =
              s.tagePHT l := fun l => if_neg fun h => by omega
        unfold State.decreased
        simp only [htable]
      rw [hsame]
      rfl
  | succ n ih =>
      have hi : i < NUM_TAGE_PHT := by omega
      let s₁ := s.setEntry (s.slot undef PC ⟨i, hi⟩) (s.tagePHT (s.slot undef PC ⟨i, hi⟩)).decreased
      have hstep : decreaseFrom undef PC (n + 1) i s = decreaseFrom undef PC n (i + 1 : ℕ) s₁ := by
        rw [decreaseFrom, history_eq]
        change (locate (i : ℤ) (getIdx undef PC (s.BHT (bhtIdx PC)) i) >>= _) = _
        rw [locate_slot undef PC s ⟨i, hi⟩]
        rfl
      rw [hstep, ih (by omega)]
      -- the entry in table `i` is changed now, the others later
      have htable : ∀ l : Loc,
          (if i + 1 ≤ l.1 ∧ l = s.slot undef PC l.1 then (s₁.tagePHT l).decreased
            else s₁.tagePHT l) =
            if i ≤ l.1 ∧ l = s.slot undef PC l.1 then (s.tagePHT l).decreased else s.tagePHT l := by
        intro l
        by_cases hl : (l.1 : ℕ) = i
        · have hfst : l.1 = ⟨i, hi⟩ := Fin.ext hl
          rw [if_neg fun h => by omega, hfst]
          by_cases hslot : l = s.slot undef PC ⟨i, hi⟩
          · rw [if_pos ⟨Nat.le_refl _, hslot⟩, hslot]
            exact Function.update_self _ _ _
          · rw [if_neg fun h => hslot h.2]
            exact Function.update_of_ne hslot _ _
        · have hne : l ≠ s.slot undef PC ⟨i, hi⟩ :=
            fun h => hl (congrArg (fun l : Loc => (l.1 : ℕ)) h)
          have hold : s₁.tagePHT l = s.tagePHT l := Function.update_of_ne hne _ _
          rw [hold]
          by_cases hlt : i + 1 ≤ l.1
          · simp only [hlt, true_and, show i ≤ l.1 by omega]
          · rw [if_neg fun h => hlt h.1, if_neg fun h => by omega]
      congr 1
      unfold State.decreased
      change State.mk _ _ (fun l => if i + 1 ≤ l.1 ∧ l = s.slot undef PC l.1 then
        (s₁.tagePHT l).decreased else s₁.tagePHT l) _ _ _ _ _ _ _ _ = _
      simp only [htable]
      rfl

/-- What may happen to the tables with a longer history than the one that has made the
prediction. -/
inductive Allocates (undef : ℕ → UINT32) (PC : UINT32) (dir : Bool) (s : State) : State → Prop
  | right (h : s.lhPred = dir) : Allocates undef PC dir s s
  | found (h : s.lhPred ≠ dir) (t : Fin NUM_TAGE_PHT) (ht : s.lhPHTNum < t)
      (hu : (s.tagePHT (s.slot undef PC t)).useful = 0#32) :
      Allocates undef PC dir s (s.retagged undef PC t)
  | full (h : s.lhPred ≠ dir) :
      Allocates undef PC dir s (s.decreased undef PC (s.lhPHTNum + 1).toNat)

variable {s} (dir : Bool)

omit undef PC dir in
theorem allocationStart_eq {k : ℕ} (hk : s.lhPHTNum + 1 = k) (hle : k ≤ NUM_TAGE_PHT) :
    allocationStart s = (k + s.useAlt.toNat % NUM_TAGE_PHT : ℕ) := by
  unfold allocationStart
  have hmod : s.useAlt.toNat % 7 < 7 := Nat.mod_lt _ (by decide)
  have hnat : (BitVec.ofInt 32 (s.lhPHTNum + 1) + s.useAlt % BitVec.ofNat 32 NUM_TAGE_PHT).toNat =
      k + s.useAlt.toNat % NUM_TAGE_PHT := by
    rw [hk, BitVec.ofInt_natCast, BitVec.toNat_add, BitVec.toNat_umod, BitVec.toNat_ofNat,
      BitVec.toNat_ofNat]
    change (k % 2 ^ 32 + s.useAlt.toNat % 7) % 2 ^ 32 = k + s.useAlt.toNat % 7
    change k ≤ 7 at hle
    omega
  rw [BitVec.toInt_eq_toNat_of_lt, hnat]
  rw [hnat]
  change 2 * (k + s.useAlt.toNat % 7) < 2 ^ 32
  change k ≤ 7 at hle
  omega

/-- **Allocation.** -/
theorem allocate_spec (hlo : -1 ≤ s.lhPHTNum) (hhi : s.lhPHTNum < NUM_TAGE_PHT) :
    ∃ s', allocate undef PC dir s = .ok s' ∧ Allocates undef PC dir s s' := by
  unfold allocate
  by_cases hp : s.lhPred ≠ dir
  · obtain ⟨k, hk⟩ := Int.eq_ofNat_of_zero_le (show 0 ≤ s.lhPHTNum + 1 by omega)
    have hle : k ≤ NUM_TAGE_PHT := by omega
    rw [if_pos hp, allocationStart_eq hk hle]
    have hfuel : ∀ i : ℕ, ((NUM_TAGE_PHT : ℤ) - i).toNat = NUM_TAGE_PHT - i := fun i => by omega
    rcases allocateFrom_spec undef PC s (hfuel (k + s.useAlt.toNat % NUM_TAGE_PHT)) with
      ⟨he, -⟩ | ⟨t, ht, h0, he⟩
    · have hdec := decreaseFrom_eq undef PC (s := s) (hfuel k)
      refine ⟨_, bind_ok.2 ⟨_, he, ?_⟩, .full hp⟩
      change decreaseFrom undef PC _ _ s = _
      rw [hk, hdec]
      rfl
    · exact ⟨_, bind_ok.2 ⟨_, he, rfl⟩, .found hp t (by omega) h0⟩
  · rw [if_neg hp]
    exact ⟨s, rfl, .right (not_not.1 hp)⟩

/-! ### The whole update -/

variable {undef PC dir}

/-- The history of a branch with its outcome. -/
def State.pushed (s : State) (PC : UINT32) (dir : Bool) : State :=
  { s with
    BHT := Function.update s.BHT (bhtIdx PC)
      ((s.BHT (bhtIdx PC) <<< 1) ||| (if dir then 1#128 else 0#128)) }

theorem updateHistory_eq : updateHistory PC dir s = .ok (s.pushed PC dir) := by
  unfold updateHistory
  rw [index_bhtIdx]
  rfl

/-- **What an update does**: it trains the counters, may allocate an entry, and extends the
history. -/
theorem updatePredictor_eq {l : Option Loc} (h : Provided s l) (hlo : -1 ≤ s.lhPHTNum)
    (hhi : s.lhPHTNum < NUM_TAGE_PHT) :
    ∃ s', updatePredictor undef PC dir s = .ok (s'.pushed PC dir) ∧
      Allocates undef PC dir (s.trained PC dir l) s' := by
  obtain ⟨s', he, ha⟩ := allocate_spec undef PC dir (s := s.trained PC dir l) hlo hhi
  refine ⟨s', ?_, ha⟩
  unfold updatePredictor
  refine bind_ok.2 ⟨_, updateBase_eq, bind_ok.2 ⟨_, updateBias_eq (h.congr rfl rfl),
    bind_ok.2 ⟨_, updateUseful_eq (h.congr rfl rfl), ?_⟩⟩⟩
  rw [weaken_eq (s := s) rfl]
  refine bind_ok.2 ⟨_, updateCnt_eq (h.congr rfl rfl), bind_ok.2 ⟨s', ?_, updateHistory_eq⟩⟩
  exact he

end Allocation

end Openend
