/-
**The TAGE predictor of `predictor.cc`.**

The open-ended branch predictor has a base table of counters that is indexed by the address of a
branch, and seven tables of tagged entries that are indexed by hashes of the address and of a longer
and longer part of the history.  `GetPrediction_openend` looks for the two tables with the longest
history that have a matching tag, and leaves what it has found in global variables;
`UpdatePredictor_openend` trains the counters, and allocates a new entry after a misprediction.

Tables are functions on the indices that exist, and every access with a computed index checks it: an
index that is out of bounds is an error of the model.  The shift `1 << size` is undefined in C for
sizes of 32 and more, which occur in `folded_xor`; its value is a parameter.

Main definitions:

* `Openend.foldedXor`, `Openend.getIdx`, `Openend.getTag` — the hashes;
* `Openend.State` — the global variables;
* `Openend.initPredictor`, `Openend.getPrediction`, `Openend.updatePredictor` — the predictor;
* `Openend.run` — the main loop, for the conditional branches of a trace.

What these functions do is stated in `ArchLab/TageSpec.lean`.
-/

import Mathlib.Data.Int.Notation
import Mathlib.Data.Nat.Notation
import Mathlib.Logic.Function.Basic

set_option relaxedAutoImplicit false
set_option autoImplicit false

namespace Openend

abbrev UINT32 := BitVec 32

abbrev UINT128 := BitVec 128

def TAKEN : Bool := true

def NOT_TAKEN : Bool := false

/-! ### Macros -/

/-- The mask for sizes that are known at compile time. -/
def MASK_OF_SIZE (size : ℕ) : UINT32 := (1#32 <<< size) - 1#32

def WEAK_TAKEN (size : ℕ) : UINT32 := 1#32 <<< (size - 1)

def WEAK_NOT_TAKEN (size : ℕ) : UINT32 := WEAK_TAKEN size - 1#32

def LOW_CONFIDENCE (cnt : UINT32) (size : ℕ) : Bool :=
  decide (cnt = WEAK_TAKEN size ∨ cnt = WEAK_NOT_TAKEN size)

def MAPPING_RESULT (prediction : UINT32) (size : ℕ) : Bool :=
  if prediction >>> (size - 1) = 1#32 then TAKEN else NOT_TAKEN

def INC_SAT_CNT (cnt : UINT32) (size : ℕ) : UINT32 :=
  if cnt = MASK_OF_SIZE size then cnt else cnt + 1#32

def DEC_SAT_CNT (cnt : UINT32) (_size : ℕ) : UINT32 := if cnt = 0#32 then cnt else cnt - 1#32

def BHT_IDX_SIZE : ℕ := 1

def BHT_SIZE : ℕ := 1 <<< BHT_IDX_SIZE

def BHT_IDX_MASK : UINT32 := MASK_OF_SIZE BHT_IDX_SIZE

def BHT_IDX_OFFSET : ℕ := 1

def BASE_IDX_SIZE : ℕ := 9

def BASE_PHT_SIZE : ℕ := 1 <<< BASE_IDX_SIZE

def BASE_IDX_MASK : UINT32 := MASK_OF_SIZE BASE_IDX_SIZE

def BASE_CNT_SIZE : ℕ := 4

def NUM_TAGE_PHT : ℕ := 7

def TAGE_IDX_SIZE : ℕ := 10

def TAGE_PHT_SIZE : ℕ := 1 <<< TAGE_IDX_SIZE

def TAGE_IDX_MASK : UINT32 := MASK_OF_SIZE TAGE_IDX_SIZE

def TAGE_CNT_SIZE : ℕ := 3

def TAGE_TAG_SIZE : ℕ := 11

def TAGE_U_SIZE : ℕ := 2

def CYC_RST_U : ℕ := (BASE_PHT_SIZE + TAGE_PHT_SIZE * NUM_TAGE_PHT) <<< 4

def BIAS_SIZE : ℕ := 6

/-! ### Hashes -/

section Hashes

variable (undef : ℕ → UINT32)

/-- The mask for a size that is known at run time only: `1 << size` is an `int`, and too large a
size gives a value that is not defined. -/
def maskOfSize (size : ℕ) : UINT32 := if size < 32 then MASK_OF_SIZE size else undef size - 1#32

/-- The loop of `folded_xor`. -/
def foldLoop (targSize : ℕ) : ℕ → UINT128 → UINT32 → UINT32
  | 0, _, temp => temp
  | n + 1, value, temp =>
      let value := value >>> targSize
      foldLoop targSize n value (temp ^^^ value.setWidth 32)

/-- The history, or the address of a branch, is folded into a word with a few bits. -/
def foldedXor (value : UINT128) (size targSize : ℕ) : UINT32 :=
  let mask := MASK_OF_SIZE targSize
  let temp := (value &&& mask.setWidth 128).setWidth 32
  -- the mask for the value is signed
  let value := if size < 128 then value &&& (maskOfSize undef size).signExtend 128 else value
  foldLoop targSize ((size - 1) / targSize) value temp &&& mask

def getTag (PC : UINT32) (history : UINT128) (PHTNumber : ℕ) : UINT32 :=
  let foldedPC := foldedXor undef (PC.setWidth 128) 32 TAGE_TAG_SIZE
  let foldedHIS1 := foldedXor undef history (2 <<< PHTNumber) TAGE_TAG_SIZE
  let foldedHIS2 := foldedXor undef history (2 <<< PHTNumber) (TAGE_TAG_SIZE - 1)
  let combined := foldedPC ^^^ foldedHIS1 ^^^ (foldedHIS2 <<< 1)
  combined &&& MASK_OF_SIZE TAGE_TAG_SIZE

def getIdx (PC : UINT32) (history : UINT128) (PHTNumber : ℕ) : UINT32 :=
  let foldedPC1 := foldedXor undef (PC.setWidth 128) 32 TAGE_IDX_SIZE
  let foldedPC2 := foldedXor undef (PC.setWidth 128) 32 (TAGE_IDX_SIZE - 1)
  let foldedHIS := foldedXor undef history (2 <<< PHTNumber) TAGE_IDX_SIZE
  let combined := foldedPC1 ^^^ (foldedPC2 <<< 1) ^^^ foldedHIS
  combined &&& TAGE_IDX_MASK

end Hashes

/-! ### Global variables -/

structure TageEntry where
  cnt : UINT32
  tag : UINT32
  useful : UINT32

/-- The places of the tagged entries: table and index. -/
abbrev Loc := Fin NUM_TAGE_PHT × Fin TAGE_PHT_SIZE

/-- The global variables.  The entries of the base table have a counter only. -/
structure State where
  BHT : Fin BHT_SIZE → UINT128
  basePHT : Fin BASE_PHT_SIZE → UINT32
  tagePHT : Loc → TageEntry
  useAlt : UINT32
  lhPred : Bool
  lhPHTNum : ℤ
  lhPHTIdx : UINT32
  altPred : Bool
  altPHTNum : ℤ
  altPHTIdx : UINT32
  numPredictionMade : UINT128

inductive OutOfBounds where
  | outOfBounds
  deriving DecidableEq

/-- An index of an array with `n` elements. -/
def index (n : ℕ) (i : ℤ) : Except OutOfBounds (Fin n) :=
  if h : 0 ≤ i ∧ i < n then .ok ⟨i.toNat, by omega⟩ else .error .outOfBounds

/-- `TAGE_PHT[num][idx]`. -/
def locate (num : ℤ) (idx : UINT32) : Except OutOfBounds Loc := do
  let t ← index NUM_TAGE_PHT num
  let j ← index TAGE_PHT_SIZE idx.toNat
  return (t, j)

namespace State

/-- The history of the branches that share a history with the one at `PC`. -/
def history (PC : UINT32) (s : State) : Except OutOfBounds UINT128 := do
  let b ← index BHT_SIZE ((PC >>> BHT_IDX_OFFSET) &&& BHT_IDX_MASK).toNat
  return s.BHT b

def entry (num : ℤ) (idx : UINT32) (s : State) : Except OutOfBounds TageEntry := do
  let l ← locate num idx
  return s.tagePHT l

def baseCnt (PC : UINT32) (s : State) : Except OutOfBounds UINT32 := do
  let j ← index BASE_PHT_SIZE (PC &&& BASE_IDX_MASK).toNat
  return s.basePHT j

/-- An entry is replaced. -/
def setEntry (l : Loc) (e : TageEntry) (s : State) : State :=
  { s with tagePHT := Function.update s.tagePHT l e }

/-- The entry of the longest matching history is replaced. -/
def modifyLh (f : TageEntry → TageEntry) (s : State) : Except OutOfBounds State := do
  let l ← locate s.lhPHTNum s.lhPHTIdx
  return s.setEntry l (f (s.tagePHT l))

end State

/-- `InitPredictor_openend` does not touch what a prediction leaves behind. -/
def initPredictor (s : State) : State :=
  { s with
    BHT := fun _ => 0#128
    basePHT := fun _ => WEAK_TAKEN BASE_CNT_SIZE
    tagePHT := fun _ => ⟨WEAK_TAKEN TAGE_CNT_SIZE, 0#32, 0#32⟩
    useAlt := WEAK_NOT_TAKEN BIAS_SIZE
    numPredictionMade := 0#128 }

/-- The entry is new, or it could not make up its mind. -/
def TageEntry.unsure (e : TageEntry) : Bool :=
  decide (e.useful = 0#32) && LOW_CONFIDENCE e.cnt TAGE_CNT_SIZE

/-! ### Prediction -/

section Prediction

variable (undef : ℕ → UINT32) (PC : UINT32)

/-- The loop over the tables, from the longest history on; it stops at the second match.  The result
says whether there was a first and a second one. -/
def search : ℕ → Bool → State → Except OutOfBounds (State × Bool × Bool)
  | 0, lhPredMade, s => return (s, lhPredMade, false)
  | i + 1, lhPredMade, s => do
      let history ← s.history PC
      let idx := getIdx undef PC history i
      let e ← s.entry i idx
      if e.tag = getTag undef PC history i then
        if !lhPredMade then
          search i true { s with
            lhPred := MAPPING_RESULT e.cnt TAGE_CNT_SIZE
            lhPHTNum := i
            lhPHTIdx := idx }
        else
          return ({ s with
            altPred := MAPPING_RESULT e.cnt TAGE_CNT_SIZE
            altPHTNum := i
            altPHTIdx := idx }, true, true)
      else search i lhPredMade s

/-- The base table is the alternative if there is no second match. -/
def alternative (altPredMade : Bool) (s : State) : Except OutOfBounds State :=
  if !altPredMade then do
    let cnt ← s.baseCnt PC
    return { s with
      altPred := MAPPING_RESULT cnt BASE_CNT_SIZE
      altPHTNum := -1
      altPHTIdx := PC &&& BASE_IDX_MASK }
  else return s

/-- The alternative is used if it was the better choice for entries of this kind. -/
def choose (s : State) : Except OutOfBounds Bool :=
  if MAPPING_RESULT s.useAlt BIAS_SIZE then do
    let e ← s.entry s.lhPHTNum s.lhPHTIdx
    return if e.unsure then s.altPred else s.lhPred
  else return s.lhPred

/-- **`GetPrediction_openend`.** -/
def getPrediction (s : State) : Except OutOfBounds (Bool × State) := do
  let (s, lhPredMade, altPredMade) ← search undef PC NUM_TAGE_PHT false s
  if lhPredMade then
    let s ← alternative PC altPredMade s
    let predDir ← choose s
    return (predDir, s)
  else
    let cnt ← s.baseCnt PC
    let pred := MAPPING_RESULT cnt BASE_CNT_SIZE
    return (pred, { s with
      lhPred := pred
      lhPHTNum := -1
      lhPHTIdx := PC &&& BASE_IDX_MASK
      altPred := pred
      altPHTNum := -1
      altPHTIdx := PC &&& BASE_IDX_MASK })

end Prediction

/-! ### Update -/

section Update

variable (undef : ℕ → UINT32) (PC : UINT32) (resolveDir : Bool)

/-- A counter is moved towards an outcome. -/
def trainCnt (cnt : UINT32) (size : ℕ) (up : Bool) : UINT32 :=
  if up then INC_SAT_CNT cnt size else DEC_SAT_CNT cnt size

def updateBase (s : State) : Except OutOfBounds State := do
  let j ← index BASE_PHT_SIZE (PC &&& BASE_IDX_MASK).toNat
  return { s with
    basePHT := Function.update s.basePHT j
      (trainCnt (s.basePHT j) BASE_CNT_SIZE (decide (resolveDir = TAKEN))) }

def updateBias (s : State) : Except OutOfBounds State :=
  if s.lhPHTNum ≠ -1 ∧ s.lhPred ≠ s.altPred then do
    let e ← s.entry s.lhPHTNum s.lhPHTIdx
    return if e.unsure then
      { s with useAlt := trainCnt s.useAlt BIAS_SIZE (decide (s.altPred = resolveDir)) }
    else s
  else return s

def updateUseful (s : State) : Except OutOfBounds State :=
  if s.lhPHTNum ≠ -1 ∧ s.lhPred ≠ s.altPred then
    s.modifyLh fun e =>
      { e with useful := trainCnt e.useful TAGE_U_SIZE (decide (s.lhPred = resolveDir)) }
  else return s

/-- From time to time all entries become less useful. -/
def weaken (s : State) : State :=
  if s.numPredictionMade = BitVec.ofNat 128 CYC_RST_U then
    { s with
      tagePHT := fun l =>
        { s.tagePHT l with useful := (s.tagePHT l).useful &&& (MASK_OF_SIZE TAGE_U_SIZE - 1#32) }
      numPredictionMade := 0#128 }
  else s

def updateCnt (s : State) : Except OutOfBounds State :=
  if s.lhPHTNum ≠ -1 then
    s.modifyLh fun e => { e with cnt := trainCnt e.cnt TAGE_CNT_SIZE (decide (resolveDir = TAKEN)) }
  else return s

/-- The table at which the search for a free entry starts: an `int` and an unsigned number are
added. -/
def allocationStart (s : State) : ℤ :=
  (BitVec.ofInt 32 (s.lhPHTNum + 1) + s.useAlt % BitVec.ofNat 32 NUM_TAGE_PHT).toInt

/-- The loop that takes the first entry that is not useful, for `n` tables from table `i` on. -/
def allocateFrom : ℕ → ℤ → State → Except OutOfBounds (Bool × State)
  | 0, _, s => return (false, s)
  | n + 1, i, s => do
      let history ← s.history PC
      let l ← locate i (getIdx undef PC history i.toNat)
      if (s.tagePHT l).useful = 0#32 then
        return (true, s.setEntry l { s.tagePHT l with
          cnt := WEAK_TAKEN TAGE_CNT_SIZE
          tag := getTag undef PC history i.toNat })
      else allocateFrom n (i + 1) s

/-- The loop that makes the entries less useful, for `n` tables from table `i` on. -/
def decreaseFrom : ℕ → ℤ → State → Except OutOfBounds State
  | 0, _, s => return s
  | n + 1, i, s => do
      let history ← s.history PC
      let l ← locate i (getIdx undef PC history i.toNat)
      decreaseFrom n (i + 1) (s.setEntry l { s.tagePHT l with
        useful := DEC_SAT_CNT (s.tagePHT l).useful TAGE_U_SIZE })

/-- A new entry is allocated after a misprediction. -/
def allocate (s : State) : Except OutOfBounds State :=
  if s.lhPred ≠ resolveDir then do
    let start := allocationStart s
    let (spaceFound, s) ← allocateFrom undef PC (NUM_TAGE_PHT - start).toNat start s
    if !spaceFound then
      decreaseFrom undef PC (NUM_TAGE_PHT - (s.lhPHTNum + 1)).toNat (s.lhPHTNum + 1) s
    else return s
  else return s

def updateHistory (s : State) : Except OutOfBounds State := do
  let b ← index BHT_SIZE ((PC >>> BHT_IDX_OFFSET) &&& BHT_IDX_MASK).toNat
  return { s with
    BHT := Function.update s.BHT b ((s.BHT b <<< 1) ||| (if resolveDir then 1#128 else 0#128)) }

/-- **`UpdatePredictor_openend`.** -/
def updatePredictor (s : State) : Except OutOfBounds State := do
  let s := { s with numPredictionMade := s.numPredictionMade + 1#128 }
  let s ← updateBase PC resolveDir s
  let s ← updateBias resolveDir s
  let s ← updateUseful resolveDir s
  let s := weaken s
  let s ← updateCnt resolveDir s
  let s ← allocate undef PC resolveDir s
  updateHistory PC resolveDir s

end Update

/-! ### The main loop -/

/-- A conditional branch of the trace, and what undefined shifts give while it is processed. -/
structure Branch where
  PC : UINT32
  branchTaken : Bool
  undef : ℕ → UINT32

/-- A round of the main loop: predict, update, and count the mispredictions. -/
def step (x : State × ℕ) (b : Branch) : Except OutOfBounds (State × ℕ) := do
  let (s, numMispred) := x
  let (predDir, s) ← getPrediction b.undef b.PC s
  let s ← updatePredictor b.undef b.PC b.branchTaken s
  return (s, if predDir ≠ b.branchTaken then numMispred + 1 else numMispred)

/-- **The main loop**, with whatever was in the global variables before. -/
def run (s : State) (bs : List Branch) : Except OutOfBounds (State × ℕ) :=
  bs.foldlM step (initPredictor s, 0)

end Openend
