/-
**The instruction trace of the Tomasulo simulator.**

Lab 3 runs a program twice: `sim-safe.c` executes it and records every instruction in a trace, and
`tomasulo.c` then replays the trace cycle by cycle.  This module is about the instructions and their
store (`instr.h`, `instr.c`): a linked list of chunks of `INSTR_TRACE_SIZE` entries each, which
`put_instr` fills and `get_instr` reads.  The first entry is left unused, so that instruction number
`i` is at index `i`.

An instruction is recorded once and for all; the fields of `instruction_t` that the simulator
changes are kept in the state of the simulator (`ArchLab/Tomasulo.lean`).  Fields the simulator does
not read (`inst`, `pc`) are left out.

Main definitions:

* `Tomasulo.Isa` — the flags of the opcodes, and the macros of `tomasulo.c` that test them;
* `Tomasulo.Instr`, `Tomasulo.Chunk` — an instruction, and a chunk of the store;
* `Tomasulo.getInstr`, `Tomasulo.putInstr` — reading and extending the store;
* `Tomasulo.record` — the store after a program run.

Main results:

* `Tomasulo.Stored.putInstr`, `Tomasulo.Stored.getInstr` — the store holds what was put into it;
* `Tomasulo.getInstr_foldl_putInstr` — **the round trip** through the store;
* `Tomasulo.instrAt_record` — instruction `i` of the run is at index `i`.
-/

import Mathlib.Data.Fin.VecNotation
import Mathlib.Data.List.GetD
import Mathlib.Logic.Function.Basic
import Mathlib.Data.Fintype.Basic

set_option relaxedAutoImplicit false
set_option autoImplicit false

namespace Tomasulo

/-! ### Opcodes -/

def F_ICOMP : ℕ := 0x1
def F_FCOMP : ℕ := 0x2
def F_UNCOND : ℕ := 0x8
def F_COND : ℕ := 0x10
def F_LOAD : ℕ := 0x40
def F_STORE : ℕ := 0x80
def F_TRAP : ℕ := 0x800
def F_CALL : ℕ := 0x8000

/-- The opcode table of the target.  Opcode 0 is `OP_NA`, which has no flags. -/
structure Isa where
  mdOpFlags : ℕ → ℕ
  mdOpFlags_na : mdOpFlags 0 = 0

/-- The two kinds of functional units. -/
inductive FuKind where
  | INT | FP
  deriving DecidableEq

instance : Fintype FuKind := ⟨{.INT, .FP}, fun k => by cases k <;> simp⟩

namespace Isa

variable (isa : Isa) (op : ℕ)

/-- One of the flags of an opcode. -/
def flag (f : ℕ) : Bool := isa.mdOpFlags op &&& f != 0

def isUncondCtrl : Bool := isa.flag op F_CALL || isa.flag op F_UNCOND
def isCondCtrl : Bool := isa.flag op F_COND
def isFcomp : Bool := isa.flag op F_FCOMP
def isIcomp : Bool := isa.flag op F_ICOMP
def isLoad : Bool := isa.flag op F_LOAD
def isStore : Bool := isa.flag op F_STORE
def isTrap : Bool := isa.flag op F_TRAP
def usesIntFu : Bool := isa.isIcomp op || isa.isLoad op || isa.isStore op
def usesFpFu : Bool := isa.isFcomp op
def writesCdb : Bool := isa.isIcomp op || isa.isLoad op || isa.isFcomp op
def isBranch : Bool := isa.isUncondCtrl op || isa.isCondCtrl op

/-- The kind of unit that executes an opcode, in the order in which the code asks. -/
def fuKind : Option FuKind :=
  if isa.usesIntFu op then some .INT else if isa.usesFpFu op then some .FP else none

@[simp] theorem flag_na (f : ℕ) : isa.flag 0 f = false := by
  simp [flag, isa.mdOpFlags_na]

@[simp] theorem isTrap_na : isa.isTrap 0 = false := isa.flag_na _

@[simp] theorem fuKind_na : isa.fuKind 0 = none := by
  simp [fuKind, usesIntFu, usesFpFu, isIcomp, isLoad, isStore, isFcomp]

end Isa

/-! ### Instructions and their store -/

/-- The number of registers, `MD_TOTAL_REGS`. -/
abbrev MD_TOTAL_REGS : ℕ := 32 + 32 + 3 + 1 + 1 + 1

/-- What is recorded about an instruction.  A register that is not there (`DNA`) is `none`. -/
structure Instr where
  index : ℕ
  rOut : Fin 2 → Option (Fin MD_TOTAL_REGS)
  rIn : Fin 3 → Option (Fin MD_TOTAL_REGS)
  op : ℕ

/-- An entry of a chunk that has been cleared: all its fields are 0. -/
def Instr.zero : Instr := ⟨0, fun _ => some 0, fun _ => some 0, 0⟩

/-- The number of entries of a chunk. -/
def INSTR_TRACE_SIZE : ℕ := 16384

/-- A chunk of the store: its entries, and how many of them are in use. -/
structure Chunk where
  table : Fin INSTR_TRACE_SIZE → Instr
  size : ℕ

/-- A chunk that has been cleared. -/
def Chunk.zero : Chunk := ⟨fun _ => Instr.zero, 0⟩

/-- Write the next entry of a chunk. -/
def Chunk.push (c : Chunk) (x : Instr) : Chunk where
  table i := if i.val = c.size then x else c.table i
  size := c.size + 1

/-- Insert an instruction into the store. -/
def putInstr : List Chunk → Instr → List Chunk
  | [], _ => []
  | [c], x => if c.size = INSTR_TRACE_SIZE then [c, Chunk.zero.push x] else [c.push x]
  | c :: c' :: trace, x =>
      if c.size = INSTR_TRACE_SIZE then c :: putInstr (c' :: trace) x else c.push x :: c' :: trace

/-- Get the instruction at an index; `none` is the failure of `assert(trace != NULL)`. -/
def getInstr : List Chunk → ℕ → Option Instr
  | [], _ => none
  | c :: trace, i =>
      if h : i < INSTR_TRACE_SIZE then some (c.table ⟨i, h⟩)
      else getInstr trace (i - INSTR_TRACE_SIZE)

/-- The instruction that a pointer to an entry of the store points to. -/
def instrAt (trace : List Chunk) (i : ℕ) : Instr := (getInstr trace i).getD Instr.zero

/-- The store at the start of a run: one chunk, with its first entry skipped. -/
def initTrace : List Chunk := [⟨fun _ => Instr.zero, 1⟩]

/-- The store after a run of `sim_main` that executed some instructions: each gets its number and is
put into the store. -/
def record (xs : List Instr) : List Chunk :=
  (xs.zipIdx 1).foldl (fun trace p => putInstr trace { p.1 with index := p.2 }) initTrace

/-! ### The store holds what was put into it -/

/-- The entries of a store are `ys`: all chunks are full but the last one, which holds the rest and
is clear behind it. -/
def Stored : List Chunk → List Instr → Prop
  | [], _ => False
  | [c], ys => c.size = ys.length ∧ ys.length ≤ INSTR_TRACE_SIZE ∧
      ∀ i, c.table i = ys.getD i Instr.zero
  | c :: c' :: trace, ys => c.size = INSTR_TRACE_SIZE ∧ INSTR_TRACE_SIZE ≤ ys.length ∧
      (∀ i, c.table i = ys.getD i Instr.zero) ∧ Stored (c' :: trace) (ys.drop INSTR_TRACE_SIZE)

theorem Stored.init : Stored initTrace [Instr.zero] := by
  refine ⟨rfl, by decide, fun i => ?_⟩
  obtain ⟨i, hi⟩ := i
  cases i <;> rfl

/-- One more entry in a list, seen from below. -/
theorem getD_concat_of_lt {ys : List Instr} {x d : Instr} {i : ℕ} (h : i < ys.length) :
    (ys ++ [x]).getD i d = ys.getD i d := by
  rw [List.getD_append _ _ _ _ h]

/-- **Inserting an instruction** appends it to the entries. -/
theorem Stored.putInstr {x : Instr} :
    ∀ {trace : List Chunk} {ys : List Instr}, Stored trace ys →
      Stored (putInstr trace x) (ys ++ [x])
  | [c], ys, ⟨hsize, hle, htab⟩ => by
      unfold Tomasulo.putInstr
      by_cases hfull : c.size = INSTR_TRACE_SIZE
      · -- the chunk is full, and a new one is allocated
        rw [if_pos hfull]
        have hlen : ys.length = INSTR_TRACE_SIZE := hsize.symm.trans hfull
        refine ⟨hfull, by simp [hlen], fun i => ?_, ?_⟩
        · rw [htab i, getD_concat_of_lt (by rw [hlen]; exact i.isLt)]
        · rw [List.drop_append_of_le_length (by omega), List.drop_of_length_le (by omega)]
          refine ⟨rfl, by simp [INSTR_TRACE_SIZE], fun i => ?_⟩
          obtain ⟨i, hi⟩ := i
          cases i with
          | zero => rfl
          | succ i => simp [Chunk.push, Chunk.zero]
      · rw [if_neg hfull]
        refine ⟨by simp [Chunk.push, hsize], by simp; omega, fun i => ?_⟩
        simp only [Chunk.push]
        split
        · next hi => simp [hi, hsize]
        · next hi =>
            rw [htab i]
            by_cases hlt : i.val < ys.length
            · rw [getD_concat_of_lt hlt]
            · rw [List.getD_eq_default _ _ (by omega), List.getD_eq_default _ _ (by simp; omega)]
  | c :: c' :: trace, ys, ⟨hsize, hle, htab, hrest⟩ => by
      unfold Tomasulo.putInstr
      rw [if_pos hsize]
      have hput := hrest.putInstr (x := x)
      obtain ⟨d, ds, hd⟩ : ∃ d ds, Tomasulo.putInstr (c' :: trace) x = d :: ds := by
        cases trace with
        | nil =>
            unfold Tomasulo.putInstr
            split <;> exact ⟨_, _, rfl⟩
        | cons e es =>
            unfold Tomasulo.putInstr
            split <;> exact ⟨_, _, rfl⟩
      rw [hd] at hput ⊢
      refine ⟨hsize, by simp; omega, fun i => ?_, ?_⟩
      · rw [htab i, getD_concat_of_lt (Nat.lt_of_lt_of_le i.isLt hle)]
      · rw [List.drop_append_of_le_length hle]
        exact hput

/-- **Reading the store** at the index of an entry. -/
theorem Stored.getInstr :
    ∀ {trace : List Chunk} {ys : List Instr} {i : ℕ}, Stored trace ys → i < ys.length →
      getInstr trace i = ys[i]?
  | [c], ys, i, ⟨_, hle, htab⟩, hi => by
      unfold Tomasulo.getInstr
      rw [dif_pos (by omega), htab]
      simp [List.getD_eq_getElem?_getD, hi]
  | c :: c' :: trace, ys, i, ⟨_, hle, htab, hrest⟩, hi => by
      unfold Tomasulo.getInstr
      by_cases hlt : i < INSTR_TRACE_SIZE
      · rw [dif_pos hlt, htab]
        simp [List.getD_eq_getElem?_getD, hi]
      · rw [dif_neg hlt, hrest.getInstr (by rw [List.length_drop]; omega), List.getElem?_drop,
          Nat.add_sub_of_le (Nat.le_of_not_lt hlt)]

/-- Behind its entries the store is clear, as far as it goes. -/
theorem Stored.getInstr_of_le :
    ∀ {trace : List Chunk} {ys : List Instr} {i : ℕ}, Stored trace ys → ys.length ≤ i →
      Tomasulo.getInstr trace i = none ∨ Tomasulo.getInstr trace i = some Instr.zero
  | [c], ys, i, ⟨_, _, htab⟩, hi => by
      unfold Tomasulo.getInstr
      split
      · rw [htab, List.getD_eq_default _ _ hi]
        exact .inr rfl
      · exact .inl rfl
  | c :: c' :: trace, ys, i, ⟨_, hle, _, hrest⟩, hi => by
      unfold Tomasulo.getInstr
      rw [dif_neg (by omega)]
      exact hrest.getInstr_of_le (by rw [List.length_drop]; omega)

/-- The store goes as far as its chunks. -/
theorem getInstr_isSome {trace : List Chunk} {i : ℕ} :
    (getInstr trace i).isSome = true ↔ i < trace.length * INSTR_TRACE_SIZE := by
  induction trace generalizing i with
  | nil => simp [getInstr]
  | cons c trace ih =>
      unfold getInstr
      by_cases hi : i < INSTR_TRACE_SIZE
      · rw [dif_pos hi, List.length_cons, Nat.succ_mul]
        simp only [Option.isSome_some, true_iff]
        omega
      · rw [dif_neg hi, ih, List.length_cons, Nat.succ_mul]
        omega

/-- The entries of the store after a run: the unused first one, and the instructions with their
numbers. -/
def entries (xs : List Instr) : List Instr :=
  Instr.zero :: (xs.zipIdx 1).map fun p => { p.1 with index := p.2 }

/-- Inserting some more instructions. -/
theorem Stored.foldl (xs : List Instr) {trace : List Chunk} {ys : List Instr}
    (h : Stored trace ys) : Stored (xs.foldl Tomasulo.putInstr trace) (ys ++ xs) := by
  induction xs generalizing trace ys with
  | nil => simpa using h
  | cons x xs ih =>
      have hrest := ih (h.putInstr (x := x))
      simpa using hrest

/-- All chunks of a store but the last one are full. -/
theorem Stored.size_of_mem_dropLast :
    ∀ {trace : List Chunk} {ys : List Instr}, Stored trace ys → ∀ c ∈ trace.dropLast,
      c.size = INSTR_TRACE_SIZE
  | [_], _, _, _, hc => by cases hc
  | d :: d' :: trace, ys, ⟨hsize, _, _, hrest⟩, c, hc => by
      rw [List.dropLast_cons_cons, List.mem_cons] at hc
      rcases hc with rfl | hc
      · exact hsize
      · exact hrest.size_of_mem_dropLast c hc

/-- **The round trip of the store.**  After any number of insertions every instruction is read back
at its number, later insertions do not change it, and all chunks but the last one are full. -/
theorem getInstr_foldl_putInstr (xs : List Instr) :
    (∀ i (h : i < xs.length), getInstr (xs.foldl putInstr initTrace) (i + 1) = some xs[i]) ∧
    (∀ ys : List Instr, ∀ i ≤ xs.length, getInstr ((xs ++ ys).foldl putInstr initTrace) i =
      getInstr (xs.foldl putInstr initTrace) i) ∧
    ∀ c ∈ (xs.foldl putInstr initTrace).dropLast, c.size = INSTR_TRACE_SIZE := by
  have hstored : Stored (xs.foldl putInstr initTrace) (Instr.zero :: xs) := Stored.init.foldl xs
  refine ⟨fun i hi => ?_, fun ys i hi => ?_, hstored.size_of_mem_dropLast⟩
  · rw [hstored.getInstr (by simpa using hi)]
    simp [hi]
  · -- an entry that was there keeps its place in front of the new ones
    have hlater : Stored ((xs ++ ys).foldl putInstr initTrace) (Instr.zero :: (xs ++ ys)) :=
      Stored.init.foldl (xs ++ ys)
    have hlt : i < (Instr.zero :: xs).length := by
      rw [List.length_cons]
      omega
    rw [hlater.getInstr (by rw [List.length_cons, List.length_append]; omega),
      hstored.getInstr hlt, ← List.cons_append, List.getElem?_append_left hlt]

/-- **The store after a run** holds the instructions of the run, with their numbers. -/
theorem stored_record (xs : List Instr) : Stored (record xs) (entries xs) := by
  have hstored := Stored.init.foldl ((xs.zipIdx 1).map fun p => { p.1 with index := p.2 })
  rw [List.foldl_map] at hstored
  exact hstored

/-- The entry of an instruction of the run. -/
theorem getInstr_record {xs : List Instr} {i : ℕ} (h : i < xs.length) :
    getInstr (record xs) (i + 1) = some { xs[i] with index := i + 1 } := by
  rw [(stored_record xs).getInstr (by simpa [entries] using h)]
  simp [entries, h, Nat.add_comm]

/-- The instruction of the run at its index. -/
theorem instrAt_record {xs : List Instr} {i : ℕ} (h : i < xs.length) :
    instrAt (record xs) (i + 1) = { xs[i] with index := i + 1 } := by
  rw [instrAt, getInstr_record h]
  rfl

/-- Outside the run the store is clear. -/
theorem instrAt_record_eq_zero {xs : List Instr} {i : ℕ} (h : i = 0 ∨ xs.length < i) :
    instrAt (record xs) i = Instr.zero := by
  have hs := stored_record xs
  unfold instrAt
  rcases h with rfl | h
  · rw [hs.getInstr (by simp [entries])]
    rfl
  · rcases hs.getInstr_of_le (i := i) (by simp [entries]; omega) with e | e <;> rw [e] <;> rfl

/-- An instruction that writes register 1, one that reads and writes it, and a store of it. -/
def demoRun : List Instr :=
  [⟨0, ![some 1, none], ![none, none, none], 1⟩, ⟨0, ![some 1, none], ![some 1, none, none], 1⟩,
    ⟨0, ![none, none], ![some 1, none, none], 2⟩]

/-- The instructions of the example are read back, also when one more has been inserted. -/
theorem getInstr_foldl_putInstr_demo :
    getInstr (demoRun.foldl putInstr initTrace) 2 = some demoRun[1] ∧
    getInstr ((demoRun ++ [Instr.zero]).foldl putInstr initTrace) 2 = some demoRun[1] := by
  obtain ⟨hread, hkeep, _⟩ := getInstr_foldl_putInstr demoRun
  have hsecond := hread 1 (by decide)
  exact ⟨hsecond, (hkeep [Instr.zero] 2 (by decide)).trans hsecond⟩

end Tomasulo
