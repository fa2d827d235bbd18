/-
**The reference prediction table.**

The stride prefetcher and the open-ended prefetcher of `cache.c` keep, for the instructions that
access memory, the last address and the difference of the last two addresses in a reference
prediction table (`RPT`).  There is one table for the whole program: the first prefetcher that runs
allocates it, with as many entries as its own cache asks for, and all others use the same table.
Here it is a value of type `Rpt`, and an access behind the end of the allocated memory is an error.

The code of the two prefetchers is the same up to the number of entries and the states in which they
issue a prefetch; it is the function `rptAccess` with these as parameters.

Main definitions:

* `CacheSim.RptEntry`, `CacheSim.Rpt` — an entry, and the table;
* `CacheSim.RptEntry.update` — the automaton of an entry;
* `CacheSim.rptAccess` — what a prefetcher does with the table.
-/

import ArchLab.CacheGeometry
import Mathlib.Logic.Function.Basic

set_option relaxedAutoImplicit false
set_option autoImplicit false

namespace CacheSim

/-! ### The table -/

/-- The states of an entry. -/
inductive RptState where
  | INIT | TRANSIENT | STEADY | NOPRED
  deriving DecidableEq

/-- An entry.  The stride is an `int`, computed from a difference of addresses; it is kept as a
word. -/
structure RptEntry where
  tag : Addr := 0
  prevAddr : Addr := 0
  stride : Addr := 0
  state : RptState := .INIT
  deriving DecidableEq

/-- `stride_init`, and the table with the number of entries that has been allocated. -/
structure Rpt where
  init : Bool
  size : ℕ
  table : ℕ → RptEntry

/-- The table before its first use. -/
def Rpt.unused : Rpt := ⟨false, 0, fun _ => {}⟩

/-- Ways in which the use of the table ends the program. -/
inductive RptFault where
  | panic
  | outOfBounds
  deriving DecidableEq

/-- `log_base2(sizeof(md_inst_t))`: an instruction has 8 bytes. -/
def INST_SHIFT : ℕ := 3

/-- The index of a program counter in a table with `2 ^ k` entries. -/
def rptIndex (k : ℕ) (pc : Addr) : ℕ :=
  ((pc &&& (BitVec.ofNat 32 (2 ^ k - 1) <<< INST_SHIFT)) >>> INST_SHIFT).toNat

/-- The tag of a program counter for a table with `2 ^ k` entries. -/
def rptTag (k : ℕ) (pc : Addr) : Addr := pc >>> (k + INST_SHIFT)

/-- The automaton of an entry. -/
def RptEntry.update (tag addr : Addr) (e : RptEntry) : RptEntry :=
  if e.tag = tag then
    let stride := addr - e.prevAddr
    if stride = e.stride then
      { e with
        state := if e.state = .NOPRED then .TRANSIENT else .STEADY
        prevAddr := addr }
    else
      { e with
        stride := if e.state = .STEADY then e.stride else stride
        state := match e.state with
          | .INIT => .TRANSIENT
          | .TRANSIENT => .NOPRED
          | .STEADY => .INIT
          | .NOPRED => .NOPRED
        prevAddr := addr }
  else ⟨tag, addr, 0, .INIT⟩

/-- What a prefetcher does with the table: it allocates the table if nobody has done so, and updates
the entry of the current instruction, which it returns. -/
def rptAccess (size : ℕ) (pc addr : Addr) (r : Rpt) : Except RptFault (Rpt × RptEntry) :=
  let r := if r.init then r else ⟨true, size, fun _ => {}⟩
  match logBase2 size with
  | none => .error .panic
  | some k =>
      if rptIndex k pc < r.size then
        let e := (r.table (rptIndex k pc)).update (rptTag k pc) addr
        .ok ({ r with table := Function.update r.table (rptIndex k pc) e }, e)
      else .error .outOfBounds

end CacheSim
