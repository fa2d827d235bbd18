/-
**The Tomasulo simulator.**

The machine of `tomasulo.c`: an instruction queue, reservation stations and functional units of two
kinds, one common data bus, and a map table that names the instruction which will produce the value
of each register.  An instruction is named by its index in the trace; this is what the pointers of
the source amount to.  In one cycle the five stages run from the last to the first
(`Tomasulo.cycleOnce`), and `runTomasulo` repeats cycles until the machine is empty and the trace
has been read.

The two kinds of units are treated by the same code in the source, once for the arrays `reservINT`
and `fuINT` and once for `reservFP` and `fuFP`; here the arrays are indexed by the kind and the
position.  Cycle numbers are natural numbers.

Main definitions:

* `Tomasulo.State` — the machine, with the fields of the instructions that change;
* `Tomasulo.cdbToRetire`, `Tomasulo.executeToCDB`, `Tomasulo.issueToExecute`,
  `Tomasulo.dispatchToIssue`, `Tomasulo.fetchToDispatch` — the five stages;
* `Tomasulo.isSimulationDone` — the condition for leaving the loop;
* `Tomasulo.runTomasulo` — the loop, with a bound on the number of cycles;
* `Tomasulo.after` — the machine after a number of cycles.
-/

import ArchLab.Slots
import ArchLab.TomasuloTrace
import Mathlib.Data.List.MinMax
import Mathlib.Data.Fintype.Sigma

set_option relaxedAutoImplicit false
set_option autoImplicit false

namespace Tomasulo

/-! ### Parameters -/

def INSTR_QUEUE_SIZE : ℕ := 16
def RESERV_INT_SIZE : ℕ := 5
def RESERV_FP_SIZE : ℕ := 3
def FU_INT_SIZE : ℕ := 3
def FU_FP_SIZE : ℕ := 1
def FU_INT_LATENCY : ℕ := 5
def FU_FP_LATENCY : ℕ := 7

namespace FuKind

/-- The number of reservation stations of a kind. -/
def reservSize : FuKind → ℕ
  | INT => RESERV_INT_SIZE
  | FP => RESERV_FP_SIZE

/-- The number of functional units of a kind. -/
def fuSize : FuKind → ℕ
  | INT => FU_INT_SIZE
  | FP => FU_FP_SIZE

/-- The latency of the functional units of a kind. -/
def latency : FuKind → ℕ
  | INT => FU_INT_LATENCY
  | FP => FU_FP_LATENCY

end FuKind

/-- A reservation station: `⟨.INT, i⟩` is `reservINT[i]`. -/
abbrev Station : Type := (k : FuKind) × Fin k.reservSize

/-- A functional unit: `⟨.INT, i⟩` is `fuINT[i]`. -/
abbrev FuncUnit : Type := (k : FuKind) × Fin k.fuSize

/-- The reservation stations of a kind, in their order. -/
def stations (k : FuKind) : List Station := (List.finRange k.reservSize).map (Sigma.mk k)

/-- The functional units of a kind, in their order. -/
def units (k : FuKind) : List FuncUnit := (List.finRange k.fuSize).map (Sigma.mk k)

/-! ### The state -/

/-- The fields of an instruction that the simulator changes: the producers of its inputs, and the
cycles in which it entered the stages (0 if it has not). -/
structure Progress where
  Q : Fin 3 → Option ℕ := fun _ => none
  tomDispatchCycle : ℕ := 0
  tomIssueCycle : ℕ := 0
  tomExecuteCycle : ℕ := 0
  tomCdbCycle : ℕ := 0

/-- The machine. -/
structure State where
  instrQueue : List ℕ
  reserv : Station → Option ℕ
  fu : FuncUnit → Option ℕ
  commonDataBus : Option ℕ
  mapTable : Fin MD_TOTAL_REGS → Option ℕ
  fetchIndex : ℕ
  table : ℕ → Progress

/-- The machine before the first cycle. -/
def State.init : State where
  instrQueue := []
  reserv _ := none
  fu _ := none
  commonDataBus := none
  mapTable _ := none
  fetchIndex := 0
  table _ := {}

/-- Write to the fields of an instruction. -/
def State.modify (s : State) (j : ℕ) (f : Progress → Progress) : State :=
  { s with table := Function.update s.table j (f (s.table j)) }

section Stages

variable (isa : Isa) (prog : ℕ → Instr)

/-- Remove an instruction from its reservation station. -/
def rmFromRS (inst : ℕ) (s : State) : State :=
  match isa.fuKind (prog inst).op with
  | none => s
  | some k =>
      match (stations k).find? fun u => s.reserv u = some inst with
      | none => s
      | some u => { s with reserv := Function.update s.reserv u none }

/-- Clear a tag among the inputs of an instruction. -/
def Progress.clearTag (inst : ℕ) (p : Progress) : Progress :=
  { p with Q := fun i => if p.Q i = some inst then none else p.Q i }

/-- Clear a tag in the map table and in all reservation stations. -/
def broadcastTags (inst : ℕ) (s : State) : State :=
  { s with
    mapTable := fun r => if s.mapTable r = some inst then none else s.mapTable r
    table := fun j =>
      if ∃ u, s.reserv u = some j then (s.table j).clearTag inst else s.table j }

/-- Look the producers of the inputs up in the map table, then enter the instruction as the producer
of its outputs. -/
def setTags (inst : ℕ) (s : State) : State :=
  let s := s.modify inst fun p =>
    { p with Q := fun i => match (prog inst).rIn i with
        | some r => s.mapTable r
        | none => p.Q i }
  { s with mapTable := fun r =>
      if ∃ i, (prog inst).rOut i = some r then some inst else s.mapTable r }

/-- The instruction on the bus has been there for a cycle, and leaves it.  (The statements on the
map table are comparisons without effect.) -/
def cdbToRetire (cycle : ℕ) (s : State) : State :=
  match s.commonDataBus with
  | none => s
  | some j =>
      if (s.table j).tomCdbCycle < cycle then { s with commonDataBus := none } else s

/-- The loop of `executeToCDB`, at one functional unit: a finished instruction becomes the candidate
for the bus if it is the oldest so far, or leaves the machine if it does not need the bus. -/
def scanUnit (cycle : ℕ) (acc : State × Option (ℕ × FuncUnit)) (u : FuncUnit) :
    State × Option (ℕ × FuncUnit) :=
  match acc.1.fu u with
  | none => acc
  | some j =>
      if (acc.1.table j).tomExecuteCycle + u.1.latency ≤ cycle then
        if isa.writesCdb (prog j).op then
          match acc.2 with
          | none => (acc.1, some (j, u))
          | some (o, _) =>
              if (prog o).index > (prog j).index then (acc.1, some (j, u)) else acc
        else
          let s := rmFromRS isa prog j acc.1
          ({ s with fu := Function.update s.fu u none }, acc.2)
      else acc

/-- Move the oldest finished instruction to the bus, if the bus is free. -/
def executeToCDB (cycle : ℕ) (s : State) : State :=
  if s.commonDataBus = none then
    match (units .INT ++ units .FP).foldl (scanUnit isa prog cycle) (s, none) with
    | (s, none) => s
    | (s, some (j, u)) =>
        let s := s.modify j fun p => { p with tomCdbCycle := cycle }
        let s := rmFromRS isa prog j { s with commonDataBus := some j }
        { s with fu := Function.update s.fu u none }
  else s

/-- An instruction in a reservation station can start: its inputs are there, it has not started, and
it did not enter the station in this cycle. -/
def State.issueable (s : State) (cycle j : ℕ) : Bool :=
  decide ((∀ i, (s.table j).Q i = none) ∧ (s.table j).tomExecuteCycle = 0 ∧
    (s.table j).tomIssueCycle < cycle)

/-- The oldest instruction in a reservation station of a kind that can start. -/
def State.oldestIssueable (s : State) (k : FuKind) (cycle : ℕ) : Option ℕ :=
  ((Slots.contents s.reserv (stations k)).filter (s.issueable cycle)).argmin fun j => (prog j).index

/-- Start an instruction on a functional unit. -/
def State.start (s : State) (cycle : ℕ) (u : FuncUnit) (j : ℕ) : State :=
  { s.modify j fun p => { p with tomExecuteCycle := cycle } with
    fu := Function.update s.fu u (some j) }

/-- Fill the functional units of a kind, until no instruction is left that can start. -/
def issueUnits (cycle : ℕ) (k : FuKind) : List FuncUnit → State → State
  | [], s => s
  | u :: us, s =>
      if s.fu u = none then
        match s.oldestIssueable prog k cycle with
        | none => s
        | some j => issueUnits cycle k us (s.start cycle u j)
      else issueUnits cycle k us s

/-- Start instructions on the free functional units, then broadcast the tag on the bus. -/
def issueToExecute (cycle : ℕ) (s : State) : State :=
  let s := issueUnits prog cycle .INT (units .INT) s
  let s := issueUnits prog cycle .FP (units .FP) s
  match s.commonDataBus with
  | none => s
  | some j => broadcastTags j s

/-- Put the instruction at the head of the queue into a reservation station of its kind, if one is
free; an instruction that needs no unit just leaves the queue. -/
def dispatchToIssue (cycle : ℕ) (s : State) : State :=
  match s.instrQueue with
  | [] => s
  | j :: rest =>
      if isa.isBranch (prog j).op then { s with instrQueue := rest }
      else
        match isa.fuKind (prog j).op with
        | none => { s with instrQueue := rest }
        | some k =>
            match (stations k).find? fun u => s.reserv u = none with
            | none => s
            | some u =>
                let s := { s with reserv := Function.update s.reserv u (some j) }
                let s := s.modify j fun p => { p with tomIssueCycle := cycle }
                { setTags prog j s with instrQueue := rest }

end Stages

section Loop

variable (isa : Isa) (trace : List Chunk) (simNumInsn : ℕ)

/-- The index of the next instruction that is not a trap, if the trace goes so far.  `fuel` bounds
the number of traps to be skipped. -/
def skipTraps : ℕ → ℕ → Option ℕ
  | 0, _ => none
  | fuel + 1, fetchIndex =>
      match getInstr trace (fetchIndex + 1) with
      | none => none
      | some x => if isa.isTrap x.op then skipTraps fuel (fetchIndex + 1) else some (fetchIndex + 1)

/-- Fetch an instruction into the queue, if it is not full and the trace has not been read.  `none`
is the failure of the assertion in `get_instr`. -/
def fetch (s : State) : Option State :=
  if s.instrQueue.length < INSTR_QUEUE_SIZE ∧ s.fetchIndex ≤ simNumInsn then
    (skipTraps isa trace (trace.length * INSTR_TRACE_SIZE) s.fetchIndex).map fun i =>
      { s with fetchIndex := i, instrQueue := s.instrQueue ++ [i] }
  else some s

/-- Fetch, and note the cycle in the last instruction of the queue. -/
def fetchToDispatch (cycle : ℕ) (s : State) : Option State :=
  (fetch isa trace simNumInsn s).map fun s =>
    match s.instrQueue.getLast? with
    | none => s
    | some j =>
        if (s.table j).tomDispatchCycle = 0 then
          s.modify j fun p => { p with tomDispatchCycle := cycle }
        else s

/-- One cycle: the stages from the last to the first. -/
def cycleOnce (cycle : ℕ) (s : State) : Option State :=
  let prog := instrAt trace
  let s := cdbToRetire cycle s
  let s := executeToCDB isa prog cycle s
  let s := issueToExecute prog cycle s
  let s := dispatchToIssue isa prog cycle s
  fetchToDispatch isa trace simNumInsn cycle s

/-- The trace has been read, and nothing is left in the machine. -/
def isSimulationDone (s : State) : Bool :=
  decide (simNumInsn < s.fetchIndex ∧ s.instrQueue = [] ∧ (∀ u, s.reserv u = none) ∧
    (∀ u, s.fu u = none) ∧ s.commonDataBus = none ∧ ∀ r, s.mapTable r = none)

/-- The loop of `runTomasulo`, from some cycle on: the cycle in which it is left, and the machine.
`fuel` bounds the number of cycles; without fuel, and if an assertion fails, there is no result. -/
def runFrom : ℕ → ℕ → State → Option (ℕ × State)
  | 0, _, _ => none
  | fuel + 1, cycle, s =>
      match cycleOnce isa trace simNumInsn cycle s with
      | none => none
      | some s =>
          if isSimulationDone simNumInsn s then some (cycle, s) else runFrom fuel (cycle + 1) s

/-- The simulation, with a bound on the number of cycles. -/
def runTomasulo (fuel : ℕ) : Option (ℕ × State) := runFrom isa trace simNumInsn fuel 1 State.init

/-- The machine after a number of cycles, if no assertion has failed. -/
def after : ℕ → Option State
  | 0 => some State.init
  | cycle + 1 => (after cycle).bind (cycleOnce isa trace simNumInsn (cycle + 1))

end Loop

end Tomasulo
