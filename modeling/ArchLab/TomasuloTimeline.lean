/-
**What happens to an instruction of the Tomasulo machine, and when.**

An instruction that has been fetched is in the queue, in a reservation station or on the bus until
it leaves the machine; there are three ways to leave it, and none of the five stages of a cycle
loses or duplicates an instruction.  This module keeps a ledger of the instructions that have left
(`Tomasulo.departed`) and proves that the ledger and the machine together hold every fetched
instruction exactly once.  It also orders the cycle numbers that the stages note: instructions enter
the queue and the stations in program order, every instruction goes through the stages one after the
other, and no two of them are on the bus in the same cycle.

Main definitions:

* `Tomasulo.Fetched` — the instruction has been fetched, and is not a trap;
* `Tomasulo.State.places` — in how many places of the machine an instruction is;
* `Tomasulo.retired`, `Tomasulo.released`, `Tomasulo.discarded`, `Tomasulo.departed` — the
  instructions that leave the machine;
* `Tomasulo.Timed` — the order of the cycle numbers, as an invariant.

Main results:

* `Tomasulo.places_cdbToRetire`, `Tomasulo.Inv.places_executeToCDB`,
  `Tomasulo.places_issueToExecute`, `Tomasulo.places_dispatchToIssue`,
  `Tomasulo.Inv.places_fetchToDispatch` — the account of each stage;
* `Tomasulo.Timed.cycleOnce` — a cycle keeps the order;
* `Tomasulo.conservation_timeline` — **conservation and timeline** of every run.
-/

import ArchLab.TomasuloRun

set_option relaxedAutoImplicit false
set_option autoImplicit false

namespace Tomasulo

variable {isa : Isa} {prog : ℕ → Instr} {now sent front cycle : ℕ} {s s' : State}

/-! ### What the last three stages do -/

section Frame

theorem Started.tomDispatchCycle (h : Started cycle s s') (j : ℕ) :
    (s'.table j).tomDispatchCycle = (s.table j).tomDispatchCycle := by
  rcases h.table j with e | ⟨_, e⟩ <;> rw [e]

theorem Started.tomIssueCycle (h : Started cycle s s') (j : ℕ) :
    (s'.table j).tomIssueCycle = (s.table j).tomIssueCycle := by
  rcases h.table j with e | ⟨_, e⟩ <;> rw [e]

/-- The third stage does not touch the bus, and notes no cycle but that of the start. -/
theorem issueToExecute_frame (prog : ℕ → Instr) (s : State) (hc : cycle ≠ 0) :
    (issueToExecute prog cycle s).commonDataBus = s.commonDataBus ∧
    (∀ j, ((issueToExecute prog cycle s).table j).tomDispatchCycle =
      (s.table j).tomDispatchCycle) ∧
    ∀ j, ((issueToExecute prog cycle s).table j).tomIssueCycle = (s.table j).tomIssueCycle := by
  have hst : Started cycle s (startAll prog cycle s) := startAll_started hc
  have hbus : (startAll prog cycle s).commonDataBus = s.commonDataBus := by rw [hst.same]
  rw [issueToExecute_eq]
  split
  · exact ⟨hbus, hst.tomDispatchCycle, hst.tomIssueCycle⟩
  · refine ⟨hbus, fun j => ?_, fun j => ?_⟩
    · rw [tomDispatchCycle_broadcastTags, hst.tomDispatchCycle]
    · rw [tomIssueCycle_broadcastTags, hst.tomIssueCycle]

/-- The instruction at the end of the queue has its dispatch cycle already. -/
theorem noteDispatch_of_noted
    (h : ∀ j, s.instrQueue.getLast? = some j → (s.table j).tomDispatchCycle ≠ 0) :
    noteDispatch cycle s = s := by
  unfold noteDispatch
  split
  · rfl
  · next j hj => rw [if_neg (h j hj)]

theorem noteDispatch_of_last {j : ℕ} (hlast : s.instrQueue.getLast? = some j)
    (hj : (s.table j).tomDispatchCycle = 0) :
    noteDispatch cycle s = s.modify j fun p => { p with tomDispatchCycle := cycle } := by
  unfold noteDispatch
  rw [hlast]
  simp only [hj, if_true]

/-- What the fifth stage does: nothing, or the next instruction that is not a trap enters the queue
and gets its dispatch cycle. -/
theorem Inv.fetchToDispatch_cases {trace : List Chunk} {n : ℕ}
    (h : Inv isa (instrAt trace) now sent front s)
    (hfresh : ∀ j, s.fetchIndex < j → (s.table j).tomDispatchCycle = 0)
    (hs : Tomasulo.fetchToDispatch isa trace n cycle s = some s') :
    s' = s ∨ ∃ i, s.fetchIndex < i ∧ isa.isTrap (instrAt trace i).op = false ∧
      (∀ q, s.fetchIndex < q → q < i → isa.isTrap (instrAt trace q).op = true) ∧
      s' = State.modify { s with fetchIndex := i, instrQueue := s.instrQueue ++ [i] } i
        fun p => { p with tomDispatchCycle := cycle } := by
  rw [fetchToDispatch_eq] at hs
  obtain ⟨s₁, hs₁, rfl⟩ := Option.map_eq_some_iff.1 hs
  rcases fetch_cases hs₁ with ⟨_, rfl⟩ | ⟨_, i, hlt, htrap, hq, rfl⟩
  · refine .inl (noteDispatch_of_noted fun j hj => ?_)
    obtain ⟨⟨hle, hle'⟩, htrap⟩ := h.mem_queue.1 (List.mem_of_getLast? hj)
    exact h.dispatched j htrap (h.bounds.1.trans hle) hle'
  · refine .inr ⟨i, hlt, htrap, hq, noteDispatch_of_last ?_ (hfresh i hlt)⟩
    simp

end Frame

/-! ### The ledger -/

section Ledger

variable (isa : Isa) (prog : ℕ → Instr)

/-- The instruction has been fetched, and is not a trap. -/
def Fetched (s : State) (j : ℕ) : Prop :=
  1 ≤ j ∧ j ≤ s.fetchIndex ∧ isa.isTrap (prog j).op = false

instance (s : State) (j : ℕ) : Decidable (Fetched isa prog s j) := by
  unfold Fetched
  infer_instance

/-- In how many places an instruction is: the queue, the reservation stations and the bus. -/
def State.places (s : State) (j : ℕ) : ℕ :=
  s.instrQueue.count j + Slots.count s.reserv j + if s.commonDataBus = some j then 1 else 0

/-- The instruction that retires in `cdbToRetire`. -/
def retired (cycle : ℕ) (s : State) : List ℕ :=
  match s.commonDataBus with
  | none => []
  | some j => if (s.table j).tomCdbCycle < cycle then [j] else []

/-- The instruction in a unit, if it is finished and does not need the bus. -/
def releasedFrom (cycle : ℕ) (s : State) (u : FuncUnit) : Option ℕ :=
  (s.fu u).filter fun j =>
    decide ((s.table j).tomExecuteCycle + u.1.latency ≤ cycle) && !isa.writesCdb (prog j).op

/-- The instructions that `executeToCDB` removes from the machine. -/
def released (cycle : ℕ) (s : State) : List ℕ :=
  if s.commonDataBus = none then (units .INT ++ units .FP).filterMap (releasedFrom isa prog cycle s)
  else []

/-- The instruction that `dispatchToIssue` removes from the queue without putting it into a
station. -/
def discarded (s : State) : List ℕ :=
  match s.instrQueue with
  | [] => []
  | j :: _ => if isa.isBranch (prog j).op ∨ isa.fuKind (prog j).op = none then [j] else []

/-- The instructions that leave the machine in a cycle. -/
def departures (cycle : ℕ) (s : State) : List ℕ :=
  let s₁ := cdbToRetire cycle s
  let s₃ := issueToExecute prog cycle (executeToCDB isa prog cycle s₁)
  retired cycle s ++ released isa prog cycle s₁ ++ discarded isa prog s₃

/-- The instructions that have left the machine after a number of cycles. -/
def departed (trace : List Chunk) (n : ℕ) : ℕ → List ℕ
  | 0 => []
  | k + 1 => departed trace n k ++
      ((after isa trace n k).map (departures isa (instrAt trace) (k + 1))).getD []

end Ledger

/-! ### The account of each stage -/

section Account

/-- An instruction that retires leaves the bus. -/
theorem places_cdbToRetire (cycle : ℕ) (s : State) (j : ℕ) :
    (cdbToRetire cycle s).places j + (retired cycle s).count j = s.places j := by
  cases hb : s.commonDataBus with
  | none => simp [cdbToRetire, retired, hb]
  | some i =>
      by_cases hlt : (s.table i).tomCdbCycle < cycle
      · simp only [cdbToRetire, retired, hb, hlt, if_true, State.places, List.count_singleton,
          Option.some.injEq, beq_iff_eq, reduceCtorEq, if_false, Nat.add_zero]
      · simp [cdbToRetire, retired, hb, hlt]

theorem mem_released {j : ℕ} (hbus : s.commonDataBus = none) :
    j ∈ released isa prog cycle s ↔
      ∃ u, Finished cycle s u j ∧ isa.writesCdb (prog j).op = false := by
  simp only [released, hbus, if_true, List.mem_filterMap, releasedFrom, Option.filter_eq_some_iff,
    Bool.and_eq_true, decide_eq_true_eq, Bool.not_eq_true', Finished, and_assoc]
  refine exists_congr fun u => ?_
  rw [and_iff_right (mem_all_units u)]

/-- No instruction leaves two units. -/
theorem nodup_released (hd : Slots.Distinct s.fu) : (released isa prog cycle s).Nodup := by
  unfold released
  split
  · refine List.Nodup.filterMap (fun u v j hu hv => ?_) nodup_units
    exact hd u v j (Option.filter_eq_some_iff.1 hu).1 (Option.filter_eq_some_iff.1 hv).1
  · exact List.nodup_nil

/-- A finished instruction leaves its station, for the bus or for good. -/
theorem Inv.places_executeToCDB (h : Inv isa prog now sent front s) (cycle : ℕ)
    (hbus : s.commonDataBus = none) (j : ℕ) :
    (executeToCDB isa prog cycle s).places j + (released isa prog cycle s).count j =
      s.places j := by
  have hx : Executed isa prog s cycle (executeToCDB isa prog cycle s) :=
    executeToCDB_spec hbus h.reservKind h.reservDistinct h.fuDistinct
  have hd : Slots.Distinct (executeToCDB isa prog cycle s).reserv :=
    h.reservDistinct.mono hx.reservSub
  generalize executeToCDB isa prog cycle s = s' at hx hd ⊢
  have hstation : ∀ u, Finished cycle s u j → Slots.count s.reserv j = 1 := fun u hu =>
    h.reservDistinct.count_of_holds ((h.fu j).1 ⟨u, hu.1⟩).1
  simp only [State.places, hx.queue, hbus, if_neg (Option.some_ne_none j).symm]
  by_cases hb : s'.commonDataBus = some j
  · -- it goes to the bus
    obtain ⟨u, hu, hw⟩ := hx.bus j hb
    have hgone : ¬ Slots.Holds s'.reserv j := fun hj => ((hx.reserv j).1 hj).2.2 hb
    have hlog : j ∉ released isa prog cycle s := by
      rw [mem_released hbus]
      rintro ⟨_, _, hn⟩
      rw [hw] at hn
      cases hn
    rw [if_pos hb, hstation u hu, Slots.count_of_not_holds hgone,
      List.count_eq_zero_of_not_mem hlog]
  · rw [if_neg hb]
    by_cases hlog : j ∈ released isa prog cycle s
    · -- it leaves the machine
      obtain ⟨u, hu, hw⟩ := (mem_released hbus).1 hlog
      have hgone : ¬ Slots.Holds s'.reserv j := fun hj => ((hx.reserv j).1 hj).2.1 ⟨u, hu, hw⟩
      rw [hstation u hu, Slots.count_of_not_holds hgone,
        List.count_eq_one_of_mem (nodup_released h.fuDistinct) hlog]
    · have hsame : Slots.Holds s'.reserv j ↔ Slots.Holds s.reserv j := by
        rw [hx.reserv]
        exact and_iff_left ⟨fun hf => hlog ((mem_released hbus).2 hf), hb⟩
      have hcount : Slots.count s'.reserv j = Slots.count s.reserv j := by
        by_cases hj : Slots.Holds s.reserv j
        · rw [hd.count_of_holds (hsame.2 hj), h.reservDistinct.count_of_holds hj]
        · rw [Slots.count_of_not_holds fun hj' => hj (hsame.1 hj'), Slots.count_of_not_holds hj]
      rw [hcount, List.count_eq_zero_of_not_mem hlog]

/-- Starting instructions moves nothing. -/
theorem places_issueToExecute (prog : ℕ → Instr) (s : State) (hc : cycle ≠ 0) (j : ℕ) :
    (issueToExecute prog cycle s).places j = s.places j := by
  have hi : Issued prog cycle s (issueToExecute prog cycle s) := issueToExecute_issued hc
  rw [State.places, State.places, hi.queue, hi.reserv, (issueToExecute_frame prog s hc).1]

/-- The head of the queue goes to a station, or leaves the machine. -/
theorem places_dispatchToIssue (isa : Isa) (prog : ℕ → Instr) (cycle : ℕ) (s : State) (j : ℕ) :
    (dispatchToIssue isa prog cycle s).places j + (discarded isa prog s).count j = s.places j := by
  have hcases : Dispatched isa prog cycle s (dispatchToIssue isa prog cycle s) :=
    dispatchToIssue_cases
  generalize dispatchToIssue isa prog cycle s = s' at hcases ⊢
  unfold discarded
  cases hcases with
  | wait hwait =>
      cases hq : s.instrQueue with
      | nil => simp
      | cons i rest =>
          obtain ⟨hb, k, hk, _⟩ := hwait i rest hq
          simp [hb, hk]
  | @discard i rest hq hnot =>
      simp only [State.places, hq, if_pos hnot, List.count_cons, List.count_nil]
      omega
  | @place i rest u hq hb hk hu =>
      have hput : Slots.count (placed prog cycle s u i).reserv j =
          Slots.count s.reserv j + if j = i then 1 else 0 := Slots.count_put hu
      have hkeep : ¬ (isa.isBranch (prog i).op = true ∨ isa.fuKind (prog i).op = none) := by
        simp [hb, hk]
      simp only [State.places, hq, hput, if_neg hkeep, List.count_cons, List.count_nil, beq_iff_eq,
        eq_comm (a := i)]
      change _ + (if s.commonDataBus = some j then 1 else 0) + 0 = _
      omega

/-- What has been fetched when one more instruction has been fetched. -/
theorem fetched_next {i j : ℕ} (hlt : s.fetchIndex < i) (htrap : isa.isTrap (prog i).op = false)
    (hq : ∀ q, s.fetchIndex < q → q < i → isa.isTrap (prog q).op = true)
    (hi : s'.fetchIndex = i) : Fetched isa prog s' j ↔ Fetched isa prog s j ∨ j = i := by
  constructor
  · rintro ⟨h₁, h₂, ht⟩
    by_cases hj : j ≤ s.fetchIndex
    · exact .inl ⟨h₁, hj, ht⟩
    · refine .inr ?_
      by_contra hji
      rw [hq j (by omega) (by omega)] at ht
      cases ht
  · rintro (⟨h₁, h₂, ht⟩ | rfl)
    · exact ⟨h₁, by omega, ht⟩
    · exact ⟨by omega, hi.ge, htrap⟩

/-- What is fetched enters the queue. -/
theorem Inv.places_fetchToDispatch {trace : List Chunk} {n : ℕ}
    (h : Inv isa (instrAt trace) now sent front s)
    (hfresh : ∀ j, s.fetchIndex < j → (s.table j).tomDispatchCycle = 0)
    (hs : Tomasulo.fetchToDispatch isa trace n cycle s = some s') (j : ℕ) :
    s'.places j + (if Fetched isa (instrAt trace) s j then 1 else 0) =
      s.places j + if Fetched isa (instrAt trace) s' j then 1 else 0 := by
  rcases h.fetchToDispatch_cases hfresh hs with rfl | ⟨i, hlt, htrap, hq, he⟩
  · rfl
  · have hi : s'.fetchIndex = i := by rw [he]; rfl
    have hplaces : s'.places j = s.places j + if j = i then 1 else 0 := by
      rw [he]
      change (s.instrQueue ++ [i]).count j + Slots.count s.reserv j +
        (if s.commonDataBus = some j then 1 else 0) = _
      rw [List.count_append, List.count_singleton, State.places]
      simp only [beq_iff_eq, eq_comm (a := i)]
      omega
    have hnew : ¬ Fetched isa (instrAt trace) s i := fun hf => Nat.not_le.2 hlt hf.2.1
    simp only [hplaces, fetched_next hlt htrap hq hi]
    by_cases hji : j = i
    · subst hji
      simp [hnew]
    · simp [hji]

end Account

/-! ### The order of the cycle numbers -/

section Order

/-- **The order of the cycle numbers.**  `d` and `i` are the last cycles in which instructions have
entered the queue and the stations. -/
structure Timed (isa : Isa) (prog : ℕ → Instr) (d i : ℕ) (s : State) : Prop where
  dispatchLe : ∀ j, (s.table j).tomDispatchCycle ≤ d
  dispatchFresh : ∀ j, s.fetchIndex < j → (s.table j).tomDispatchCycle = 0
  dispatch : ∀ j j', Fetched isa prog s j → Fetched isa prog s j' → j < j' →
    (s.table j).tomDispatchCycle < (s.table j').tomDispatchCycle
  issueLe : ∀ j, (s.table j).tomIssueCycle ≤ i
  dispatchIssue : ∀ j, (s.table j).tomIssueCycle ≠ 0 →
    (s.table j).tomDispatchCycle < (s.table j).tomIssueCycle
  issue : ∀ j j', (s.table j').tomIssueCycle ≠ 0 → j < j' →
    (s.table j).tomIssueCycle < (s.table j').tomIssueCycle
  cdb : ∀ j j', (s.table j).tomCdbCycle ≠ 0 →
    (s.table j).tomCdbCycle = (s.table j').tomCdbCycle → j = j'

theorem Timed.init : Timed isa prog 0 0 State.init where
  dispatchLe _ := le_rfl
  dispatchFresh _ _ := rfl
  dispatch _ _ h := by
    have h₁ := h.1
    have h₂ : _ ≤ 0 := h.2.1
    omega
  issueLe _ := le_rfl
  dispatchIssue _ h := absurd rfl h
  issue _ _ h := absurd rfl h
  cdb _ _ h := absurd rfl h

variable {d i : ℕ}

/-- A stage that notes none of these cycles. -/
theorem Timed.congr (h : Timed isa prog d i s) (hf : s'.fetchIndex = s.fetchIndex)
    (hd : ∀ j, (s'.table j).tomDispatchCycle = (s.table j).tomDispatchCycle)
    (hi : ∀ j, (s'.table j).tomIssueCycle = (s.table j).tomIssueCycle)
    (hc : ∀ j j', (s'.table j).tomCdbCycle ≠ 0 →
      (s'.table j).tomCdbCycle = (s'.table j').tomCdbCycle → j = j') :
    Timed isa prog d i s' := by
  refine ⟨fun j => ?_, fun j hj => ?_, fun j j' hj hj' hlt => ?_, fun j => ?_, fun j hj => ?_,
    fun j j' hj' hlt => ?_, hc⟩
  · rw [hd]
    exact h.dispatchLe j
  · rw [hd]
    exact h.dispatchFresh j (hf ▸ hj)
  · rw [hd, hd]
    unfold Fetched at hj hj'
    rw [hf] at hj hj'
    exact h.dispatch j j' hj hj' hlt
  · rw [hi]
    exact h.issueLe j
  · rw [hi] at hj ⊢
    rw [hd]
    exact h.dispatchIssue j hj
  · rw [hi] at hj' ⊢
    rw [hi]
    exact h.issue j j' hj' hlt

/-- The instruction that goes to the bus is the only one of the cycle. -/
theorem Timed.executed (h : Timed isa prog d i s) (hinv : Inv isa prog now sent front s)
    (hx : Executed isa prog s (now + 1) s') : Timed isa prog d i s' := by
  refine h.congr hx.fetchIndex hx.tomDispatchCycle hx.tomIssueCycle fun j j' hj he => ?_
  have hbus : ∀ {a b : ℕ}, s'.commonDataBus = some a →
      (s'.table a).tomCdbCycle = (s'.table b).tomCdbCycle → a = b := by
    intro a b ha hab
    have hb := (hinv.bus_executed hx b).2
    rw [hx.tomCdbCycle_of_bus ha] at hab
    exact Option.some.inj (ha.symm.trans (hb ⟨by omega, hab.symm⟩))
  by_cases hb : s'.commonDataBus = some j
  · exact hbus hb he
  · by_cases hb' : s'.commonDataBus = some j'
    · exact (hbus hb' he.symm).symm
    · rw [hx.tomCdbCycle_of_ne hb] at hj he
      rw [hx.tomCdbCycle_of_ne hb'] at he
      exact h.cdb j j' hj he

/-- The third stage notes none of these cycles. -/
theorem Timed.issueToExecute (h : Timed isa prog d i s) (hc : cycle ≠ 0) :
    Timed isa prog d i (issueToExecute prog cycle s) := by
  have hi : Issued prog cycle s (Tomasulo.issueToExecute prog cycle s) := issueToExecute_issued hc
  obtain ⟨_, hd, hissue⟩ := issueToExecute_frame prog s hc
  refine h.congr hi.fetchIndex hd hissue fun j j' hj he => ?_
  rw [hi.cdb] at hj he
  rw [hi.cdb] at he
  exact h.cdb j j' hj he

/-- An instruction enters a station after all that are before it in the program, and in a later
cycle than the queue. -/
theorem Timed.dispatchToIssue (h : Timed isa prog d d s)
    (hinv : Inv isa prog (d + 1) sent front s) :
    Timed isa prog d (d + 1) (dispatchToIssue isa prog (d + 1) s) := by
  have hcases : Dispatched isa prog (d + 1) s (Tomasulo.dispatchToIssue isa prog (d + 1) s) :=
    dispatchToIssue_cases
  generalize Tomasulo.dispatchToIssue isa prog (d + 1) s = s' at hcases ⊢
  have hle : ∀ j, (s.table j).tomIssueCycle ≤ d + 1 := fun j => (h.issueLe j).trans (Nat.le_succ d)
  cases hcases with
  | wait | discard =>
      exact ⟨h.dispatchLe, h.dispatchFresh, h.dispatch, hle, h.dispatchIssue, h.issue, h.cdb⟩
  | @place j rest u hq hb hk hu =>
      obtain ⟨⟨hfront, _⟩, _⟩ := hinv.head hq
      have hissue : ∀ m, ((placed prog (d + 1) s u j).table m).tomIssueCycle =
          if m = j then d + 1 else (s.table m).tomIssueCycle := by
        intro m
        rw [table_placed]
        split <;> rfl
      have hdispatch : ∀ m, ((placed prog (d + 1) s u j).table m).tomDispatchCycle =
          (s.table m).tomDispatchCycle := by
        intro m
        rw [table_placed]
        split
        · next e => rw [e]; rfl
        · rfl
      have hcdb : ∀ m, ((placed prog (d + 1) s u j).table m).tomCdbCycle =
          (s.table m).tomCdbCycle := by
        intro m
        rw [table_placed]
        split
        · next e => rw [e]; rfl
        · rfl
      -- nothing behind the head of the queue is in a station
      have hbehind : ∀ m, (s.table m).tomIssueCycle ≠ 0 → m < j := by
        intro m hm
        by_contra hge
        exact hm (hinv.fresh m fun hn => by omega).2.1
      refine ⟨fun m => ?_, fun m hm => ?_, fun m m' hm hm' hlt => ?_, fun m => ?_, fun m hm => ?_,
        fun m m' hm' hlt => ?_, fun m m' hm he => ?_⟩
      · exact (hdispatch m).trans_le (h.dispatchLe m)
      · exact (hdispatch m).trans (h.dispatchFresh m hm)
      · have hold := h.dispatch m m' hm hm' hlt
        rw [← hdispatch m, ← hdispatch m'] at hold
        exact hold
      · change ((placed prog (d + 1) s u j).table m).tomIssueCycle ≤ d + 1
        rw [hissue]
        split
        · exact le_rfl
        · exact hle m
      · change ((placed prog (d + 1) s u j).table m).tomIssueCycle ≠ 0 at hm
        change ((placed prog (d + 1) s u j).table m).tomDispatchCycle <
          ((placed prog (d + 1) s u j).table m).tomIssueCycle
        rw [hissue] at hm ⊢
        rw [hdispatch]
        split
        · exact Nat.lt_succ_of_le (h.dispatchLe m)
        · next hne =>
            rw [if_neg hne] at hm
            exact h.dispatchIssue m hm
      · change ((placed prog (d + 1) s u j).table m').tomIssueCycle ≠ 0 at hm'
        change ((placed prog (d + 1) s u j).table m).tomIssueCycle <
          ((placed prog (d + 1) s u j).table m').tomIssueCycle
        rw [hissue] at hm' ⊢
        rw [hissue]
        by_cases hmj' : m' = j
        · rw [if_pos hmj', if_neg (by omega)]
          exact Nat.lt_succ_of_le (h.issueLe m)
        · rw [if_neg hmj'] at hm' ⊢
          have := hbehind m' hm'
          rw [if_neg (by omega)]
          exact h.issue m m' hm' hlt
      · refine h.cdb m m' ?_ ?_
        · rw [← hcdb m]
          exact hm
        · rw [← hcdb m, ← hcdb m']
          exact he

/-- An instruction enters the queue after all that are before it in the program. -/
theorem Timed.fetchToDispatch {trace : List Chunk} {n : ℕ}
    (h : Timed isa (instrAt trace) d (d + 1) s) (hinv : Inv isa (instrAt trace) now sent front s)
    (hs : Tomasulo.fetchToDispatch isa trace n (d + 1) s = some s') :
    Timed isa (instrAt trace) (d + 1) (d + 1) s' := by
  have hle : ∀ j, (s.table j).tomDispatchCycle ≤ d + 1 := fun j =>
    (h.dispatchLe j).trans (Nat.le_succ d)
  rcases hinv.fetchToDispatch_cases h.dispatchFresh hs with rfl | ⟨i, hlt, htrap, hq, rfl⟩
  · exact ⟨hle, h.dispatchFresh, h.dispatch, h.issueLe, h.dispatchIssue, h.issue, h.cdb⟩
  · simp only [State.modify, update_dispatch]
    refine ⟨fun j => ?_, fun j hj => ?_, fun j j' hj hj' hjj => ?_, h.issueLe, fun j hj => ?_,
      h.issue, h.cdb⟩
    · change (if j = i then d + 1 else (s.table j).tomDispatchCycle) ≤ d + 1
      split
      · exact le_rfl
      · exact hle j
    · change i < j at hj
      change (if j = i then d + 1 else (s.table j).tomDispatchCycle) = 0
      rw [if_neg (by omega)]
      exact h.dispatchFresh j (by omega)
    · change (if j = i then d + 1 else (s.table j).tomDispatchCycle) <
        if j' = i then d + 1 else (s.table j').tomDispatchCycle
      have hji : j ≠ i := by
        have hle' : j' ≤ i := hj'.2.1
        omega
      rw [if_neg hji]
      by_cases hji' : j' = i
      · rw [if_pos hji']
        exact Nat.lt_succ_of_le (h.dispatchLe j)
      · rw [if_neg hji']
        exact h.dispatch j j' (((fetched_next hlt htrap hq rfl).1 hj).resolve_right hji)
          (((fetched_next hlt htrap hq rfl).1 hj').resolve_right hji') hjj
    · change (s.table j).tomIssueCycle ≠ 0 at hj
      change (if j = i then d + 1 else (s.table j).tomDispatchCycle) < (s.table j).tomIssueCycle
      have hji : j ≠ i := by
        rintro rfl
        refine hj (hinv.fresh j fun hn => ?_).2.1
        have := hinv.bounds.2
        omega
      rw [if_neg hji]
      exact h.dispatchIssue j hj

/-- **A cycle** keeps the order of the cycle numbers, and every fetched instruction is accounted
for. -/
theorem Timed.cycleOnce {trace : List Chunk} {n : ℕ} (h : Timed isa (instrAt trace) now now s)
    (hinv : Inv isa (instrAt trace) now now front s) (hb : Bus now s)
    (hs : cycleOnce isa trace n (now + 1) s = some s') :
    Timed isa (instrAt trace) (now + 1) (now + 1) s' ∧ ∀ j,
      s'.places j + (departures isa (instrAt trace) (now + 1) s).count j +
        (if Fetched isa (instrAt trace) s j then 1 else 0) =
      s.places j + if Fetched isa (instrAt trace) s' j then 1 else 0 := by
  have hc : now + 1 ≠ 0 := by omega
  have hfree : cdbToRetire (now + 1) s = freed s := commonDataBus_cdbToRetire hb
  have hinv₁ : Inv isa (instrAt trace) now now front (freed s) := hinv.retire
  have hstart : Timed isa (instrAt trace) now now (freed s) :=
    h.congr rfl (fun _ => rfl) (fun _ => rfl) h.cdb
  obtain ⟨hx, hinv₂, hb₂⟩ := hinv.first
  obtain ⟨hinv₃, _⟩ := hinv₂.issueToExecute hb₂
  have h₃ := (hstart.executed hinv₁ hx).issueToExecute hc
  obtain ⟨front', _, hinv₄, hq, _⟩ := hinv₃.dispatchToIssue hc
  have h₄ := h₃.dispatchToIssue hinv₃
  rw [cycleOnce_eq hb] at hs
  refine ⟨h₄.fetchToDispatch hinv₄ hs, fun j => ?_⟩
  -- the accounts of the five stages, added up
  have e₁ := places_cdbToRetire (now + 1) s j
  have e₂ := hinv₁.places_executeToCDB (now + 1) rfl j
  have e₃ := places_issueToExecute (instrAt trace) (drained isa (instrAt trace) (now + 1) s) hc j
  have e₄ := places_dispatchToIssue isa (instrAt trace) (now + 1)
    (Tomasulo.issueToExecute (instrAt trace) (now + 1)
      (drained isa (instrAt trace) (now + 1) s)) j
  have e₅ := hinv₄.places_fetchToDispatch h₄.dispatchFresh hs j
  have hfetched : Fetched isa (instrAt trace)
      (Tomasulo.dispatchToIssue isa (instrAt trace) (now + 1)
        (Tomasulo.issueToExecute (instrAt trace) (now + 1)
          (drained isa (instrAt trace) (now + 1) s))) j ↔ Fetched isa (instrAt trace) s j := by
    unfold Fetched
    rw [hq.fetchIndex, (issueToExecute_issued hc).fetchIndex, hx.fetchIndex]
    rfl
  simp only [hfetched] at e₅
  unfold departures
  simp only [List.count_append]
  rw [hfree] at e₁ ⊢
  change (drained isa (instrAt trace) (now + 1) s).places j + _ = _ at e₂
  change _ + (_ + _ + List.count j (discarded isa (instrAt trace)
    (Tomasulo.issueToExecute (instrAt trace) (now + 1)
      (drained isa (instrAt trace) (now + 1) s)))) + _ = _
  omega

/-- **A run** keeps the order, and the ledger and the machine hold every fetched instruction exactly
once. -/
theorem timed_after {trace : List Chunk} {n : ℕ} (h₀ : ¬ Tracked isa (instrAt trace) 0) {k : ℕ}
    {s : State} (h : after isa trace n k = some s) :
    Timed isa (instrAt trace) k k s ∧ ∀ j, s.places j + (departed isa trace n k).count j =
      if Fetched isa (instrAt trace) s j then 1 else 0 := by
  induction k generalizing s with
  | zero =>
      cases h
      refine ⟨Timed.init, fun j => ?_⟩
      have hnot : ¬ Fetched isa (instrAt trace) State.init j := by
        rintro ⟨h₁, h₂, _⟩
        change j ≤ 0 at h₂
        omega
      have hempty : Slots.count State.init.reserv j = 0 := by
        refine Slots.count_of_not_holds ?_
        rintro ⟨u, hu⟩
        cases hu
      rw [if_neg hnot, State.places, hempty]
      simp [State.init, departed]
  | succ k ih =>
      obtain ⟨s₀, h₀', hs⟩ := Option.bind_eq_some_iff.1 h
      obtain ⟨htime, hcount⟩ := ih h₀'
      obtain ⟨front, hinv, hb⟩ := between_after h₀ h₀'
      obtain ⟨htime', hstep⟩ := htime.cycleOnce hinv hb hs
      refine ⟨htime', fun j => ?_⟩
      have e := hcount j
      have e' := hstep j
      rw [departed, h₀', Option.map_some, Option.getD_some, List.count_append]
      omega

end Order

/-! ### Conservation and timeline -/

/-- **The timeline.**  Instructions enter the queue and the stations in program order, each goes
through the stages one after the other, and writes the bus at the earliest after its latency, in a
cycle of its own. -/
structure Timeline (isa : Isa) (prog : ℕ → Instr) (s : State) : Prop where
  dispatch : ∀ j j', Fetched isa prog s j → Fetched isa prog s j' → j < j' →
    (s.table j).tomDispatchCycle ≠ 0 ∧
      (s.table j).tomDispatchCycle < (s.table j').tomDispatchCycle
  issue : ∀ j j', Tracked isa prog j → Tracked isa prog j' → j < j' →
    (s.table j').tomIssueCycle ≠ 0 →
    (s.table j).tomIssueCycle ≠ 0 ∧ (s.table j).tomIssueCycle < (s.table j').tomIssueCycle
  dispatch_issue : ∀ j, Tracked isa prog j → (s.table j).tomIssueCycle ≠ 0 →
    (s.table j).tomDispatchCycle ≠ 0 ∧ (s.table j).tomDispatchCycle < (s.table j).tomIssueCycle
  issue_execute : ∀ j, Tracked isa prog j → (s.table j).tomExecuteCycle ≠ 0 →
    (s.table j).tomIssueCycle ≠ 0 ∧ (s.table j).tomIssueCycle < (s.table j).tomExecuteCycle
  execute_cdb_int : ∀ j, isa.fuKind (prog j).op = some .INT → (s.table j).tomCdbCycle ≠ 0 →
    (s.table j).tomExecuteCycle ≠ 0 ∧ (s.table j).tomExecuteCycle + 5 ≤ (s.table j).tomCdbCycle
  execute_cdb_fp : ∀ j, isa.fuKind (prog j).op = some .FP → (s.table j).tomCdbCycle ≠ 0 →
    (s.table j).tomExecuteCycle ≠ 0 ∧ (s.table j).tomExecuteCycle + 7 ≤ (s.table j).tomCdbCycle
  cdb : ∀ j j', (s.table j).tomCdbCycle ≠ 0 →
    (s.table j).tomCdbCycle = (s.table j').tomCdbCycle → j = j'

/-- Between two cycles the cycle numbers make a timeline. -/
theorem Timed.timeline {d i : ℕ} (h : Timed isa prog d i s) (hinv : Inv isa prog now sent front s)
    (h₀ : ¬ Tracked isa prog 0) : Timeline isa prog s := by
  have hissued : ∀ j, (s.table j).tomIssueCycle ≠ 0 → j < front := by
    intro j hj
    by_contra hn
    exact hj (hinv.fresh j fun hj => hn hj.2).2.1
  have hwritten : ∀ j k, isa.fuKind (prog j).op = some k → (s.table j).tomCdbCycle ≠ 0 →
      (s.table j).tomExecuteCycle ≠ 0 ∧
        (s.table j).tomExecuteCycle + k.latency ≤ (s.table j).tomCdbCycle := by
    intro j k hk hc
    obtain ⟨_, he, hle, _⟩ := hinv.written j hc
    rw [latency_eq hk] at hle
    exact ⟨he, hle⟩
  refine ⟨fun j j' hj hj' hlt => ⟨?_, h.dispatch j j' hj hj' hlt⟩,
    fun j j' hj _ hlt hne => ⟨?_, ?_⟩,
    fun j hj hne => ⟨?_, h.dispatchIssue j hne⟩, fun j hj hne => ⟨?_, (hinv.started j hne).1⟩,
    fun j => hwritten j .INT, fun j => hwritten j .FP, h.cdb⟩
  · exact hinv.dispatched j hj.2.2 hj.1 hj.2.1
  · exact (hinv.issued j hj (hlt.trans (hissued j' hne))).1
  · exact h.issue j j' hne hlt
  · -- it has left the queue, so it has been fetched
    have hlt := hissued j hne
    have hle := hinv.bounds.2
    refine hinv.dispatched j hj.1 (Nat.one_le_iff_ne_zero.2 ?_) (by omega)
    rintro rfl
    exact h₀ hj
  · refine (hinv.issued j hj ?_).1
    by_contra hn
    exact hne (hinv.fresh j fun hj => hn hj.2).2.2.1

/-- **Conservation and timeline.**  After every cycle, an instruction that has been fetched and has
not left the machine is in exactly one place, and one that has left it is in none and has left it
once; the instructions in the units are distinct, and each of them holds a station of the same kind;
the cycle numbers make a timeline; and the bus is free when `executeToCDB` runs in the next
cycle. -/
theorem conservation_timeline (isa : Isa) (xs : List Instr) {k : ℕ} {s : State}
    (hs : after isa (record xs) xs.length k = some s) :
    (∀ j, s.places j + (departed isa (record xs) xs.length k).count j =
      if Fetched isa (instrAt (record xs)) s j then 1 else 0) ∧
    Slots.Distinct s.fu ∧
    (∀ u j, s.fu u = some j → isa.fuKind (instrAt (record xs) j).op = some u.1 ∧
      ∃ v : Station, v.1 = u.1 ∧ s.reserv v = some j) ∧
    Timeline isa (instrAt (record xs)) s ∧
    (cdbToRetire (k + 1) s).commonDataBus = none := by
  have h₀ : ¬ Tracked isa (instrAt (record xs)) 0 := not_tracked_zero (.inl rfl)
  obtain ⟨htime, hcount⟩ := timed_after h₀ hs
  obtain ⟨front, hinv, hb⟩ := between_after h₀ hs
  refine ⟨hcount, hinv.fuDistinct, fun u j hu => ?_, htime.timeline hinv h₀, ?_⟩
  · have hkind := hinv.fuKind u j hu
    obtain ⟨v, hv⟩ := ((hinv.fu j).1 ⟨u, hu⟩).1
    have hv' := hinv.reservKind v j hv
    rw [hkind] at hv'
    exact ⟨hkind, v, (Option.some.inj hv').symm, hv⟩
  · rw [commonDataBus_cdbToRetire hb]

/-- After 16 cycles of the example the store is in its station, and the other two instructions have
left the machine after having been on the bus in different cycles. -/
theorem conservation_timeline_demo :
    ∃ s, after demoIsa (record demoRun) demoRun.length 16 = some s ∧
    s.places 3 + (departed demoIsa (record demoRun) demoRun.length 16).count 3 = 1 ∧
    (s.table 1).tomCdbCycle ≠ (s.table 2).tomCdbCycle := by
  have hrun : (after demoIsa (record demoRun) demoRun.length 16).map
      (fun s => ((s.table 1).tomCdbCycle, s.fetchIndex)) = some (8, 4) := by decide +kernel
  obtain ⟨s, hs, he⟩ := Option.map_eq_some_iff.1 hrun
  obtain ⟨hcdb, hfetch⟩ := Prod.mk.inj he
  obtain ⟨hcount, _, _, htime, _⟩ := conservation_timeline demoIsa demoRun hs
  have hfetched : Fetched demoIsa (instrAt (record demoRun)) s 3 :=
    ⟨by decide, by omega, by decide +kernel⟩
  refine ⟨s, hs, by rw [hcount, if_pos hfetched], fun h => ?_⟩
  exact absurd (htime.cdb 1 2 (by omega) h) (by decide)

end Tomasulo
