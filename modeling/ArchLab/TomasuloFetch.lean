/-
**Where `fetch` reads the trace.**

`fetch` advances its index before it reads, and it does so as long as the index is at most the
number of recorded instructions; it also goes on while what it has read is a trap.  So the last
instruction that is not a trap is not the last entry that is read: when only traps are left, or
nothing at all, `fetch` reads the entry behind the last recorded one.  That entry is a cleared slot,
unless the recorded instructions fill their chunks exactly; then it is missing, and the assertion in
`get_instr` fails.  This module says exactly when the reads of a run stay inside the trace.

Main definitions:

* `Tomasulo.fetchCalls` — the indices at which `fetch` calls `get_instr`;
* `Tomasulo.RecordedAhead` — if `fetch` is going to read, there is an instruction for it;
* `Tomasulo.FetchesInside` — all reads of a run are inside the trace, and it does not fail.

Main results:

* `Tomasulo.fetchCalls_inside_iff` — when the reads of one `fetch` are inside the trace;
* `Tomasulo.fetch_inside_iff` — **when the reads of a run are**;
* `Tomasulo.not_fetchesInside_of_done` — the reads of a complete run are not;
* `Tomasulo.fetch_outside` — they are not for a trace of one instruction, and a trace of traps that
  fills a chunk makes the first cycle fail.
-/

import ArchLab.TomasuloStatus

set_option relaxedAutoImplicit false
set_option autoImplicit false

namespace Tomasulo

/-! ### The calls of `get_instr` -/

section Calls

variable (isa : Isa) (trace : List Chunk)

/-- The indices at which the loop of `fetch` reads the trace. -/
def skipCalls : ℕ → ℕ → List ℕ
  | 0, _ => []
  | fuel + 1, fetchIndex => (fetchIndex + 1) ::
      match getInstr trace (fetchIndex + 1) with
      | none => []
      | some x => if isa.isTrap x.op then skipCalls fuel (fetchIndex + 1) else []

/-- The indices at which `fetch` reads the trace. -/
def fetchCalls (simNumInsn : ℕ) (s : State) : List ℕ :=
  if s.instrQueue.length < INSTR_QUEUE_SIZE ∧ s.fetchIndex ≤ simNumInsn then
    skipCalls isa trace (trace.length * INSTR_TRACE_SIZE) s.fetchIndex
  else []

variable {isa trace}

/-- The loop does not read behind an instruction that is not a trap. -/
theorem mem_skipCalls {m : ℕ} (hm : isa.isTrap (instrAt trace m).op = false) {fuel fetchIndex i : ℕ}
    (hlt : fetchIndex < m) (hi : i ∈ skipCalls isa trace fuel fetchIndex) :
    fetchIndex < i ∧ i ≤ m := by
  induction fuel generalizing fetchIndex with
  | zero => cases hi
  | succ fuel ih =>
      unfold skipCalls at hi
      rcases List.mem_cons.1 hi with rfl | hi
      · exact ⟨by omega, hlt⟩
      · split at hi
        · cases hi
        · next x hx =>
            split at hi
            · next htrap =>
                have hne : fetchIndex + 1 ≠ m := by
                  rintro rfl
                  rw [instrAt, hx, Option.getD_some, htrap] at hm
                  cases hm
                have hrest := ih (by omega) hi
                omega
            · cases hi

/-- The loop reads on through traps. -/
theorem mem_skipCalls_of_traps {n fuel fetchIndex : ℕ}
    (htraps : ∀ q, fetchIndex < q → q ≤ n → isa.isTrap (instrAt trace q).op = true)
    (hlen : n < trace.length * INSTR_TRACE_SIZE) (hle : fetchIndex ≤ n)
    (hfuel : n - fetchIndex < fuel) : n + 1 ∈ skipCalls isa trace fuel fetchIndex := by
  induction fuel generalizing fetchIndex with
  | zero => omega
  | succ fuel ih =>
      unfold skipCalls
      rcases Nat.eq_or_lt_of_le hle with rfl | hlt
      · exact List.mem_cons_self
      · refine List.mem_cons_of_mem _ ?_
        obtain ⟨x, hx⟩ := Option.isSome_iff_exists.1
          (getInstr_isSome.2 (Nat.lt_of_le_of_lt (show fetchIndex + 1 ≤ n from hlt) hlen))
        have htrap := htraps (fetchIndex + 1) (by omega) hlt
        rw [instrAt, hx, Option.getD_some] at htrap
        simp only [hx, htrap, if_true]
        exact ih (fun q h₁ h₂ => htraps q (by omega) h₂) hlt (by omega)

/-- The loop fails if it reads on through traps and behind the trace. -/
theorem skipTraps_none {n fuel fetchIndex : ℕ}
    (htraps : ∀ q, fetchIndex < q → q ≤ n → isa.isTrap (instrAt trace q).op = true)
    (hend : getInstr trace (n + 1) = none) (hle : fetchIndex ≤ n) :
    skipTraps isa trace fuel fetchIndex = none := by
  induction fuel generalizing fetchIndex with
  | zero => rfl
  | succ fuel ih =>
      unfold skipTraps
      split
      · rfl
      · next x hx =>
          rcases Nat.eq_or_lt_of_le hle with rfl | hlt
          · rw [hend] at hx
            cases hx
          · have htrap := htraps (fetchIndex + 1) (by omega) hlt
            rw [instrAt, hx, Option.getD_some] at htrap
            rw [if_pos htrap]
            exact ih (fun q h₁ h₂ => htraps q (by omega) h₂) hlt

end Calls

/-! ### Reads inside the trace -/

section Inside

variable (isa : Isa) (xs : List Instr)

/-- If there is room in the queue and the index is not behind the trace, a recorded instruction that
is not a trap is ahead of it. -/
def RecordedAhead (s : State) : Prop :=
  s.instrQueue.length < INSTR_QUEUE_SIZE → s.fetchIndex ≤ xs.length →
    ∃ j, s.fetchIndex < j ∧ j ≤ xs.length ∧ isa.isTrap (instrAt (record xs) j).op = false

/-- In the first cycles of a run all reads of `fetch` are inside the trace; so the run does not
fail, and there are only recorded instructions in the queue. -/
structure FetchesInside (cycles : ℕ) : Prop where
  calls : ∀ k < cycles, ∀ s, afterStage isa (record xs) xs.length k .dispatch = some s →
    ∀ i ∈ fetchCalls isa (record xs) xs.length s, 1 ≤ i ∧ i ≤ xs.length
  machine : ∀ k ≤ cycles, ∃ s, after isa (record xs) xs.length k = some s ∧
    ∀ j ∈ s.instrQueue, 1 ≤ j ∧ j ≤ xs.length

variable {isa xs} {s : State}

/-- The trace has an entry for each recorded instruction. -/
theorem length_lt_record : xs.length < (record xs).length * INSTR_TRACE_SIZE := by
  rw [← getInstr_isSome, (stored_record xs).getInstr (by simp [entries])]
  simp [entries]

/-- **The reads of one `fetch`** are inside the trace exactly if there is an instruction for it. -/
theorem fetchCalls_inside_iff : (∀ i ∈ fetchCalls isa (record xs) xs.length s,
    1 ≤ i ∧ i ≤ xs.length) ↔ RecordedAhead isa xs s := by
  have hlen : xs.length < (record xs).length * INSTR_TRACE_SIZE := length_lt_record
  constructor
  · intro hcalls hroom hle
    by_contra hnone
    have htraps : ∀ q, s.fetchIndex < q → q ≤ xs.length →
        isa.isTrap (instrAt (record xs) q).op = true := by
      intro q h₁ h₂
      by_contra ht
      exact hnone ⟨q, h₁, h₂, by simpa using ht⟩
    have hmem : xs.length + 1 ∈ fetchCalls isa (record xs) xs.length s := by
      rw [fetchCalls, if_pos ⟨hroom, hle⟩]
      exact mem_skipCalls_of_traps htraps hlen hle (by omega)
    have := (hcalls _ hmem).2
    omega
  · intro hahead i hi
    unfold fetchCalls at hi
    split at hi
    · next hroom =>
        obtain ⟨j, hlt, hle, htrap⟩ := hahead hroom.1 hroom.2
        have hij := mem_skipCalls htrap hlt hi
        omega
    · cases hi

/-- With an instruction ahead, `fetch` does not fail, and stays inside the trace. -/
theorem RecordedAhead.fetch (h : RecordedAhead isa xs s) (hle : s.fetchIndex ≤ xs.length) :
    ∃ s', fetch isa (record xs) xs.length s = some s' ∧ s'.fetchIndex ≤ xs.length := by
  have hlen : xs.length < (record xs).length * INSTR_TRACE_SIZE := length_lt_record
  unfold Tomasulo.fetch
  split
  · next hroom =>
      obtain ⟨j, hlt, hj, htrap⟩ := h hroom.1 hroom.2
      obtain ⟨i, hi, he⟩ : ∃ i ≤ j, skipTraps isa (record xs)
          ((record xs).length * INSTR_TRACE_SIZE) s.fetchIndex = some i :=
        skipTraps_isSome htrap (by omega) hlt (by omega)
      rw [he]
      exact ⟨_, rfl, hi.trans hj⟩
  · exact ⟨s, rfl, hle⟩

/-- The last stage of a cycle finds the index where it was. -/
theorem fetch_stage {trace : List Chunk} {n k front : ℕ} {s₀ : State}
    (h : Inv isa (instrAt trace) k k front s₀) (hb : Bus k s₀)
    (hs : throughStage isa trace n (k + 1) s₀ .dispatch = some s) :
    s.fetchIndex = s₀.fetchIndex ∧ (s₀.instrQueue = [] → s.instrQueue = []) ∧
      cycleOnce isa trace n (k + 1) s₀ = fetchToDispatch isa trace n (k + 1) s := by
  obtain ⟨hx, h₂, hb₂⟩ := h.first
  obtain ⟨h₃, _⟩ := h₂.issueToExecute hb₂
  obtain ⟨_, _, _, hq, _⟩ := h₃.dispatchToIssue (by omega)
  have hi : Issued (instrAt trace) (k + 1) (drained isa (instrAt trace) (k + 1) s₀) _ :=
    issueToExecute_issued (by omega)
  rw [throughStage_dispatch hb] at hs
  cases hs
  refine ⟨hq.fetchIndex.trans (hi.fetchIndex.trans hx.fetchIndex), fun hnil => ?_, cycleOnce_eq hb⟩
  exact hq.queue (hi.queue.trans (hx.queue.trans hnil))

/-- A run whose fetches all find an instruction goes on inside the trace. -/
theorem after_inside {cycles : ℕ} (hahead : ∀ k < cycles, ∀ s,
    afterStage isa (record xs) xs.length k .dispatch = some s → RecordedAhead isa xs s) {k : ℕ}
    (hk : k ≤ cycles) : ∃ s, after isa (record xs) xs.length k = some s ∧
      s.fetchIndex ≤ xs.length := by
  induction k with
  | zero => exact ⟨_, rfl, Nat.zero_le _⟩
  | succ k ih =>
      obtain ⟨s, hs, hle⟩ := ih (by omega)
      obtain ⟨front, h, hb⟩ := between_after (not_tracked_zero (.inl rfl)) hs
      have hdispatch : throughStage isa (record xs) xs.length (k + 1) s .dispatch = some _ :=
        throughStage_dispatch hb
      obtain ⟨hindex, _, hcycle⟩ := fetch_stage h hb hdispatch
      have hstage := hahead k hk _ (by rw [afterStage, hs]; exact hdispatch)
      obtain ⟨s', hs', hle'⟩ := hstage.fetch (hindex.trans_le hle)
      obtain ⟨d, hd, _⟩ := noteDispatch_eq (k + 1) s'
      refine ⟨noteDispatch (k + 1) s', ?_, by rw [hd]; exact hle'⟩
      rw [after, hs, Option.bind_some, hcycle, fetchToDispatch_eq, hs']
      rfl

end Inside

/-- **When the reads of a run are inside the trace.**  All reads of `fetch` in a number of cycles
are at recorded instructions exactly if each `fetch` that reads has a recorded instruction that is
not a trap ahead; and then the assertion in `get_instr` does not fail, and only recorded
instructions enter the queue. -/
theorem fetch_inside_iff (isa : Isa) (xs : List Instr) (cycles : ℕ) :
    FetchesInside isa xs cycles ↔ ∀ k < cycles, ∀ s,
      afterStage isa (record xs) xs.length k .dispatch = some s → RecordedAhead isa xs s := by
  constructor
  · intro h k hk s hs
    exact fetchCalls_inside_iff.1 (h.calls k hk s hs)
  · intro hahead
    refine ⟨fun k hk s hs => fetchCalls_inside_iff.2 (hahead k hk s hs), fun k hk => ?_⟩
    obtain ⟨s, hs, hle⟩ := after_inside hahead hk
    obtain ⟨front, h, _⟩ := between_after (not_tracked_zero (.inl rfl)) hs
    refine ⟨s, hs, fun j hj => ?_⟩
    obtain ⟨⟨h₁, h₂⟩, _⟩ := h.mem_queue.1 hj
    exact ⟨h.bounds.1.trans h₁, h₂.trans hle⟩

/-! ### Reads outside the trace -/

section Outside

variable {isa : Isa} {xs : List Instr}

/-- **Every complete run reads outside the trace**: the loop of `runTomasulo` is left only when the
index is behind the last recorded instruction. -/
theorem not_fetchesInside_of_done {fuel cycle : ℕ} {s : State}
    (h : runTomasulo isa (record xs) xs.length fuel = some (cycle, s)) :
    ¬ FetchesInside isa xs cycle := by
  intro hin
  have hinit : after isa (record xs) xs.length 0 = some State.init := rfl
  obtain ⟨hs, hdone⟩ := runFrom_after hinit h
  have hlt := (of_decide_eq_true hdone).1
  have hahead : ∀ k < cycle, ∀ s, afterStage isa (record xs) xs.length k .dispatch = some s →
      RecordedAhead isa xs s := fun k hk s hs => fetchCalls_inside_iff.1 (hin.calls k hk s hs)
  obtain ⟨s', hs', hle⟩ := after_inside hahead le_rfl
  rw [hs] at hs'
  cases hs'
  omega

/-- A trace that fits into one chunk has one chunk. -/
theorem foldl_putInstr_singleton {c : Chunk} (h : c.size + xs.length ≤ INSTR_TRACE_SIZE) :
    ∃ c', xs.foldl putInstr [c] = [c'] := by
  induction xs generalizing c with
  | nil => exact ⟨c, rfl⟩
  | cons x xs ih =>
      rw [List.length_cons] at h
      have hput : putInstr [c] x = [c.push x] := if_neg (by omega)
      have hsize : (c.push x).size = c.size + 1 := rfl
      rw [List.foldl_cons, hput]
      exact ih (by omega)

/-- Behind a full first chunk there is nothing. -/
theorem getInstr_record_full (h : xs.length + 1 = INSTR_TRACE_SIZE) :
    getInstr (record xs) (xs.length + 1) = none := by
  obtain ⟨c, hc⟩ : ∃ c, ((xs.zipIdx 1).map fun p => { p.1 with index := p.2 }).foldl putInstr
      initTrace = [c] := by
    refine foldl_putInstr_singleton ?_
    rw [List.length_map, List.length_zipIdx]
    exact (Nat.add_comm 1 xs.length).trans_le h.le
  rw [List.foldl_map] at hc
  change record xs = [c] at hc
  rw [hc, h, getInstr, dif_neg (lt_irrefl _)]
  rfl

/-- If only traps are recorded, and they fill the first chunk, the first cycle fails. -/
theorem after_one_of_traps (htraps : ∀ x ∈ xs, isa.isTrap x.op = true)
    (hfull : xs.length + 1 = INSTR_TRACE_SIZE) : after isa (record xs) xs.length 1 = none := by
  have h : Inv isa (instrAt (record xs)) 0 0 1 State.init := Inv.init (not_tracked_zero (.inl rfl))
  obtain ⟨s, hs⟩ : ∃ s, throughStage isa (record xs) xs.length 1 State.init .dispatch = some s :=
    ⟨_, rfl⟩
  obtain ⟨hindex, hqueue, hcycle⟩ := fetch_stage h Bus.init hs
  have hall : ∀ q, s.fetchIndex < q → q ≤ xs.length →
      isa.isTrap (instrAt (record xs) q).op = true := by
    intro q h₁ h₂
    obtain ⟨i, rfl⟩ : ∃ i, q = i + 1 := ⟨q - 1, by omega⟩
    have hi : i < xs.length := h₂
    have htrap := htraps xs[i] (List.getElem_mem hi)
    rw [instrAt_record hi]
    exact htrap
  have hle : s.fetchIndex ≤ xs.length := hindex.trans_le (Nat.zero_le _)
  have hfail : fetch isa (record xs) xs.length s = none := by
    rw [fetch, if_pos ⟨by rw [hqueue rfl]; decide, hle⟩,
      skipTraps_none hall (getInstr_record_full hfull) hle]
    rfl
  rw [after, after, Option.bind_some, hcycle, fetchToDispatch_eq, hfail]
  rfl

end Outside

/-- A target whose only opcode is that of traps. -/
def trapIsa : Isa := ⟨fun op => if op = 1 then F_TRAP else 0, rfl⟩

/-- **Reads outside the trace.**  With one recorded instruction the second cycle reads entry 2; and
with as many traps as fit into the first chunk the first cycle does not get through. -/
theorem fetch_outside :
    ¬ FetchesInside demoIsa (demoRun.take 1) 2 ∧
    after trapIsa (record (List.replicate 16383 ⟨0, fun _ => none, fun _ => none, 1⟩)) 16383 1 =
      none := by
  constructor
  · intro h
    have hread : (afterStage demoIsa (record (demoRun.take 1)) 1 1 .dispatch).map
        (fetchCalls demoIsa (record (demoRun.take 1)) 1) = some [2] := by decide +kernel
    obtain ⟨s, hs, hcalls⟩ := Option.map_eq_some_iff.1 hread
    have hmem : 2 ∈ fetchCalls demoIsa (record (demoRun.take 1)) 1 s := by
      rw [hcalls]
      exact List.mem_singleton_self 2
    exact absurd (h.calls 1 (by decide) s hs 2 hmem).2 (by decide)
  · have htraps : ∀ x ∈ List.replicate 16383 (⟨0, fun _ => none, fun _ => none, 1⟩ : Instr),
        trapIsa.isTrap x.op = true := by
      intro x hx
      rw [List.eq_of_mem_replicate hx]
      rfl
    have hlen := List.length_replicate (n := 16383)
      (a := (⟨0, fun _ => none, fun _ => none, 1⟩ : Instr))
    have hnone := after_one_of_traps htraps (by rw [hlen]; rfl)
    rwa [hlen] at hnone

end Tomasulo
