/-
**The invariant of the Tomasulo machine.**

At any time the machine is determined by the times at which the instructions have entered its
stages, and by how far the queue has been emptied.  This module states that as an invariant: which
instructions are in the reservation stations and in the functional units, which tags are in the map
table and with the waiting instructions, and what the queue holds.

The invariant has three parameters, since the stages of one cycle work one after the other.  `front`
is the index from which on instructions have not left the queue; `now` is the last cycle in which
finished instructions have left the functional units; and `sent` is the last cycle in which the tag
on the bus has been broadcast, which is one cycle behind `now` in the middle of a cycle.

Main definitions:

* `Tomasulo.Tracked` — instructions that go through a reservation station;
* `Tomasulo.LastWriter` — the youngest such instruction before an index that writes a register;
* `Tomasulo.Trace` — what a recorded trace guarantees;
* `Tomasulo.Left`, `Tomasulo.Sent` — an instruction has left its station; its tag has been
  broadcast;
* `Tomasulo.Inv` — the invariant.

Main results:

* `Tomasulo.Inv.init` — it holds at the start;
* `Tomasulo.executeToCDB_spec` — what the loop over the functional units does;
* `Tomasulo.Inv.retire`, `Tomasulo.Inv.executed` — the first two stages keep the invariant.
-/

import ArchLab.Tomasulo

set_option relaxedAutoImplicit false
set_option autoImplicit false

namespace Tomasulo

/-! ### Producers -/

section Producers

variable (isa : Isa) (prog : ℕ → Instr)

/-- The instruction is not a trap, not a branch, and uses a functional unit. -/
def Tracked (j : ℕ) : Prop :=
  isa.isTrap (prog j).op = false ∧ isa.isBranch (prog j).op = false ∧
    (isa.usesIntFu (prog j).op = true ∨ isa.usesFpFu (prog j).op = true)

/-- The register is among the outputs of the instruction. -/
def Writes (r : Fin MD_TOTAL_REGS) (j : ℕ) : Prop := ∃ i, (prog j).rOut i = some r

/-- The youngest tracked instruction before an index that writes a register. -/
structure LastWriter (bound : ℕ) (r : Fin MD_TOTAL_REGS) (p : ℕ) : Prop where
  lt : p < bound
  tracked : Tracked isa prog p
  writes : Writes prog r p
  last : ∀ q, p < q → q < bound → Tracked isa prog q → ¬ Writes prog r q

/-- The latency of an instruction. -/
def latency (j : ℕ) : ℕ := ((isa.fuKind (prog j).op).map FuKind.latency).getD 0

/-- What a recorded trace guarantees: the number of a tracked instruction is its index, entry 0 is
no instruction, and an instruction that does not write the bus has no outputs. -/
structure Trace : Prop where
  index : ∀ j, Tracked isa prog j → (prog j).index = j
  zero : ¬ Tracked isa prog 0
  silent : ∀ j, Tracked isa prog j → isa.writesCdb (prog j).op = false → ∀ i, (prog j).rOut i = none

variable {isa prog}

/-- An instruction that writes a register also writes the bus. -/
theorem Trace.writesCdb (ht : Trace isa prog) {bound p : ℕ} {r : Fin MD_TOTAL_REGS}
    (hp : LastWriter isa prog bound r p) : isa.writesCdb (prog p).op = true := by
  by_contra hn
  obtain ⟨i, hi⟩ := hp.writes
  rw [ht.silent p hp.tracked (by simpa using hn) i] at hi
  cases hi

theorem Tracked.fuKind {j : ℕ} (h : Tracked isa prog j) : ∃ k, isa.fuKind (prog j).op = some k := by
  unfold Isa.fuKind
  rcases h.2.2 with hk | hk
  · exact ⟨.INT, by rw [hk, if_pos rfl]⟩
  · by_cases hi : isa.usesIntFu (prog j).op = true
    · exact ⟨.INT, by rw [if_pos hi]⟩
    · exact ⟨.FP, by rw [if_neg hi, if_pos hk]⟩

theorem tracked_of_fuKind {j : ℕ} {k : FuKind} (ht : isa.isTrap (prog j).op = false)
    (hb : isa.isBranch (prog j).op = false) (hk : isa.fuKind (prog j).op = some k) :
    Tracked isa prog j := by
  refine ⟨ht, hb, ?_⟩
  unfold Isa.fuKind at hk
  split at hk
  · next h => exact .inl h
  · split at hk
    · next h => exact .inr h
    · cases hk

theorem latency_eq {j : ℕ} {k : FuKind} (hk : isa.fuKind (prog j).op = some k) :
    latency isa prog j = k.latency := by
  simp [latency, hk]

/-- Between two indices without a tracked instruction nothing is written. -/
theorem LastWriter.congr {a b : ℕ} (hab : a ≤ b) (hno : ∀ q, a ≤ q → q < b → ¬ Tracked isa prog q)
    {r : Fin MD_TOTAL_REGS} {p : ℕ} :
    LastWriter isa prog b r p ↔ LastWriter isa prog a r p := by
  constructor
  · intro h
    refine ⟨?_, h.tracked, h.writes, fun q hp hq => h.last q hp (by omega)⟩
    by_contra hlt
    exact hno p (by omega) h.lt h.tracked
  · intro h
    refine ⟨by have := h.lt; omega, h.tracked, h.writes, fun q hp hq ht => ?_⟩
    by_cases hqa : q < a
    · exact h.last q hp hqa ht
    · exact absurd ht (hno q (by omega) hq)

/-- One more tracked instruction: it is the last to write its outputs. -/
theorem LastWriter.succ {j : ℕ} (hj : Tracked isa prog j) {r : Fin MD_TOTAL_REGS} {p : ℕ} :
    LastWriter isa prog (j + 1) r p ↔
      (Writes prog r j ∧ p = j) ∨ (¬ Writes prog r j ∧ LastWriter isa prog j r p) := by
  constructor
  · intro h
    by_cases hw : Writes prog r j
    · refine .inl ⟨hw, ?_⟩
      by_contra hne
      have hlt := h.lt
      exact h.last j (by omega) (by omega) hj hw
    · refine .inr ⟨hw, ?_, h.tracked, h.writes, fun q hp hq => h.last q hp (by omega)⟩
      have hlt := h.lt
      have hne : p ≠ j := fun e => hw (e ▸ h.writes)
      omega
  · rintro (⟨hw, rfl⟩ | ⟨hw, h⟩)
    · exact ⟨by omega, hj, hw, fun q hp hq => by omega⟩
    · refine ⟨by have := h.lt; omega, h.tracked, h.writes, fun q hp hq ht => ?_⟩
      by_cases hqj : q = j
      · exact hqj ▸ hw
      · exact h.last q hp (by omega) ht

/-- There is only one last writer. -/
theorem LastWriter.unique {bound p q : ℕ} {r : Fin MD_TOTAL_REGS}
    (hp : LastWriter isa prog bound r p) (hq : LastWriter isa prog bound r q) : p = q := by
  rcases Nat.lt_trichotomy p q with hlt | rfl | hlt
  · exact absurd hq.writes (hp.last q hlt hq.lt hq.tracked)
  · rfl
  · exact absurd hp.writes (hq.last p hlt hp.lt hp.tracked)

end Producers

/-! ### The invariant -/

section Invariant

variable (isa : Isa) (prog : ℕ → Instr)

/-- The instruction has left its station: it has written the bus, or it has finished and does not
write it. -/
def Left (now : ℕ) (s : State) (j : ℕ) : Prop :=
  if isa.writesCdb (prog j).op then (s.table j).tomCdbCycle ≠ 0
  else (s.table j).tomExecuteCycle ≠ 0 ∧ (s.table j).tomExecuteCycle + latency isa prog j ≤ now

/-- The tag of the instruction has been broadcast by the end of a cycle. -/
def Sent (cycle : ℕ) (s : State) (j : ℕ) : Prop :=
  (s.table j).tomCdbCycle ≠ 0 ∧ (s.table j).tomCdbCycle ≤ cycle

/-- The instructions that have not left the queue, from an index on. -/
def queued (front fetchIndex : ℕ) : List ℕ :=
  (List.range' front (fetchIndex + 1 - front)).filter fun j => !isa.isTrap (prog j).op

/-- **The invariant.** -/
structure Inv (now sent front : ℕ) (s : State) : Prop where
  bounds : 1 ≤ front ∧ front ≤ s.fetchIndex + 1
  queue : s.instrQueue = queued isa prog front s.fetchIndex
  reservKind : ∀ u j, s.reserv u = some j → isa.fuKind (prog j).op = some u.1
  fuKind : ∀ u j, s.fu u = some j → isa.fuKind (prog j).op = some u.1
  reservDistinct : Slots.Distinct s.reserv
  fuDistinct : Slots.Distinct s.fu
  reserv : ∀ j, Slots.Holds s.reserv j ↔
    (Tracked isa prog j ∧ j < front) ∧ ¬ Left isa prog now s j
  fu : ∀ j, Slots.Holds s.fu j ↔ Slots.Holds s.reserv j ∧ (s.table j).tomExecuteCycle ≠ 0
  map : ∀ r p, s.mapTable r = some p ↔ LastWriter isa prog front r p ∧ ¬ Sent sent s p
  tags : ∀ j, Slots.Holds s.reserv j → (s.table j).tomExecuteCycle = 0 → ∀ i p,
    (s.table j).Q i = some p ↔
      ∃ r, (prog j).rIn i = some r ∧ LastWriter isa prog j r p ∧ ¬ Sent sent s p
  fresh : ∀ j, ¬ (Tracked isa prog j ∧ j < front) → (s.table j).Q = (fun _ => none) ∧
    (s.table j).tomIssueCycle = 0 ∧ (s.table j).tomExecuteCycle = 0 ∧ (s.table j).tomCdbCycle = 0
  dispatched : ∀ j, isa.isTrap (prog j).op = false → 1 ≤ j → j ≤ s.fetchIndex →
    (s.table j).tomDispatchCycle ≠ 0
  issued : ∀ j, Tracked isa prog j → j < front →
    (s.table j).tomIssueCycle ≠ 0 ∧ (s.table j).tomIssueCycle ≤ now
  started : ∀ j, (s.table j).tomExecuteCycle ≠ 0 →
    (s.table j).tomIssueCycle < (s.table j).tomExecuteCycle ∧ (s.table j).tomExecuteCycle ≤ now
  written : ∀ j, (s.table j).tomCdbCycle ≠ 0 → isa.writesCdb (prog j).op = true ∧
    (s.table j).tomExecuteCycle ≠ 0 ∧
    (s.table j).tomExecuteCycle + latency isa prog j ≤ (s.table j).tomCdbCycle ∧
    (s.table j).tomCdbCycle ≤ now
  raw : ∀ j, (s.table j).tomExecuteCycle ≠ 0 → ∀ i r p, (prog j).rIn i = some r →
    LastWriter isa prog j r p →
    (s.table p).tomCdbCycle ≠ 0 ∧ (s.table p).tomCdbCycle < (s.table j).tomExecuteCycle

/-- The bus holds the instruction that has written it in a cycle. -/
def Bus (cycle : ℕ) (s : State) : Prop :=
  ∀ j, s.commonDataBus = some j ↔ (s.table j).tomCdbCycle ≠ 0 ∧ (s.table j).tomCdbCycle = cycle

variable {isa prog}

/-- Before the first cycle the bus is free. -/
theorem Bus.init : Bus 0 State.init := fun _ => ⟨nofun, fun h => absurd h.2 h.1⟩

/-- The invariant holds before the first cycle. -/
theorem Inv.init (h₀ : ¬ Tracked isa prog 0) : Inv isa prog 0 0 1 State.init where
  bounds := ⟨le_rfl, le_rfl⟩
  queue := by simp [State.init, queued]
  reservKind _ _ h := by cases h
  fuKind _ _ h := by cases h
  reservDistinct _ _ _ h := by cases h
  fuDistinct _ _ _ h := by cases h
  reserv j := by
    refine ⟨fun ⟨_, h⟩ => (by cases h), fun ⟨⟨h, hlt⟩, _⟩ => ?_⟩
    obtain rfl : j = 0 := by omega
    exact absurd h h₀
  fu j := ⟨fun ⟨_, h⟩ => (by cases h), fun ⟨_, h⟩ => absurd rfl h⟩
  map r p := by
    refine ⟨fun h => (by cases h), fun ⟨h, _⟩ => ?_⟩
    obtain rfl : p = 0 := by have := h.lt; omega
    exact absurd h.tracked h₀
  tags _ h := by
    obtain ⟨_, h⟩ := h
    cases h
  fresh _ _ := ⟨rfl, rfl, rfl, rfl⟩
  dispatched j _ h₁ h₂ := by
    change j ≤ 0 at h₂
    omega
  issued j h hlt := by
    obtain rfl : j = 0 := by omega
    exact absurd h h₀
  started _ h := absurd rfl h
  written _ h := absurd rfl h
  raw _ h := absurd rfl h

end Invariant

/-! ### The bus becomes free -/

section Retire

variable {isa : Isa} {prog : ℕ → Instr} {now sent front : ℕ} {s : State}

/-- The bus is free in the next cycle. -/
theorem commonDataBus_cdbToRetire (h : Bus now s) :
    cdbToRetire (now + 1) s = { s with commonDataBus := none } := by
  unfold cdbToRetire
  split
  · next hb => rw [← hb]
  · next j hb =>
      have hj := (h j).1 hb
      rw [if_pos (by omega)]

theorem Inv.retire (h : Inv isa prog now sent front s) :
    Inv isa prog now sent front { s with commonDataBus := none } :=
  ⟨h.bounds, h.queue, h.reservKind, h.fuKind, h.reservDistinct, h.fuDistinct, h.reserv, h.fu, h.map,
    h.tags, h.fresh, h.dispatched, h.issued, h.started, h.written, h.raw⟩

end Retire

/-! ### Finished instructions -/

section Execute

variable {isa : Isa} {prog : ℕ → Instr} {s : State} {cycle : ℕ}

theorem mem_stations {u : Station} {k : FuKind} : u ∈ stations k ↔ u.1 = k := by
  obtain ⟨k', i⟩ := u
  simp only [stations, List.mem_map, List.mem_finRange, true_and]
  constructor
  · rintro ⟨j, e⟩
    cases e
    rfl
  · rintro rfl
    exact ⟨i, rfl⟩

theorem mem_units {u : FuncUnit} {k : FuKind} : u ∈ units k ↔ u.1 = k := by
  obtain ⟨k', i⟩ := u
  simp only [units, List.mem_map, List.mem_finRange, true_and]
  constructor
  · rintro ⟨j, e⟩
    cases e
    rfl
  · rintro rfl
    exact ⟨i, rfl⟩

/-- What removing an instruction from its station does: only the stations change, nothing is added,
and the instruction is gone. -/
theorem rmFromRS_spec (inst : ℕ)
    (hkind : ∀ u j, s.reserv u = some j → isa.fuKind (prog j).op = some u.1)
    (hd : Slots.Distinct s.reserv) :
    ∃ a, rmFromRS isa prog inst s = { s with reserv := a } ∧
      (∀ u j, a u = some j → s.reserv u = some j) ∧
      ∀ j, Slots.Holds a j ↔ Slots.Holds s.reserv j ∧ j ≠ inst := by
  have hsame : ¬ Slots.Holds s.reserv inst → ∀ j, Slots.Holds s.reserv j ↔
      Slots.Holds s.reserv j ∧ j ≠ inst := by
    refine fun hn j => ⟨fun hj => ⟨hj, ?_⟩, And.left⟩
    rintro rfl
    exact hn hj
  unfold rmFromRS
  split
  · next hk =>
      refine ⟨s.reserv, rfl, fun _ _ h => h, hsame ?_⟩
      rintro ⟨u, hu⟩
      rw [hkind u inst hu] at hk
      cases hk
  · next k hk =>
      split
      · next hnone =>
          refine ⟨s.reserv, rfl, fun _ _ h => h, hsame ?_⟩
          rintro ⟨u, hu⟩
          have hmem : u ∈ stations k :=
            mem_stations.2 (Option.some.inj ((hkind u inst hu).symm.trans hk))
          have := List.find?_eq_none.1 hnone u hmem
          simp [hu] at this
      · next u hu =>
          have hu' : s.reserv u = some inst := by simpa using List.find?_some hu
          exact ⟨_, rfl, fun _ _ h => Slots.of_clear h, fun j => hd.holds_clear hu'⟩

/-- The instruction in a unit has finished. -/
def Finished (cycle : ℕ) (s : State) (u : FuncUnit) (j : ℕ) : Prop :=
  s.fu u = some j ∧ (s.table j).tomExecuteCycle + u.1.latency ≤ cycle

variable (isa prog cycle s) in
/-- What the loop over the units has done when it has looked at some of them: finished instructions
that do not need the bus are gone, and the oldest one that needs it is the candidate. -/
structure Scanned (us : List FuncUnit) (acc : State × Option (ℕ × FuncUnit)) : Prop where
  rest : acc.1 = { s with reserv := acc.1.reserv, fu := acc.1.fu }
  fu : ∀ u j, acc.1.fu u = some j ↔ s.fu u = some j ∧
    ¬ (u ∈ us ∧ Finished cycle s u j ∧ isa.writesCdb (prog j).op = false)
  reservSub : ∀ u j, acc.1.reserv u = some j → s.reserv u = some j
  reserv : ∀ j, Slots.Holds acc.1.reserv j ↔ Slots.Holds s.reserv j ∧
    ¬ ∃ u ∈ us, Finished cycle s u j ∧ isa.writesCdb (prog j).op = false
  candidate : ∀ j u, acc.2 = some (j, u) →
    u ∈ us ∧ Finished cycle s u j ∧ isa.writesCdb (prog j).op = true
  oldest : ∀ u ∈ us, ∀ j, Finished cycle s u j → isa.writesCdb (prog j).op = true →
    ∃ o v, acc.2 = some (o, v) ∧ (prog o).index ≤ (prog j).index

theorem Scanned.nil : Scanned isa prog s cycle [] (s, none) :=
  ⟨rfl, by simp, fun _ _ h => h, by simp, by simp, by simp⟩

/-- A unit without a finished instruction. -/
theorem Scanned.skip {us : List FuncUnit} {acc : State × Option (ℕ × FuncUnit)} {u : FuncUnit}
    (h : Scanned isa prog s cycle us acc) (hu : ∀ j, ¬ Finished cycle s u j) :
    Scanned isa prog s cycle (us ++ [u]) acc := by
  have hmem : ∀ v j, Finished cycle s v j → (v ∈ us ++ [u] ↔ v ∈ us) := by
    intro v j hv
    rw [List.mem_append, List.mem_singleton]
    refine ⟨fun h => h.resolve_right ?_, .inl⟩
    rintro rfl
    exact hu j hv
  refine ⟨h.rest, fun v j => ?_, h.reservSub, fun j => ?_, fun j v hc => ?_, fun v hv j hf => ?_⟩
  · rw [h.fu]
    refine and_congr_right fun _ => not_congr (and_congr_left fun ⟨hf, _⟩ => (hmem v j hf).symm)
  · rw [h.reserv]
    refine and_congr_right fun _ => not_congr (exists_congr fun v => ?_)
    exact and_congr_left fun ⟨hf, _⟩ => (hmem v j hf).symm
  · obtain ⟨hv, hf, hw⟩ := h.candidate j v hc
    exact ⟨(hmem v j hf).2 hv, hf, hw⟩
  · exact h.oldest v ((hmem v j hf).1 hv) j hf

/-- A unit with a finished instruction that needs the bus. -/
theorem Scanned.offer {us : List FuncUnit} {acc : State × Option (ℕ × FuncUnit)}
    {u : FuncUnit} {j : ℕ} (h : Scanned isa prog s cycle us acc) (hf : Finished cycle s u j)
    (hw : isa.writesCdb (prog j).op = true) {c : Option (ℕ × FuncUnit)}
    (hc : c = some (j, u) ∨ c = acc.2)
    (hold : ∃ o v, c = some (o, v) ∧ (prog o).index ≤ (prog j).index)
    (hmin : ∀ o v, acc.2 = some (o, v) → ∃ o' v', c = some (o', v') ∧
      (prog o').index ≤ (prog o).index) :
    Scanned isa prog s cycle (us ++ [u]) (acc.1, c) := by
  have hone : ∀ v i, Finished cycle s v i → isa.writesCdb (prog i).op = false → v ≠ u := by
    rintro v i hv hi rfl
    rw [Option.some.inj (hv.1.symm.trans hf.1), hw] at hi
    cases hi
  have hmem : ∀ v i, Finished cycle s v i ∧ isa.writesCdb (prog i).op = false →
      (v ∈ us ++ [u] ↔ v ∈ us) := by
    rintro v i ⟨hv, hi⟩
    rw [List.mem_append, List.mem_singleton]
    exact ⟨fun h => h.resolve_right (hone v i hv hi), .inl⟩
  refine ⟨h.rest, fun v i => ?_, h.reservSub, fun i => ?_, fun i v hiv => ?_,
    fun v hv i hi hwi => ?_⟩
  · rw [h.fu]
    exact and_congr_right fun _ => not_congr (and_congr_left fun hi => (hmem v i hi).symm)
  · rw [h.reserv]
    refine and_congr_right fun _ => not_congr (exists_congr fun v => ?_)
    exact and_congr_left fun hi => (hmem v i hi).symm
  · rcases hc with rfl | rfl
    · cases hiv
      exact ⟨by simp, hf, hw⟩
    · obtain ⟨hv, hrest⟩ := h.candidate i v hiv
      exact ⟨List.mem_append_left _ hv, hrest⟩
  · rcases List.mem_append.1 hv with hv | hv
    · obtain ⟨o, v', ho, hle⟩ := h.oldest v hv i hi hwi
      obtain ⟨o', v'', ho', hle'⟩ := hmin o v' ho
      exact ⟨o', v'', ho', hle'.trans hle⟩
    · rw [List.mem_singleton.1 hv] at hi
      rw [Option.some.inj (hi.1.symm.trans hf.1)]
      exact hold

/-- A unit with a finished instruction that leaves the machine. -/
theorem Scanned.leave {us : List FuncUnit} {acc : State × Option (ℕ × FuncUnit)}
    {u : FuncUnit} {j : ℕ} (h : Scanned isa prog s cycle us acc) (hf : Finished cycle s u j)
    (hw : isa.writesCdb (prog j).op = false) (hd : Slots.Distinct s.fu)
    {a : Station → Option ℕ} (hsub : ∀ v i, a v = some i → acc.1.reserv v = some i)
    (ha : ∀ i, Slots.Holds a i ↔ Slots.Holds acc.1.reserv i ∧ i ≠ j) :
    Scanned isa prog s cycle (us ++ [u])
      ({ acc.1 with reserv := a, fu := Function.update acc.1.fu u none }, acc.2) := by
  have hfin : ∀ {v i}, Finished cycle s v i → i = j → v = u := by
    rintro v i hv rfl
    exact hd v u i hv.1 hf.1
  refine ⟨?_, fun v i => ?_, fun v i hv => h.reservSub v i (hsub v i hv), fun i => ?_,
    fun i v hc => ?_, fun v hv i hi hwi => ?_⟩
  · rw [h.rest]
  · change Function.update acc.1.fu u none v = some i ↔ _
    by_cases hv : v = u
    · subst hv
      rw [Function.update_self]
      refine ⟨nofun, fun ⟨hi, hn⟩ => ?_⟩
      rw [Option.some.inj (hi.symm.trans hf.1)] at hn
      exact absurd ⟨by simp, hf, hw⟩ hn
    · rw [Function.update_of_ne hv, h.fu]
      simp [hv]
  · rw [ha, h.reserv, and_assoc]
    refine and_congr_right fun _ => ⟨?_, ?_⟩
    · rintro ⟨hn, hne⟩ ⟨v, hv, hi, hwi⟩
      rcases List.mem_append.1 hv with hv | hv
      · exact hn ⟨v, hv, hi, hwi⟩
      · rw [List.mem_singleton.1 hv] at hi
        exact hne (Option.some.inj (hi.1.symm.trans hf.1))
    · intro hn
      refine ⟨fun ⟨v, hv, hi⟩ => hn ⟨v, List.mem_append_left _ hv, hi⟩, ?_⟩
      rintro rfl
      exact hn ⟨u, by simp, hf, hw⟩
  · obtain ⟨hv, hrest⟩ := h.candidate i v hc
    exact ⟨List.mem_append_left _ hv, hrest⟩
  · rcases List.mem_append.1 hv with hv | hv
    · exact h.oldest v hv i hi hwi
    · rw [List.mem_singleton.1 hv] at hi
      rw [Option.some.inj (hi.1.symm.trans hf.1), hw] at hwi
      cases hwi

/-- One more unit. -/
theorem Scanned.scanUnit {us : List FuncUnit} {acc : State × Option (ℕ × FuncUnit)} {u : FuncUnit}
    (h : Scanned isa prog s cycle us acc) (hu : u ∉ us)
    (hkind : ∀ u j, s.reserv u = some j → isa.fuKind (prog j).op = some u.1)
    (hd : Slots.Distinct s.reserv) (hdfu : Slots.Distinct s.fu) :
    Scanned isa prog s cycle (us ++ [u]) (Tomasulo.scanUnit isa prog cycle acc u) := by
  have hfu : ∀ j, acc.1.fu u = some j ↔ s.fu u = some j := fun j => by simp [h.fu, hu]
  have htab : acc.1.table = s.table := by rw [h.rest]
  unfold Tomasulo.scanUnit
  split
  · next hnone =>
      refine h.skip fun j hf => ?_
      rw [(hfu j).2 hf.1] at hnone
      cases hnone
  · next j hj =>
      have hj' := (hfu j).1 hj
      rw [htab]
      split
      · next hdone =>
          have hf : Finished cycle s u j := ⟨hj', hdone⟩
          split
          · next hw =>
              split
              · next hnone =>
                  refine h.offer hf hw (.inl rfl) ⟨j, u, rfl, le_rfl⟩ fun o v ho => ?_
                  rw [hnone] at ho
                  cases ho
              · next o v ho =>
                  split
                  · next hlt =>
                      refine h.offer hf hw (.inl rfl) ⟨j, u, rfl, le_rfl⟩ fun o' v' ho' => ?_
                      rw [ho] at ho'
                      cases ho'
                      exact ⟨j, u, rfl, hlt.le⟩
                  · next hge =>
                      exact h.offer hf hw (.inr rfl) ⟨o, v, ho, by omega⟩
                        fun o' v' ho' => ⟨o', v', ho', le_rfl⟩
          · next hw =>
              obtain ⟨a, ha, hsub, hholds⟩ := rmFromRS_spec j
                (fun v i hv => hkind v i (h.reservSub v i hv)) (hd.mono h.reservSub)
              rw [ha]
              exact h.leave hf (by simpa using hw) hdfu hsub hholds
      · next hdone =>
          refine h.skip fun i hf => ?_
          rw [Option.some.inj (hf.1.symm.trans hj')] at hf
          exact hdone hf.2

/-- All units. -/
theorem Scanned.foldl (hkind : ∀ u j, s.reserv u = some j → isa.fuKind (prog j).op = some u.1)
    (hd : Slots.Distinct s.reserv) (hdfu : Slots.Distinct s.fu) (us vs : List FuncUnit)
    {acc : State × Option (ℕ × FuncUnit)} (hn : (us ++ vs).Nodup)
    (h : Scanned isa prog s cycle us acc) :
    Scanned isa prog s cycle (us ++ vs) (vs.foldl (Tomasulo.scanUnit isa prog cycle) acc) := by
  induction vs generalizing us acc with
  | nil => simpa using h
  | cons v vs ih =>
      have hv : v ∉ us := fun hv => (List.nodup_append.1 hn).2.2 v hv v (by simp) rfl
      have hnext := ih (us ++ [v]) (by simpa using hn) (h.scanUnit hv hkind hd hdfu)
      simpa using hnext

theorem nodup_units : (units .INT ++ units .FP).Nodup := by decide

theorem mem_all_units (u : FuncUnit) : u ∈ units .INT ++ units .FP := by
  rw [List.mem_append, mem_units, mem_units]
  cases u.1
  · exact .inl rfl
  · exact .inr rfl

variable (isa prog cycle s) in
/-- What `executeToCDB` does with a free bus: finished instructions that do not need the bus are
gone, and so is the oldest one that needs it (if there is one), which is on the bus now. -/
structure Executed (s' : State) : Prop where
  queue : s'.instrQueue = s.instrQueue
  mapTable : s'.mapTable = s.mapTable
  fetchIndex : s'.fetchIndex = s.fetchIndex
  table : ∀ j, s'.table j =
    if s'.commonDataBus = some j then { s.table j with tomCdbCycle := cycle } else s.table j
  reservSub : ∀ u j, s'.reserv u = some j → s.reserv u = some j
  fuSub : ∀ u j, s'.fu u = some j → s.fu u = some j
  reserv : ∀ j, Slots.Holds s'.reserv j ↔ Slots.Holds s.reserv j ∧
    ¬ (∃ u, Finished cycle s u j ∧ isa.writesCdb (prog j).op = false) ∧ s'.commonDataBus ≠ some j
  fu : ∀ j, Slots.Holds s'.fu j ↔ Slots.Holds s.fu j ∧
    ¬ (∃ u, Finished cycle s u j ∧ isa.writesCdb (prog j).op = false) ∧ s'.commonDataBus ≠ some j
  bus : ∀ j, s'.commonDataBus = some j →
    ∃ u, Finished cycle s u j ∧ isa.writesCdb (prog j).op = true
  oldest : ∀ u j, Finished cycle s u j → isa.writesCdb (prog j).op = true →
    ∃ o, s'.commonDataBus = some o ∧ (prog o).index ≤ (prog j).index

/-- Which instructions are left in the units after all have been looked at. -/
theorem Scanned.holds_fu {acc : State × Option (ℕ × FuncUnit)}
    (h : Scanned isa prog s cycle (units .INT ++ units .FP) acc) (hdfu : Slots.Distinct s.fu)
    (j : ℕ) :
    Slots.Holds acc.1.fu j ↔ Slots.Holds s.fu j ∧
      ¬ ∃ u, Finished cycle s u j ∧ isa.writesCdb (prog j).op = false := by
  constructor
  · rintro ⟨u, hu⟩
    obtain ⟨hu, hn⟩ := (h.fu u j).1 hu
    refine ⟨⟨u, hu⟩, fun ⟨v, hv, hw⟩ => hn ?_⟩
    obtain rfl := hdfu v u j hv.1 hu
    exact ⟨mem_all_units v, hv, hw⟩
  · rintro ⟨⟨u, hu⟩, hn⟩
    exact ⟨u, (h.fu u j).2 ⟨hu, fun ⟨_, hv⟩ => hn ⟨u, hv⟩⟩⟩

/-- Which instructions are left in the stations after all units have been looked at. -/
theorem Scanned.holds_reserv {acc : State × Option (ℕ × FuncUnit)}
    (h : Scanned isa prog s cycle (units .INT ++ units .FP) acc) (j : ℕ) :
    Slots.Holds acc.1.reserv j ↔ Slots.Holds s.reserv j ∧
      ¬ ∃ u, Finished cycle s u j ∧ isa.writesCdb (prog j).op = false := by
  rw [h.reserv]
  refine and_congr_right fun _ => not_congr (exists_congr fun u => ?_)
  exact and_iff_right (mem_all_units u)

/-- No instruction needs the bus. -/
theorem Scanned.executed_none {s' : State} (hbus : s.commonDataBus = none)
    (hdfu : Slots.Distinct s.fu)
    (h : Scanned isa prog s cycle (units .INT ++ units .FP) (s', none)) :
    Executed isa prog s cycle s' := by
  have hrest : s' = { s with reserv := s'.reserv, fu := s'.fu } := h.rest
  have hbus' : s'.commonDataBus = none := by rw [hrest]; exact hbus
  refine ⟨by rw [hrest], by rw [hrest], by rw [hrest], fun j => ?_, h.reservSub,
    fun u j hu => ((h.fu u j).1 hu).1, fun j => ?_, fun j => ?_, fun j hj => ?_,
      fun u j hf hw => ?_⟩
  · rw [hbus', if_neg nofun, hrest]
  · rw [hbus', h.holds_reserv j]
    simp
  · rw [hbus', h.holds_fu hdfu j]
    simp
  · rw [hbus'] at hj
    cases hj
  · obtain ⟨o, v, ho, _⟩ := h.oldest u (mem_all_units u) j hf hw
    cases ho

/-- An instruction goes to the bus. -/
theorem Scanned.executed_some {s₁ : State} {j : ℕ} {u : FuncUnit}
    (hkind : ∀ u j, s.reserv u = some j → isa.fuKind (prog j).op = some u.1)
    (hd : Slots.Distinct s.reserv) (hdfu : Slots.Distinct s.fu)
    (h : Scanned isa prog s cycle (units .INT ++ units .FP) (s₁, some (j, u))) :
    Executed isa prog s cycle
      (let s := s₁.modify j fun p => { p with tomCdbCycle := cycle }
       let s := rmFromRS isa prog j { s with commonDataBus := some j }
       { s with fu := Function.update s.fu u none }) := by
  have hrest : s₁ = { s with reserv := s₁.reserv, fu := s₁.fu } := h.rest
  have htab : s₁.table = s.table := by rw [hrest]
  obtain ⟨_, hf, hw⟩ := h.candidate j u rfl
  have hfu : s₁.fu u = some j := (h.fu u j).2 ⟨hf.1, fun ⟨_, _, hn⟩ => by rw [hw] at hn; cases hn⟩
  have hdfu₁ : Slots.Distinct s₁.fu := hdfu.mono fun v i hv => ((h.fu v i).1 hv).1
  obtain ⟨a, ha, hsub, hholds⟩ := rmFromRS_spec (s := { s₁.modify j fun p =>
      { p with tomCdbCycle := cycle } with commonDataBus := some j }) j
    (fun v i hv => hkind v i (h.reservSub v i hv)) (hd.mono h.reservSub)
  simp only [ha]
  refine ⟨?_, ?_, ?_, fun i => ?_, fun v i hv => h.reservSub v i (hsub v i hv),
    fun v i hv => ((h.fu v i).1 (Slots.of_clear hv)).1, fun i => ?_, fun i => ?_, fun i hi => ?_,
    fun v i hv hwi => ?_⟩
  · change s₁.instrQueue = _
    rw [hrest]
  · change s₁.mapTable = _
    rw [hrest]
  · change s₁.fetchIndex = _
    rw [hrest]
  · change Function.update s₁.table j _ i = if some j = some i then _ else _
    rw [htab]
    by_cases hij : i = j
    · subst hij
      rw [Function.update_self, if_pos rfl]
    · rw [Function.update_of_ne hij, if_neg fun e => hij (Option.some.inj e).symm]
  · change Slots.Holds a i ↔ _ ∧ _ ∧ some j ≠ some i
    rw [hholds, ← and_assoc]
    refine and_congr (h.holds_reserv i) ?_
    rw [Ne, Ne, Option.some.injEq, eq_comm]
  · change Slots.Holds (Function.update s₁.fu u none) i ↔ _ ∧ _ ∧ some j ≠ some i
    rw [hdfu₁.holds_clear hfu, ← and_assoc]
    refine and_congr (h.holds_fu hdfu i) ?_
    rw [Ne, Ne, Option.some.injEq, eq_comm]
  · obtain rfl : j = i := Option.some.inj hi
    exact ⟨u, hf, hw⟩
  · obtain ⟨o, w, ho, hle⟩ := h.oldest v (mem_all_units v) i hv hwi
    cases ho
    exact ⟨j, rfl, hle⟩

/-- **The effect of `executeToCDB`.** -/
theorem executeToCDB_spec (hbus : s.commonDataBus = none)
    (hkind : ∀ u j, s.reserv u = some j → isa.fuKind (prog j).op = some u.1)
    (hd : Slots.Distinct s.reserv) (hdfu : Slots.Distinct s.fu) :
    Executed isa prog s cycle (executeToCDB isa prog cycle s) := by
  unfold executeToCDB
  rw [if_pos hbus]
  have hscan : Scanned isa prog s cycle (units .INT ++ units .FP)
      ((units .INT ++ units .FP).foldl (Tomasulo.scanUnit isa prog cycle) (s, none)) :=
    Scanned.foldl hkind hd hdfu [] _ nodup_units Scanned.nil
  split
  · next s' he =>
      rw [he] at hscan
      exact hscan.executed_none hbus hdfu
  · next s₁ j u he =>
      rw [he] at hscan
      exact hscan.executed_some hkind hd hdfu

section Frame

variable {s' : State} (hx : Executed isa prog s cycle s')

include hx

theorem Executed.Q (j : ℕ) : (s'.table j).Q = (s.table j).Q := by
  rw [hx.table]
  split <;> rfl

theorem Executed.tomDispatchCycle (j : ℕ) :
    (s'.table j).tomDispatchCycle = (s.table j).tomDispatchCycle := by
  rw [hx.table]
  split <;> rfl

theorem Executed.tomIssueCycle (j : ℕ) :
    (s'.table j).tomIssueCycle = (s.table j).tomIssueCycle := by
  rw [hx.table]
  split <;> rfl

theorem Executed.tomExecuteCycle (j : ℕ) :
    (s'.table j).tomExecuteCycle = (s.table j).tomExecuteCycle := by
  rw [hx.table]
  split <;> rfl

theorem Executed.tomCdbCycle_of_bus {j : ℕ} (hj : s'.commonDataBus = some j) :
    (s'.table j).tomCdbCycle = cycle := by
  rw [hx.table, if_pos hj]

theorem Executed.tomCdbCycle_of_ne {j : ℕ} (hj : s'.commonDataBus ≠ some j) :
    (s'.table j).tomCdbCycle = (s.table j).tomCdbCycle := by
  rw [hx.table, if_neg hj]

end Frame

section Step

variable {now sent front : ℕ} {s' : State}

/-- The instruction in a unit has started, and has not left the machine. -/
theorem Inv.in_unit (h : Inv isa prog now sent front s) {u : FuncUnit} {j : ℕ}
    (hu : s.fu u = some j) :
    (Tracked isa prog j ∧ j < front) ∧ (s.table j).tomExecuteCycle ≠ 0 ∧
    ¬ Left isa prog now s j := by
  obtain ⟨hr, he⟩ := (h.fu j).1 ⟨u, hu⟩
  obtain ⟨ht, hl⟩ := (h.reserv j).1 hr
  exact ⟨ht, he, hl⟩

/-- What it means that an instruction has finished. -/
theorem Inv.finished_iff (h : Inv isa prog now sent front s) {u : FuncUnit} {j : ℕ} :
    Finished cycle s u j ↔
      s.fu u = some j ∧ (s.table j).tomExecuteCycle + latency isa prog j ≤ cycle := by
  refine and_congr_right fun hu => ?_
  rw [latency_eq (h.fuKind u j hu)]

/-- An instruction that goes to the bus has not been there before. -/
theorem Inv.bus_fresh (h : Inv isa prog now sent front s) (hx : Executed isa prog s cycle s')
    {j : ℕ} (hj : s'.commonDataBus = some j) :
    isa.writesCdb (prog j).op = true ∧ (Tracked isa prog j ∧ j < front) ∧
      (s.table j).tomExecuteCycle ≠ 0 ∧
      (s.table j).tomExecuteCycle + latency isa prog j ≤ cycle ∧ (s.table j).tomCdbCycle = 0 := by
  obtain ⟨u, hf, hw⟩ := hx.bus j hj
  obtain ⟨hu, hle⟩ := h.finished_iff.1 hf
  obtain ⟨ht, he, hl⟩ := h.in_unit hu
  refine ⟨hw, ht, he, hle, ?_⟩
  simpa [Left, hw] using hl

/-- Tags that were broadcast in earlier cycles. -/
theorem Inv.sent_executed (h : Inv isa prog now sent front s)
    (hx : Executed isa prog s (now + 1) s')
    (hs : sent ≤ now) (p : ℕ) : Sent sent s' p ↔ Sent sent s p := by
  unfold Sent
  by_cases hb : s'.commonDataBus = some p
  · have hc := (h.bus_fresh hx hb).2.2.2.2
    rw [hx.tomCdbCycle_of_bus hb]
    omega
  · rw [hx.tomCdbCycle_of_ne hb]

/-- Which instructions leave their stations in this stage. -/
theorem Inv.left_executed (h : Inv isa prog now sent front s)
    (hx : Executed isa prog s (now + 1) s') {j : ℕ} (hj : Tracked isa prog j ∧ j < front) :
    Left isa prog (now + 1) s' j ↔ Left isa prog now s j ∨
      (∃ u, Finished (now + 1) s u j ∧ isa.writesCdb (prog j).op = false) ∨
      s'.commonDataBus = some j := by
  unfold Left
  by_cases hw : isa.writesCdb (prog j).op = true
  · rw [if_pos hw, if_pos hw, hw]
    by_cases hb : s'.commonDataBus = some j
    · rw [hx.tomCdbCycle_of_bus hb]
      simp [hb]
    · rw [hx.tomCdbCycle_of_ne hb]
      simp [hb]
  · have hb : s'.commonDataBus ≠ some j := fun hb => hw (h.bus_fresh hx hb).1
    rw [if_neg hw, if_neg hw, hx.tomExecuteCycle]
    constructor
    · rintro ⟨he, hle⟩
      by_cases hlt : (s.table j).tomExecuteCycle + latency isa prog j ≤ now
      · exact .inl ⟨he, hlt⟩
      · -- it finishes in this cycle, and is in a unit
        have hl : ¬ Left isa prog now s j := by
          simp only [Left, if_neg hw]
          exact fun ⟨_, hle⟩ => hlt hle
        obtain ⟨u, hu⟩ := (h.fu j).2 ⟨(h.reserv j).2 ⟨hj, hl⟩, he⟩
        exact .inr (.inl ⟨u, h.finished_iff.2 ⟨hu, hle⟩, by simpa using hw⟩)
    · rintro (⟨he, hle⟩ | ⟨u, hf, _⟩ | hb')
      · exact ⟨he, by omega⟩
      · obtain ⟨hu, hle⟩ := h.finished_iff.1 hf
        exact ⟨(h.in_unit hu).2.1, hle⟩
      · exact absurd hb' hb

/-- The bus holds what has written it in this cycle. -/
theorem Inv.bus_executed (h : Inv isa prog now sent front s)
    (hx : Executed isa prog s (now + 1) s') :
    Bus (now + 1) s' := by
  intro j
  constructor
  · intro hb
    rw [hx.tomCdbCycle_of_bus hb]
    exact ⟨by omega, rfl⟩
  · rintro ⟨_, hc⟩
    by_contra hb
    rw [hx.tomCdbCycle_of_ne hb] at hc
    have := (h.written j (by omega)).2.2.2
    omega

/-- **The second stage.**  Finished instructions leave the machine or go to the bus. -/
theorem Inv.executed (h : Inv isa prog now sent front s) (hx : Executed isa prog s (now + 1) s')
    (hs : sent ≤ now) : Inv isa prog (now + 1) sent front s' := by
  have hreserv : ∀ j, Slots.Holds s'.reserv j ↔
      (Tracked isa prog j ∧ j < front) ∧ ¬ Left isa prog (now + 1) s' j := by
    intro j
    rw [hx.reserv, h.reserv, and_assoc]
    refine and_congr_right fun hj => ?_
    rw [h.left_executed hx hj, not_or, not_or]
  refine ⟨by rw [hx.fetchIndex]; exact h.bounds, by rw [hx.queue, hx.fetchIndex]; exact h.queue,
    fun u j hu => h.reservKind u j (hx.reservSub u j hu), fun u j hu =>
      h.fuKind u j (hx.fuSub u j hu),
    h.reservDistinct.mono hx.reservSub, h.fuDistinct.mono hx.fuSub, hreserv, fun j => ?_,
    fun r p => ?_, fun j hj he i p => ?_, fun j hj => ?_, fun j ht h₁ h₂ => ?_, fun j ht hj => ?_,
    fun j he => ?_, fun j hc => ?_, fun j he i r p hi hp => ?_⟩
  · rw [hx.fu, hx.reserv, h.fu, hx.tomExecuteCycle]
    tauto
  · rw [hx.mapTable, h.sent_executed hx hs]
    exact h.map r p
  · rw [hx.Q, h.sent_executed hx hs]
    rw [hx.tomExecuteCycle] at he
    exact h.tags j ((hx.reserv j).1 hj).1 he i p
  · have hb : s'.commonDataBus ≠ some j := fun hb => hj (h.bus_fresh hx hb).2.1
    rw [hx.table, if_neg hb]
    exact h.fresh j hj
  · rw [hx.tomDispatchCycle]
    exact h.dispatched j ht h₁ (hx.fetchIndex ▸ h₂)
  · rw [hx.tomIssueCycle]
    exact ⟨(h.issued j ht hj).1, (h.issued j ht hj).2.trans (by omega)⟩
  · rw [hx.tomExecuteCycle] at he ⊢
    rw [hx.tomIssueCycle]
    exact ⟨(h.started j he).1, (h.started j he).2.trans (by omega)⟩
  · rw [hx.tomExecuteCycle]
    by_cases hb : s'.commonDataBus = some j
    · obtain ⟨hw, _, he, hle, _⟩ := h.bus_fresh hx hb
      rw [hx.tomCdbCycle_of_bus hb]
      exact ⟨hw, he, hle, le_rfl⟩
    · rw [hx.tomCdbCycle_of_ne hb] at hc ⊢
      obtain ⟨hw, he, hle, hle'⟩ := h.written j hc
      exact ⟨hw, he, hle, by omega⟩
  · rw [hx.tomExecuteCycle] at he ⊢
    obtain ⟨hc, hlt⟩ := h.raw j he i r p hi hp
    have hb : s'.commonDataBus ≠ some p := fun hb => hc (h.bus_fresh hx hb).2.2.2.2
    rw [hx.tomCdbCycle_of_ne hb]
    exact ⟨hc, hlt⟩

end Step

end Execute

end Tomasulo
