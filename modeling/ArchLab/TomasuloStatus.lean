/-
**The register status of the Tomasulo machine.**

The map table says which instruction will produce the value of a register, and the tags of a waiting
instruction say which producers it waits for.  Both are entered when an instruction goes to a
reservation station and cleared when the tag of the producer is broadcast.  This module states what
they mean after each of the five stages of a cycle: in the middle of a cycle the tag on the bus may
not have been broadcast yet, and the instruction at the head of the queue may have been entered
already.

Main definitions:

* `Tomasulo.Stage`, `Tomasulo.afterStage` — the stages of a cycle, and the machine after one of
  them;
* `Tomasulo.Broadcast`, `Tomasulo.BroadcastBy` — the tag of an instruction is broadcast in a cycle,
  or has been broadcast by the end of a stage;
* `Tomasulo.YoungestPlaced` — the youngest writer of a register that has been put into a station.

Main results:

* `Tomasulo.stage_inv` — the invariant after each stage;
* `Tomasulo.broadcastBy_iff` — the cycle numbers tell which tags have been broadcast;
* `Tomasulo.register_status` — **the meaning of the map table and of the tags**.
-/

import ArchLab.TomasuloRun

set_option relaxedAutoImplicit false
set_option autoImplicit false

namespace Tomasulo

/-! ### The stages of a cycle -/

/-- The stages of a cycle, in the order in which they run. -/
inductive Stage where
  | retire | execute | issue | dispatch | fetch
  deriving DecidableEq

section Stages

variable (isa : Isa) (trace : List Chunk) (simNumInsn : ℕ)

/-- A cycle, up to the end of a stage. -/
def throughStage (cycle : ℕ) (s : State) : Stage → Option State
  | .retire => some (cdbToRetire cycle s)
  | .execute => some (executeToCDB isa (instrAt trace) cycle (cdbToRetire cycle s))
  | .issue => some (issueToExecute (instrAt trace) cycle
      (executeToCDB isa (instrAt trace) cycle (cdbToRetire cycle s)))
  | .dispatch => some (dispatchToIssue isa (instrAt trace) cycle
      (issueToExecute (instrAt trace) cycle
        (executeToCDB isa (instrAt trace) cycle (cdbToRetire cycle s))))
  | .fetch => cycleOnce isa trace simNumInsn cycle s

/-- The machine after some cycles and a stage of the next one. -/
def afterStage (k : ℕ) (st : Stage) : Option State :=
  (after isa trace simNumInsn k).bind fun s => throughStage isa trace simNumInsn (k + 1) s st

/-- In the cycle after `k` others, `issueToExecute` finds the instruction on the bus, and broadcasts
its tag. -/
def Broadcast (k p : ℕ) : Prop :=
  ∃ s, afterStage isa trace simNumInsn k .execute = some s ∧ s.commonDataBus = some p

/-- The tag has been broadcast in an earlier cycle, or in this one if `issueToExecute` has run. -/
def BroadcastBy (k : ℕ) (st : Stage) (p : ℕ) : Prop :=
  ∃ c, (c < k ∨ c = k ∧ st ≠ .retire ∧ st ≠ .execute) ∧ Broadcast isa trace simNumInsn c p

end Stages

/-- The last cycle in which finished instructions have left the units, after a stage. -/
def Stage.now (k : ℕ) : Stage → ℕ
  | .retire => k
  | _ => k + 1

/-- The last cycle in which a tag has been broadcast, after a stage. -/
def Stage.sent (k : ℕ) : Stage → ℕ
  | .retire | .execute => k
  | _ => k + 1

variable {isa : Isa} {trace : List Chunk} {n k front : ℕ} {s s' : State} {st : Stage}

/-! ### The invariant after each stage -/

section Invariant

/-! The stages in terms of the state in which `executeToCDB` works and the one that it leaves. -/

theorem throughStage_retire (hb : Bus k s) :
    throughStage isa trace n (k + 1) s .retire = some (freed s) := by
  rw [throughStage, commonDataBus_cdbToRetire hb]
  rfl

theorem throughStage_execute (hb : Bus k s) : throughStage isa trace n (k + 1) s .execute =
    some (drained isa (instrAt trace) (k + 1) s) := by
  rw [throughStage, commonDataBus_cdbToRetire hb]
  rfl

theorem throughStage_issue (hb : Bus k s) : throughStage isa trace n (k + 1) s .issue =
    some (issueToExecute (instrAt trace) (k + 1) (drained isa (instrAt trace) (k + 1) s)) := by
  rw [throughStage, commonDataBus_cdbToRetire hb]
  rfl

theorem throughStage_dispatch (hb : Bus k s) : throughStage isa trace n (k + 1) s .dispatch =
    some (dispatchToIssue isa (instrAt trace) (k + 1)
      (issueToExecute (instrAt trace) (k + 1) (drained isa (instrAt trace) (k + 1) s))) := by
  rw [throughStage, commonDataBus_cdbToRetire hb]
  rfl

/-- **The invariant after each stage.** -/
theorem stage_inv (h : Inv isa (instrAt trace) k k front s) (hb : Bus k s)
    (hs : throughStage isa trace n (k + 1) s st = some s') :
    (∃ front', Inv isa (instrAt trace) (st.now k) (st.sent k) front' s') ∧
      if st = .retire then s'.commonDataBus = none else Bus (k + 1) s' := by
  obtain ⟨_, h₂, hb₂⟩ := h.first
  obtain ⟨h₃, hb₃⟩ := h₂.issueToExecute hb₂
  obtain ⟨front', _, h₄, hq, _⟩ := h₃.dispatchToIssue (by omega)
  cases st with
  | fetch =>
      obtain ⟨front'', _, h₅, hb₅⟩ := h.cycleOnce hb hs
      exact ⟨⟨front'', h₅⟩, hb₅⟩
  | retire =>
      rw [throughStage_retire hb] at hs
      cases hs
      exact ⟨⟨front, h.retire⟩, rfl⟩
  | execute =>
      rw [throughStage_execute hb] at hs
      cases hs
      exact ⟨⟨front, h₂⟩, hb₂⟩
  | issue =>
      rw [throughStage_issue hb] at hs
      cases hs
      exact ⟨⟨front, h₃⟩, hb₃⟩
  | dispatch =>
      rw [throughStage_dispatch hb] at hs
      cases hs
      exact ⟨⟨front', h₄⟩, hq.bus_iff hb₃⟩

end Invariant

/-! ### Tags that have been broadcast -/

section Broadcast

/-- What is broadcast in a cycle. -/
theorem broadcast_iff (h : Inv isa (instrAt trace) k k front s) (hb : Bus k s)
    (hs : after isa trace n k = some s) {p : ℕ} : Broadcast isa trace n k p ↔
      ((drained isa (instrAt trace) (k + 1) s).table p).tomCdbCycle = k + 1 := by
  obtain ⟨_, _, hb₂⟩ := h.first
  rw [Broadcast, afterStage, hs, Option.bind_some, throughStage_execute hb]
  simp only [Option.some.injEq, exists_eq_left', hb₂ p]
  omega

/-- After the execute stage no more bus cycles are noted in a cycle. -/
theorem tomCdbCycle_throughStage (h : Inv isa (instrAt trace) k k front s) (hb : Bus k s)
    (hst : st ≠ .retire) (hs : throughStage isa trace n (k + 1) s st = some s') (p : ℕ) :
    (s'.table p).tomCdbCycle =
      ((drained isa (instrAt trace) (k + 1) s).table p).tomCdbCycle := by
  obtain ⟨_, h₂, hb₂⟩ := h.first
  obtain ⟨h₃, hb₃⟩ := h₂.issueToExecute hb₂
  obtain ⟨_, _, h₄, hq, _⟩ := h₃.dispatchToIssue (by omega)
  have hi : Issued (instrAt trace) (k + 1) (drained isa (instrAt trace) (k + 1) s) _ :=
    issueToExecute_issued (by omega)
  cases st with
  | retire => exact absurd rfl hst
  | execute =>
      rw [throughStage_execute hb] at hs
      cases hs
      rfl
  | issue =>
      rw [throughStage_issue hb] at hs
      cases hs
      exact hi.cdb p
  | dispatch =>
      rw [throughStage_dispatch hb] at hs
      cases hs
      exact (hq.cdb p).trans (hi.cdb p)
  | fetch =>
      rw [throughStage, cycleOnce_eq hb] at hs
      obtain ⟨_, _, _, hcdb, _⟩ := h₄.fetchToDispatch (by omega) hs
      exact (hcdb p).trans ((hq.cdb p).trans (hi.cdb p))

/-- The bus cycles of earlier cycles stay. -/
theorem tomCdbCycle_drained (h : Inv isa (instrAt trace) k k front s) {c p : ℕ} (hc : c < k) :
    ((drained isa (instrAt trace) (k + 1) s).table p).tomCdbCycle = c + 1 ↔
      (s.table p).tomCdbCycle = c + 1 := by
  obtain ⟨hx, _⟩ := h.first
  by_cases hp : (drained isa (instrAt trace) (k + 1) s).commonDataBus = some p
  · have hfresh : (s.table p).tomCdbCycle = 0 := (h.retire.bus_fresh hx hp).2.2.2.2
    rw [hx.tomCdbCycle_of_bus hp, hfresh]
    omega
  · rw [hx.tomCdbCycle_of_ne hp]
    rfl

/-- **The bus cycles** tell in which cycle a tag has been broadcast. -/
theorem tomCdbCycle_after (h₀ : ¬ Tracked isa (instrAt trace) 0)
    (hs : after isa trace n k = some s) {c p : ℕ} (hc : c < k) :
    (s.table p).tomCdbCycle = c + 1 ↔ Broadcast isa trace n c p := by
  induction k generalizing s with
  | zero => omega
  | succ k ih =>
      obtain ⟨s₀, hs₀, hstep⟩ := Option.bind_eq_some_iff.1 hs
      obtain ⟨front, h, hb⟩ := between_after h₀ hs₀
      have hfetch : throughStage isa trace n (k + 1) s₀ .fetch = some s := hstep
      rw [tomCdbCycle_throughStage h hb (by decide) hfetch]
      rcases Nat.lt_succ_iff_lt_or_eq.1 hc with hlt | rfl
      · rw [tomCdbCycle_drained h hlt]
        exact ih hs₀ hlt
      · exact (broadcast_iff h hb hs₀).symm

/-- Which tags have been broadcast, after each stage. -/
theorem broadcastBy_iff (h₀ : ¬ Tracked isa (instrAt trace) 0)
    (hs : after isa trace n k = some s) (hst : throughStage isa trace n (k + 1) s st = some s')
    (p : ℕ) : BroadcastBy isa trace n k st p ↔ Sent (st.sent k) s' p := by
  obtain ⟨front, h, hb⟩ := between_after h₀ hs
  -- the cycles before this one
  have hearlier : (∃ c, c < k ∧ Broadcast isa trace n c p) ↔ Sent k s p := by
    constructor
    · rintro ⟨c, hc, hp⟩
      rw [← tomCdbCycle_after h₀ hs hc] at hp
      exact ⟨by omega, by omega⟩
    · rintro ⟨hne, hle⟩
      exact ⟨(s.table p).tomCdbCycle - 1, by omega,
        (tomCdbCycle_after h₀ hs (by omega)).1 (by omega)⟩
  have hsame : Sent k (drained isa (instrAt trace) (k + 1) s) p ↔ Sent k s p :=
    h.retire.sent_executed h.first.1 le_rfl p
  have hsplit : BroadcastBy isa trace n k st p ↔ Sent k s p ∨
      ((st ≠ .retire ∧ st ≠ .execute) ∧ Broadcast isa trace n k p) := by
    rw [← hearlier, BroadcastBy]
    constructor
    · rintro ⟨c, hc | ⟨rfl, hlate⟩, hp⟩
      · exact .inl ⟨c, hc, hp⟩
      · exact .inr ⟨hlate, hp⟩
    · rintro (⟨c, hc, hp⟩ | ⟨hlate, hp⟩)
      · exact ⟨c, .inl hc, hp⟩
      · exact ⟨k, .inr ⟨rfl, hlate⟩, hp⟩
  -- the stages after the broadcast
  have hlate : st ≠ .retire → st ≠ .execute → st.sent k = k + 1 →
      (BroadcastBy isa trace n k st p ↔ Sent (st.sent k) s' p) := by
    intro h₁ h₂ hsent
    rw [hsplit, and_iff_right ⟨h₁, h₂⟩, hsent, broadcast_iff h hb hs, ← hsame, Sent, Sent,
      tomCdbCycle_throughStage h hb h₁ hst p]
    omega
  cases st with
  | retire =>
      rw [throughStage_retire hb] at hst
      cases hst
      rw [hsplit]
      simp only [ne_eq, not_true_eq_false, false_and, or_false]
      exact Iff.rfl
  | execute =>
      rw [throughStage_execute hb] at hst
      cases hst
      rw [hsplit]
      simp only [ne_eq, not_true_eq_false, and_false, false_and, or_false]
      exact hsame.symm
  | issue => exact hlate (by decide) (by decide) rfl
  | dispatch => exact hlate (by decide) (by decide) rfl
  | fetch => exact hlate (by decide) (by decide) rfl

end Broadcast

/-! ### The map table and the tags -/

section Status

variable {prog : ℕ → Instr} {now sent : ℕ}

/-- The youngest tracked instruction in or past a reservation station that writes a register. -/
structure YoungestPlaced (isa : Isa) (prog : ℕ → Instr) (s : State) (r : Fin MD_TOTAL_REGS)
    (p : ℕ) : Prop where
  tracked : Tracked isa prog p
  placed : (s.table p).tomIssueCycle ≠ 0
  writes : Writes prog r p
  youngest : ∀ q, p < q → Tracked isa prog q → (s.table q).tomIssueCycle ≠ 0 → ¬ Writes prog r q

/-- The tracked instructions that have been put into a station are those before the front. -/
theorem Inv.placed_iff (h : Inv isa prog now sent front s) {q : ℕ} (hq : Tracked isa prog q) :
    (s.table q).tomIssueCycle ≠ 0 ↔ q < front := by
  constructor
  · intro hne
    by_contra hge
    exact hne (h.fresh q fun hn => hge hn.2).2.1
  · exact fun hlt => (h.issued q hq hlt).1

theorem Inv.youngestPlaced_iff (h : Inv isa prog now sent front s) {r : Fin MD_TOTAL_REGS} {p : ℕ} :
    YoungestPlaced isa prog s r p ↔ LastWriter isa prog front r p := by
  constructor
  · intro hp
    refine ⟨(h.placed_iff hp.tracked).1 hp.placed, hp.tracked, hp.writes, fun q hq hlt ht => ?_⟩
    exact hp.youngest q hq ht ((h.placed_iff ht).2 hlt)
  · intro hp
    refine ⟨hp.tracked, (h.placed_iff hp.tracked).2 hp.lt, hp.writes, fun q hq ht hne => ?_⟩
    exact hp.last q hq ((h.placed_iff ht).1 hne) ht

/-- A register that is written before an index has a last writer there. -/
theorem LastWriter.exists_of_writes {bound q : ℕ} {r : Fin MD_TOTAL_REGS} (hq : q < bound)
    (ht : Tracked isa prog q) (hw : Writes prog r q) : ∃ p, LastWriter isa prog bound r p := by
  induction bound with
  | zero => omega
  | succ b ih =>
      by_cases hb : Tracked isa prog b ∧ Writes prog r b
      · exact ⟨b, by omega, hb.1, hb.2, fun q' h₁ h₂ => by omega⟩
      · -- the last instruction does not count
        have hne : q ≠ b := by
          rintro rfl
          exact hb ⟨ht, hw⟩
        obtain ⟨p, hp⟩ := ih (by omega)
        refine ⟨p, by have := hp.lt; omega, hp.tracked, hp.writes, fun q' h₁ h₂ ht' hw' => ?_⟩
        by_cases hqb : q' = b
        · subst hqb
          exact hb ⟨ht', hw'⟩
        · exact hp.last q' h₁ (by omega) ht' hw'

end Status

/-- **Register status.**  After every stage of every cycle, an entry of the map table is the
youngest writer of its register among the instructions that have been put into a station, and it is
empty exactly when there is none or its tag has been broadcast.  The tags of an instruction that
waits in a station are the youngest older writers of its inputs; such a producer is in a station
itself, or on the bus before the broadcast of the cycle. -/
theorem register_status (isa : Isa) (xs : List Instr) (hout : ∀ x ∈ xs, Silent isa x) {k : ℕ}
    {st : Stage} {s : State} (hs : afterStage isa (record xs) xs.length k st = some s) :
    (∀ r p, s.mapTable r = some p → YoungestPlaced isa (instrAt (record xs)) s r p) ∧
    (∀ r, s.mapTable r = none ↔
      (∀ q, Tracked isa (instrAt (record xs)) q → (s.table q).tomIssueCycle ≠ 0 →
        ¬ Writes (instrAt (record xs)) r q) ∨
      ∃ p, YoungestPlaced isa (instrAt (record xs)) s r p ∧
        BroadcastBy isa (record xs) xs.length k st p) ∧
    ∀ j, Slots.Holds s.reserv j → (s.table j).tomExecuteCycle = 0 → ∀ m p,
      (s.table j).Q m = some p → ∃ r, (instrAt (record xs) j).rIn m = some r ∧
        LastWriter isa (instrAt (record xs)) j r p ∧ p < j ∧
        (Slots.Holds s.reserv p ∨ st = .execute ∧ s.commonDataBus = some p) := by
  have ht := trace_record hout
  obtain ⟨s₀, hs₀, hst⟩ := Option.bind_eq_some_iff.1 hs
  obtain ⟨front₀, h₀, hb₀⟩ := between_after ht.zero hs₀
  obtain ⟨⟨front, h⟩, hbus⟩ := stage_inv h₀ hb₀ hst
  have hsent := broadcastBy_iff ht.zero hs₀ hst
  refine ⟨fun r p hp => ?_, fun r => ⟨fun hr => ?_, ?_⟩, fun j hj he m p hQ => ?_⟩
  · exact h.youngestPlaced_iff.2 ((h.map r p).1 hp).1
  · by_cases hw : ∃ q, Tracked isa (instrAt (record xs)) q ∧ (s.table q).tomIssueCycle ≠ 0 ∧
        Writes (instrAt (record xs)) r q
    · obtain ⟨q, hq, hne, hwq⟩ := hw
      obtain ⟨p, hp⟩ := LastWriter.exists_of_writes ((h.placed_iff hq).1 hne) hq hwq
      refine .inr ⟨p, h.youngestPlaced_iff.2 hp, (hsent p).2 ?_⟩
      by_contra hnot
      rw [(h.map r p).2 ⟨hp, hnot⟩] at hr
      cases hr
    · exact .inl fun q hq hne hwq => hw ⟨q, hq, hne, hwq⟩
  · intro hnone
    cases hr : s.mapTable r with
    | none => rfl
    | some p =>
        obtain ⟨hp, hnot⟩ := (h.map r p).1 hr
        rcases hnone with hno | ⟨p', hp', hbc⟩
        · exact absurd hp.writes (hno p hp.tracked ((h.placed_iff hp.tracked).2 hp.lt))
        · have hlast := h.youngestPlaced_iff.1 hp'
          rw [hsent, hlast.unique hp] at hbc
          exact absurd hbc hnot
  · obtain ⟨r, hm, hp, hnot⟩ := (h.tags j hj he m p).1 hQ
    refine ⟨r, hm, hp, hp.lt, ?_⟩
    have hlt := ((h.reserv j).1 hj).1.2
    refine (h.producer_placed ht hlt.le hp hnot).imp_right fun ⟨hc, hc'⟩ => ?_
    -- only between the execute stage and the broadcast an instruction is on the bus and not sent
    cases st with
    | execute =>
        have hnew : k < (s.table p).tomCdbCycle := hc
        have hold : (s.table p).tomCdbCycle ≤ k + 1 := hc'
        exact ⟨rfl, (hbus p).2 ⟨by omega, by omega⟩⟩
    | retire => exact absurd hc' (Nat.not_le.2 hc)
    | issue => exact absurd hc' (Nat.not_le.2 hc)
    | dispatch => exact absurd hc' (Nat.not_le.2 hc)
    | fetch => exact absurd hc' (Nat.not_le.2 hc)

/-- In cycle 8 of the example the first instruction is on the bus, and the second one waits for
it. -/
theorem register_status_demo :
    ∃ s, afterStage demoIsa (record demoRun) demoRun.length 7 .execute = some s ∧
    (s.table 2).Q 0 = some 1 ∧ ∃ r, (instrAt (record demoRun) 2).rIn 0 = some r ∧
      LastWriter demoIsa (instrAt (record demoRun)) 2 r 1 := by
  have hrun : (afterStage demoIsa (record demoRun) demoRun.length 7 .execute).map (fun s =>
      (s.reserv ⟨.INT, ⟨1, by decide⟩⟩, (s.table 2).tomExecuteCycle, (s.table 2).Q 0)) =
      some (some 2, 0, some 1) := by
    decide +kernel
  obtain ⟨s, hs, he⟩ := Option.map_eq_some_iff.1 hrun
  simp only [Prod.mk.injEq] at he
  obtain ⟨hreserv, hexec, hQ⟩ := he
  obtain ⟨_, _, htags⟩ := register_status demoIsa demoRun (by decide +kernel) hs
  obtain ⟨r, hr, hlast, _⟩ := htags 2 ⟨_, hreserv⟩ hexec 0 1 hQ
  exact ⟨s, hs, hQ, r, hr, hlast⟩

end Tomasulo
