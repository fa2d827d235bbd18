/-
**One cycle of the Tomasulo machine.**

The last three stages of a cycle keep the invariant of `ArchLab/TomasuloInv.lean`: instructions
start on the free functional units and the tag on the bus is broadcast (`issueToExecute`), the head
of the queue goes to a reservation station (`dispatchToIssue`), and the next instruction of the
trace enters the queue (`fetchToDispatch`).  Together with the first two stages this gives a step
lemma for the cycle, and by induction on the number of cycles the invariant holds throughout a run.
That an instruction starts only after the producers of its inputs have written the bus is part of
the invariant.

Main definitions:

* `Tomasulo.Started` — what a stage that starts instructions may change;
* `Tomasulo.Later` — the cycle numbers of a state are still those of an earlier one.

Main results:

* `Tomasulo.issueUnits_induct` — what the start of an instruction keeps, `issueUnits` keeps;
* `Tomasulo.Inv.start`, `Tomasulo.Inv.broadcast`, `Tomasulo.Inv.place`,
  `Tomasulo.Inv.fetchToDispatch` — the stages keep the invariant;
* `Tomasulo.Inv.cycleOnce` — so does a cycle;
* `Tomasulo.execute_after_producers` — **read after write**: an instruction starts after the
  producers of its inputs have written the bus.
-/

import ArchLab.TomasuloInv

set_option relaxedAutoImplicit false
set_option autoImplicit false

namespace Tomasulo

variable {isa : Isa} {prog : ℕ → Instr} {now sent front cycle : ℕ} {s s' : State}

/-! ### Starting instructions -/

section Start

theorem latency_pos {j : ℕ} (h : Tracked isa prog j) : 0 < latency isa prog j := by
  obtain ⟨k, hk⟩ := h.fuKind
  rw [latency_eq hk]
  cases k <;> decide

/-- An instruction that is chosen is in a station of its kind and can start. -/
theorem oldestIssueable_spec {k : FuKind} {j : ℕ} (h : s.oldestIssueable prog k cycle = some j) :
    (∃ u, u.1 = k ∧ s.reserv u = some j) ∧ s.issueable cycle j = true := by
  obtain ⟨hmem, hi⟩ := List.mem_filter.1 (List.argmin_mem h)
  obtain ⟨u, hu, hj⟩ := Slots.mem_contents.1 hmem
  exact ⟨⟨u, mem_stations.1 hu, hj⟩, hi⟩

/-- If no instruction is chosen, none can start. -/
theorem oldestIssueable_none {k : FuKind} (h : s.oldestIssueable prog k cycle = none) {u : Station}
    {j : ℕ} (hu : u.1 = k) (hj : s.reserv u = some j) : s.issueable cycle j = false := by
  have hnil := List.argmin_eq_none.1 h
  by_contra hi
  have hmem : j ∈ (Slots.contents s.reserv (stations k)).filter (s.issueable cycle) :=
    List.mem_filter.2 ⟨Slots.mem_contents.2 ⟨u, mem_stations.2 hu, hj⟩, by simpa using hi⟩
  rw [hnil] at hmem
  cases hmem

/-- **Induction over the units.**  A property that survives the start of an instruction on a free
unit of its kind survives `issueUnits`. -/
theorem issueUnits_induct {k : FuKind} {P : State → Prop}
    (hP : ∀ s u v j, P s → u.1 = k → v.1 = k → s.reserv u = some j → s.fu v = none →
      s.issueable cycle j = true → P (s.start cycle v j))
    {us : List FuncUnit} {s : State} (hk : ∀ v ∈ us, v.1 = k) (h : P s) :
    P (issueUnits prog cycle k us s) := by
  induction us generalizing s with
  | nil => exact h
  | cons v us ih =>
      have hrest : ∀ w ∈ us, w.1 = k := fun w hw => hk w (List.mem_cons_of_mem v hw)
      unfold issueUnits
      split
      · next hfree =>
          split
          · exact h
          · next j hj =>
              obtain ⟨⟨u, hu, hr⟩, hi⟩ := oldestIssueable_spec hj
              exact ih hrest (hP s u v j h hu (hk v List.mem_cons_self) hr hfree hi)
      · exact ih hrest h

/-- What a stage that starts instructions may change: it fills units, and instructions that could
start have started. -/
structure Started (cycle : ℕ) (s s' : State) : Prop where
  same : s' = { s with fu := s'.fu, table := s'.table }
  table : ∀ j, s'.table j = s.table j ∨
    s.issueable cycle j = true ∧ s'.table j = { s.table j with tomExecuteCycle := cycle }
  fuSub : ∀ u j, s.fu u = some j → s'.fu u = some j

theorem Started.refl (cycle : ℕ) (s : State) : Started cycle s s :=
  ⟨rfl, fun _ => .inl rfl, fun _ _ h => h⟩

/-- One more instruction has started. -/
theorem Started.start (h : Started cycle s s') {v : FuncUnit} {j : ℕ} (hv : s'.fu v = none)
    (hj : s'.issueable cycle j = true) (hc : cycle ≠ 0) : Started cycle s (s'.start cycle v j) := by
  refine ⟨?_, fun i => ?_, fun u i hu => ?_⟩
  · unfold State.start State.modify
    rw [h.same]
  · change Function.update s'.table j { s'.table j with tomExecuteCycle := cycle } i = _ ∨ _ ∧
      Function.update s'.table j { s'.table j with tomExecuteCycle := cycle } i = _
    by_cases hij : i = j
    · subst hij
      rw [Function.update_self]
      rcases h.table i with hi | ⟨_, hi⟩
      · refine .inr ⟨?_, by rw [hi]⟩
        rw [← hj, State.issueable, State.issueable, hi]
      · -- it has started in this cycle already, and cannot start again
        simp only [State.issueable, hi, decide_eq_true_eq] at hj
        exact absurd hj.2.1 hc
    · rw [Function.update_of_ne hij]
      exact h.table i
  · change Function.update s'.fu v (some j) u = some i
    rw [Function.update_of_ne]
    · exact h.fuSub u i hu
    · rintro rfl
      rw [h.fuSub u i hu] at hv
      cases hv

theorem Started.issueUnits (h : Started cycle s s') (hc : cycle ≠ 0) (k : FuKind) :
    Started cycle s (issueUnits prog cycle k (units k) s') :=
  issueUnits_induct (P := Started cycle s) (fun _ _ _ _ h _ _ _ hv hj => h.start hv hj hc)
    (fun _ hv => mem_units.1 hv) h

/-- **The units are kept busy.**  If an instruction of a kind can still start, all units are
taken. -/
theorem issueUnits_busy (hc : cycle ≠ 0) {k : FuKind} {us : List FuncUnit} {s : State} {u : Station}
    {j : ℕ} (hk : ∀ v ∈ us, v.1 = k) (hu : u.1 = k)
    (hr : (issueUnits prog cycle k us s).reserv u = some j)
    (hi : (issueUnits prog cycle k us s).issueable cycle j = true) :
    ∀ v ∈ us, (issueUnits prog cycle k us s).fu v ≠ none := by
  intro v hv
  induction us generalizing s with
  | nil => cases hv
  | cons w us ih =>
      have hrest : ∀ v ∈ us, v.1 = k := fun v hv => hk v (List.mem_cons_of_mem w hv)
      have hkeep : ∀ {s₁ : State} {i : ℕ}, s₁.fu w = some i →
          (issueUnits prog cycle k us s₁).fu w = some i := fun {s₁ i} hw =>
        (issueUnits_induct (P := Started cycle s₁) (fun _ _ _ _ h _ _ _ hv hj => h.start hv hj hc)
          hrest (Started.refl cycle s₁)).fuSub w i hw
      unfold issueUnits at hr hi ⊢
      by_cases hfree : s.fu w = none
      · rw [if_pos hfree] at hr hi ⊢
        cases ho : s.oldestIssueable prog k cycle with
        | none =>
            simp only [ho] at hr hi
            rw [oldestIssueable_none ho hu hr] at hi
            cases hi
        | some i =>
            simp only [ho] at hr hi ⊢
            rcases List.mem_cons.1 hv with rfl | hv
            · rw [hkeep (i := i) (Function.update_self v _ s.fu)]
              exact nofun
            · exact ih hrest hr hi hv
      · rw [if_neg hfree] at hr hi ⊢
        rcases List.mem_cons.1 hv with rfl | hv
        · obtain ⟨i, hw⟩ := Option.ne_none_iff_exists'.1 hfree
          rw [hkeep hw]
          exact nofun
        · exact ih hrest hr hi hv

/-- **Starting an instruction** keeps the invariant. -/
theorem Inv.start (h : Inv isa prog cycle sent front s) (hs : sent < cycle) {u : Station}
    {v : FuncUnit} {j : ℕ} (huv : u.1 = v.1) (hu : s.reserv u = some j) (hv : s.fu v = none)
    (hi : s.issueable cycle j = true) : Inv isa prog cycle sent front (s.start cycle v j) := by
  simp only [State.issueable, decide_eq_true_eq] at hi
  obtain ⟨hQ, he, hissue⟩ := hi
  have htable : ∀ i, (s.start cycle v j).table i =
      if i = j then { s.table i with tomExecuteCycle := cycle } else s.table i := by
    intro i
    change Function.update s.table j { s.table j with tomExecuteCycle := cycle } i = _
    by_cases hij : i = j
    · subst hij
      rw [Function.update_self, if_pos rfl]
    · rw [Function.update_of_ne hij, if_neg hij]
  have hexec : ∀ i, ((s.start cycle v j).table i).tomExecuteCycle =
      if i = j then cycle else (s.table i).tomExecuteCycle := by
    intro i
    rw [htable]
    split <;> rfl
  have hcdb : ∀ i, ((s.start cycle v j).table i).tomCdbCycle = (s.table i).tomCdbCycle := by
    intro i
    rw [htable]
    split <;> rfl
  have hissueCycle : ∀ i, ((s.start cycle v j).table i).tomIssueCycle =
    (s.table i).tomIssueCycle := by
    intro i
    rw [htable]
    split <;> rfl
  have hsent : ∀ i, Sent sent (s.start cycle v j) i ↔ Sent sent s i := by
    intro i
    unfold Sent
    rw [hcdb]
  have hholds : Slots.Holds s.reserv j := ⟨u, hu⟩
  obtain ⟨htj, hlj⟩ := (h.reserv j).1 hholds
  have hfuj : ¬ Slots.Holds s.fu j := fun hf => ((h.fu j).1 hf).2 he
  have hcj : (s.table j).tomCdbCycle = 0 := by
    by_contra hc
    exact (h.written j hc).2.1 he
  have hleft : ∀ i, Left isa prog cycle (s.start cycle v j) i ↔ Left isa prog cycle s i := by
    intro i
    unfold Left
    rw [hcdb, hexec]
    by_cases hij : i = j
    · -- it has only just started, so it has not finished
      subst hij
      have hlat := latency_pos htj.1
      simp only [if_true, he]
      split
      · rfl
      · constructor
        · rintro ⟨_, hle⟩
          omega
        · exact fun hn => absurd rfl hn.1
    · rw [if_neg hij]
  refine ⟨h.bounds, h.queue, h.reservKind, fun w i hw => ?_, h.reservDistinct,
    h.fuDistinct.put hfuj, fun i => ?_, fun i => ?_, fun r p => ?_, fun i hr hei => ?_,
      fun i hn => ?_,
    fun i ht h₁ h₂ => ?_, fun i ht hlt => ?_, fun i hei => ?_, fun i hc => ?_,
      fun i hei m r p hm hp => ?_⟩
  · change Function.update s.fu v (some j) w = some i at hw
    by_cases hwv : w = v
    · subst hwv
      rw [Function.update_self] at hw
      rw [← Option.some.inj hw, h.reservKind u j hu, huv]
    · rw [Function.update_of_ne hwv] at hw
      exact h.fuKind w i hw
  · rw [hleft]
    exact h.reserv i
  · change Slots.Holds (Function.update s.fu v (some j)) i ↔ Slots.Holds s.reserv i ∧ _
    rw [Slots.holds_put hv, h.fu, hexec]
    by_cases hij : i = j
    · subst hij
      simp only [if_true, or_true, true_iff]
      exact ⟨hholds, by omega⟩
    · simp [hij]
  · rw [hsent]
    exact h.map r p
  · rw [hexec] at hei
    by_cases hij : i = j
    · rw [if_pos hij] at hei
      omega
    · rw [if_neg hij] at hei
      rw [htable, if_neg hij]
      intro m p
      rw [hsent]
      exact h.tags i hr hei m p
  · have hij : i ≠ j := fun e => hn (e ▸ htj)
    rw [htable, if_neg hij]
    exact h.fresh i hn
  · have hd := h.dispatched i ht h₁ h₂
    rw [htable]
    split <;> exact hd
  · rw [hissueCycle]
    exact h.issued i ht hlt
  · rw [hissueCycle, hexec]
    rw [hexec] at hei
    by_cases hij : i = j
    · rw [if_pos hij, hij]
      exact ⟨hissue, le_rfl⟩
    · rw [if_neg hij] at hei ⊢
      exact h.started i hei
  · rw [hcdb] at hc ⊢
    have hij : i ≠ j := fun e => hc (e ▸ hcj)
    rw [hexec, if_neg hij]
    exact h.written i hc
  · rw [hcdb, hexec]
    rw [hexec] at hei
    by_cases hij : i = j
    · -- all its tags are gone, so its producers have been on the bus in an earlier cycle
      subst hij
      rw [if_pos rfl]
      have hsp : Sent sent s p := by
        by_contra hnot
        have := (h.tags i hholds he m p).2 ⟨r, hm, hp, hnot⟩
        rw [hQ m] at this
        cases this
      exact ⟨hsp.1, by have := hsp.2; omega⟩
    · rw [if_neg hij] at hei ⊢
      exact h.raw i hei m r p hm hp

theorem Inv.issueUnits (h : Inv isa prog cycle sent front s) (hs : sent < cycle) (k : FuKind) :
    Inv isa prog cycle sent front (issueUnits prog cycle k (units k) s) :=
  issueUnits_induct (P := Inv isa prog cycle sent front)
    (fun _ _ _ _ h hu hv hr hf hi => h.start hs (hu.trans hv.symm) hr hf hi)
    (fun _ hv => mem_units.1 hv) h

end Start

/-! ### The broadcast -/

section Broadcast

theorem tomCdbCycle_broadcastTags (j i : ℕ) :
    ((broadcastTags j s).table i).tomCdbCycle = (s.table i).tomCdbCycle := by
  simp only [broadcastTags]
  split <;> rfl

theorem tomExecuteCycle_broadcastTags (j i : ℕ) :
    ((broadcastTags j s).table i).tomExecuteCycle = (s.table i).tomExecuteCycle := by
  simp only [broadcastTags]
  split <;> rfl

theorem tomIssueCycle_broadcastTags (j i : ℕ) :
    ((broadcastTags j s).table i).tomIssueCycle = (s.table i).tomIssueCycle := by
  simp only [broadcastTags]
  split <;> rfl

theorem tomDispatchCycle_broadcastTags (j i : ℕ) :
    ((broadcastTags j s).table i).tomDispatchCycle = (s.table i).tomDispatchCycle := by
  simp only [broadcastTags]
  split <;> rfl

theorem left_broadcastTags (j i : ℕ) :
    Left isa prog now (broadcastTags j s) i ↔ Left isa prog now s i := by
  unfold Left
  rw [tomCdbCycle_broadcastTags, tomExecuteCycle_broadcastTags]

/-- In the cycle in which an instruction is on the bus, its tag is the one that is sent. -/
theorem Bus.sent_succ (h : Bus (sent + 1) s) (p : ℕ) :
    Sent (sent + 1) s p ↔ Sent sent s p ∨ s.commonDataBus = some p := by
  rw [h p]
  unfold Sent
  omega

/-- Without an instruction on the bus nothing is left to broadcast. -/
theorem Inv.idle (h : Inv isa prog now sent front s) (hb : Bus (sent + 1) s)
    (hnone : s.commonDataBus = none) : Inv isa prog now (sent + 1) front s := by
  have hsent : ∀ p, Sent (sent + 1) s p ↔ Sent sent s p := by
    intro p
    rw [hb.sent_succ, hnone]
    simp
  refine ⟨h.bounds, h.queue, h.reservKind, h.fuKind, h.reservDistinct, h.fuDistinct, h.reserv, h.fu,
    fun r p => ?_, fun j hj he i p => ?_, h.fresh, h.dispatched, h.issued, h.started,
      h.written, h.raw⟩
  · rw [hsent]
    exact h.map r p
  · rw [hsent]
    exact h.tags j hj he i p

/-- **The broadcast** removes the tag on the bus. -/
theorem Inv.broadcast (h : Inv isa prog now sent front s) (hb : Bus (sent + 1) s) {j : ℕ}
    (hj : s.commonDataBus = some j) : Inv isa prog now (sent + 1) front (broadcastTags j s) := by
  have hsent : ∀ p, Sent (sent + 1) (broadcastTags j s) p ↔ Sent sent s p ∨ p = j := by
    intro p
    have hp := hb.sent_succ p
    unfold Sent at hp ⊢
    rw [tomCdbCycle_broadcastTags, hp, hj, Option.some.injEq, eq_comm]
  refine ⟨h.bounds, h.queue, h.reservKind, h.fuKind, h.reservDistinct, h.fuDistinct, fun i => ?_,
    fun i => ?_, fun r p => ?_, fun i hi he m p => ?_, fun i hn => ?_, fun i ht h₁ h₂ => ?_,
    fun i ht hlt => ?_, fun i he => ?_, fun i hc => ?_, fun i he m r p hm hp => ?_⟩
  · rw [left_broadcastTags]
    exact h.reserv i
  · rw [tomExecuteCycle_broadcastTags]
    exact h.fu i
  · rw [hsent]
    have hmap := h.map r p
    change (if s.mapTable r = some j then none else s.mapTable r) = some p ↔ _
    by_cases hr : s.mapTable r = some j
    · rw [if_pos hr]
      rw [hr, Option.some.injEq] at hmap
      refine ⟨nofun, fun ⟨hw, hn⟩ => ?_⟩
      exact absurd (.inr (hmap.2 ⟨hw, fun hs => hn (.inl hs)⟩).symm) hn
    · rw [if_neg hr, hmap]
      refine and_congr_right fun hw => ?_
      rw [not_or]
      refine ⟨fun hn => ⟨hn, ?_⟩, And.left⟩
      rintro rfl
      exact hr (hmap.2 ⟨hw, hn⟩)
  · rw [tomExecuteCycle_broadcastTags] at he
    have htag := h.tags i hi he m p
    have hQ : ((broadcastTags j s).table i).Q m =
        if (s.table i).Q m = some j then none else (s.table i).Q m := by
      have hu : ∃ u, s.reserv u = some i := hi
      simp only [broadcastTags]
      rw [if_pos hu]
      rfl
    rw [hQ]
    simp only [hsent]
    by_cases hm : (s.table i).Q m = some j
    · rw [if_pos hm]
      rw [hm, Option.some.injEq] at htag
      refine ⟨nofun, fun ⟨r, hr, hw, hn⟩ => ?_⟩
      exact absurd (.inr (htag.2 ⟨r, hr, hw, fun hs => hn (.inl hs)⟩).symm) hn
    · rw [if_neg hm, htag]
      refine exists_congr fun r => and_congr_right fun hr => and_congr_right fun hw => ?_
      rw [not_or]
      refine ⟨fun hn => ⟨hn, ?_⟩, And.left⟩
      rintro rfl
      exact hm (htag.2 ⟨r, hr, hw, hn⟩)
  · have hi : ¬ ∃ u, s.reserv u = some i := fun hi => hn ((h.reserv i).1 hi).1
    simp only [broadcastTags]
    rw [if_neg hi]
    exact h.fresh i hn
  · rw [tomDispatchCycle_broadcastTags]
    exact h.dispatched i ht h₁ h₂
  · rw [tomIssueCycle_broadcastTags]
    exact h.issued i ht hlt
  · rw [tomExecuteCycle_broadcastTags] at he ⊢
    rw [tomIssueCycle_broadcastTags]
    exact h.started i he
  · rw [tomCdbCycle_broadcastTags] at hc ⊢
    rw [tomExecuteCycle_broadcastTags]
    exact h.written i hc
  · rw [tomExecuteCycle_broadcastTags] at he ⊢
    rw [tomCdbCycle_broadcastTags]
    exact h.raw i he m r p hm hp

end Broadcast

/-! ### The third stage -/

section Issue

/-- Starting instructions does not change what has been on the bus. -/
theorem Started.tomCdbCycle (h : Started cycle s s') (j : ℕ) :
    (s'.table j).tomCdbCycle = (s.table j).tomCdbCycle := by
  rcases h.table j with e | ⟨_, e⟩ <;> rw [e]

/-- Both loops of `issueToExecute`. -/
def startAll (prog : ℕ → Instr) (cycle : ℕ) (s : State) : State :=
  Tomasulo.issueUnits prog cycle .FP (units .FP)
    (Tomasulo.issueUnits prog cycle .INT (units .INT) s)

theorem startAll_started (hc : cycle ≠ 0) : Started cycle s (startAll prog cycle s) :=
  ((Started.refl cycle s).issueUnits hc .INT).issueUnits hc .FP

theorem issueToExecute_eq : issueToExecute prog cycle s =
    match (startAll prog cycle s).commonDataBus with
    | none => startAll prog cycle s
    | some j => broadcastTags j (startAll prog cycle s) := rfl

/-- The bus, after instructions have started. -/
theorem Started.bus (h : Started cycle s s') (hb : Bus now s) : Bus now s' := by
  intro j
  rw [h.tomCdbCycle, ← hb j, h.same]

/-- **The third stage.**  Instructions start, and the tag on the bus is broadcast. -/
theorem Inv.issueToExecute (h : Inv isa prog (sent + 1) sent front s) (hb : Bus (sent + 1) s) :
    Inv isa prog (sent + 1) (sent + 1) front (issueToExecute prog (sent + 1) s) ∧
      Bus (sent + 1) (issueToExecute prog (sent + 1) s) := by
  have hst : Started (sent + 1) s (startAll prog (sent + 1) s) := startAll_started (by omega)
  have hinv : Inv isa prog (sent + 1) sent front (startAll prog (sent + 1) s) :=
    (h.issueUnits (by omega) .INT).issueUnits (by omega) .FP
  have hbus : Bus (sent + 1) (startAll prog (sent + 1) s) := hst.bus hb
  rw [issueToExecute_eq]
  split
  · next hnone => exact ⟨hinv.idle hbus hnone, hbus⟩
  · next j hj =>
      refine ⟨hinv.broadcast hbus hj, fun i => ?_⟩
      rw [tomCdbCycle_broadcastTags]
      exact hbus i

end Issue

/-! ### Leaving the queue -/

section Dispatch

/-- The head of the queue, and what is behind it. -/
theorem queued_cons {fetchIndex j : ℕ} {rest : List ℕ}
    (h : queued isa prog front fetchIndex = j :: rest) :
    front ≤ j ∧ j ≤ fetchIndex ∧ isa.isTrap (prog j).op = false ∧
      (∀ i, front ≤ i → i < j → isa.isTrap (prog i).op = true) ∧
      rest = queued isa prog (j + 1) fetchIndex := by
  unfold queued at h
  obtain ⟨n, hn⟩ : ∃ n, n = fetchIndex + 1 - front := ⟨_, rfl⟩
  rw [← hn] at h
  induction n generalizing front with
  | zero => cases h
  | succ n ih =>
      rw [List.range'_succ] at h
      by_cases ht : isa.isTrap (prog front).op = true
      · rw [List.filter_cons_of_neg (by simp [ht])] at h
        obtain ⟨h₁, h₂, h₃, h₄, h₅⟩ := ih h (by omega)
        refine ⟨by omega, h₂, h₃, fun i hi hij => ?_, h₅⟩
        rcases Nat.eq_or_lt_of_le hi with rfl | hlt
        · exact ht
        · exact h₄ i hlt hij
      · rw [List.filter_cons_of_pos (by simp [ht])] at h
        cases h
        refine ⟨le_rfl, by omega, by simpa using ht, fun i hi hij => by omega, ?_⟩
        have hlen : fetchIndex + 1 - (j + 1) = n := by omega
        rw [queued, hlen]

/-- Instructions that are not tracked leave the queue without further effect. -/
theorem Inv.skip (h : Inv isa prog now sent front s) {front' : ℕ} (hle : front ≤ front')
    (hle' : front' ≤ s.fetchIndex + 1) (hno : ∀ i, front ≤ i → i < front' → ¬ Tracked isa prog i) :
    Inv isa prog now sent front' { s with instrQueue := queued isa prog front' s.fetchIndex } := by
  have hiff : ∀ i, (Tracked isa prog i ∧ i < front') ↔ (Tracked isa prog i ∧ i < front) := by
    refine fun i => and_congr_right fun ht => ⟨fun hlt => ?_, fun hlt => by omega⟩
    by_contra hge
    exact hno i (by omega) hlt ht
  refine ⟨⟨h.bounds.1.trans hle, hle'⟩, rfl, h.reservKind, h.fuKind, h.reservDistinct, h.fuDistinct,
    fun i => ?_, h.fu, fun r p => ?_, h.tags, fun i hn => ?_, h.dispatched, fun i ht hlt => ?_,
    h.started, h.written, h.raw⟩
  · rw [hiff]
    exact h.reserv i
  · rw [LastWriter.congr hle hno]
    exact h.map r p
  · rw [hiff] at hn
    exact h.fresh i hn
  · exact h.issued i ht ((hiff i).1 ⟨ht, hlt⟩).2

/-- The state after an instruction has been put into a station. -/
def placed (prog : ℕ → Instr) (cycle : ℕ) (s : State) (u : Station) (j : ℕ) : State :=
  setTags prog j (State.modify { s with reserv := Function.update s.reserv u (some j) } j
    fun p => { p with tomIssueCycle := cycle })

/-- What is known about an instruction in its station: where its inputs come from. -/
def entered (prog : ℕ → Instr) (cycle : ℕ) (s : State) (j : ℕ) : Progress :=
  { s.table j with
    tomIssueCycle := cycle
    Q := fun i => match (prog j).rIn i with
      | some r => s.mapTable r
      | none => (s.table j).Q i }

theorem table_placed (u : Station) (j i : ℕ) : (placed prog cycle s u j).table i =
    if i = j then entered prog cycle s j else s.table i := by
  simp only [placed, setTags, State.modify, Function.update_self, Function.update_idem]
  by_cases hij : i = j
  · subst hij
    rw [if_pos rfl, Function.update_self]
    rfl
  · rw [if_neg hij, Function.update_of_ne hij]

/-- **An instruction enters its station** and becomes the producer of its outputs. -/
theorem Inv.place {j : ℕ} (h : Inv isa prog cycle sent j s) (hc : cycle ≠ 0)
    (ht : Tracked isa prog j) (hle : j ≤ s.fetchIndex) {u : Station}
    (hk : isa.fuKind (prog j).op = some u.1) (hu : s.reserv u = none) :
    Inv isa prog cycle sent (j + 1)
      { placed prog cycle s u j with instrQueue := queued isa prog (j + 1) s.fetchIndex } := by
  obtain ⟨hQj, hij, hej, hcj⟩ := h.fresh j fun hn => absurd hn.2 (lt_irrefl j)
  have hexec : ∀ i, ((placed prog cycle s u j).table i).tomExecuteCycle =
      (s.table i).tomExecuteCycle := by
    intro i
    rw [table_placed]
    split
    · next e => rw [e]; rfl
    · rfl
  have hcdb : ∀ i, ((placed prog cycle s u j).table i).tomCdbCycle = (s.table i).tomCdbCycle := by
    intro i
    rw [table_placed]
    split
    · next e => rw [e]; rfl
    · rfl
  have hsent : ∀ i, Sent sent (placed prog cycle s u j) i ↔ Sent sent s i := by
    intro i
    unfold Sent
    rw [hcdb]
  have hleft : ∀ i, Left isa prog cycle (placed prog cycle s u j) i ↔ Left isa prog cycle s i := by
    intro i
    unfold Left
    rw [hcdb, hexec]
  have hnotleft : ¬ Left isa prog cycle s j := by
    unfold Left
    rw [hcj, hej]
    simp
  have hnot : ¬ Slots.Holds s.reserv j := fun hj => lt_irrefl j ((h.reserv j).1 hj).1.2
  have hholds : ∀ i, Slots.Holds (placed prog cycle s u j).reserv i ↔
      Slots.Holds s.reserv i ∨ i = j := fun i => Slots.holds_put hu
  have hlt : ∀ i, (Tracked isa prog i ∧ i < j + 1) ↔ (Tracked isa prog i ∧ i < j) ∨ i = j := by
    intro i
    constructor
    · rintro ⟨hi, hlt⟩
      rcases Nat.lt_succ_iff_lt_or_eq.1 hlt with hlt | e
      · exact .inl ⟨hi, hlt⟩
      · exact .inr e
    · rintro (⟨hi, hlt⟩ | rfl)
      · exact ⟨hi, by omega⟩
      · exact ⟨ht, by omega⟩
  have hne : ∀ i, ¬ (Tracked isa prog i ∧ i < j + 1) → i ≠ j := fun i hn e =>
    hn ((hlt i).2 (.inr e))
  refine ⟨⟨by omega, Nat.succ_le_succ hle⟩, rfl, fun w i hw => ?_, h.fuKind,
    h.reservDistinct.put hnot,
    h.fuDistinct, fun i => ?_, fun i => ?_, fun r p => ?_, fun i hi he m p => ?_, fun i hn => ?_,
    fun i hti h₁ h₂ => ?_, fun i hti hi => ?_, fun i he => ?_, fun i hci => ?_,
    fun i he m r p hm hp => ?_⟩
  · change Function.update s.reserv u (some j) w = some i at hw
    by_cases hwu : w = u
    · subst hwu
      rw [Function.update_self] at hw
      rw [← Option.some.inj hw, hk]
    · rw [Function.update_of_ne hwu] at hw
      exact h.reservKind w i hw
  · refine (hholds i).trans ?_
    rw [hlt, h.reserv]
    change _ ↔ _ ∧ ¬ Left isa prog cycle (placed prog cycle s u j) i
    rw [hleft]
    constructor
    · rintro (⟨hi, hn⟩ | rfl)
      · exact ⟨.inl hi, hn⟩
      · exact ⟨.inr rfl, hnotleft⟩
    · rintro ⟨hi | rfl, hn⟩
      · exact .inl ⟨hi, hn⟩
      · exact .inr rfl
  · refine (h.fu i).trans ?_
    change _ ↔ Slots.Holds (placed prog cycle s u j).reserv i ∧
      ((placed prog cycle s u j).table i).tomExecuteCycle ≠ 0
    rw [hexec, hholds]
    constructor
    · exact fun ⟨hi, he⟩ => ⟨.inl hi, he⟩
    · rintro ⟨hi | rfl, he⟩
      · exact ⟨hi, he⟩
      · exact absurd hej he
  · change (if ∃ i, (prog j).rOut i = some r then some j else s.mapTable r) = some p ↔
      _ ∧ ¬ Sent sent (placed prog cycle s u j) p
    rw [hsent, LastWriter.succ ht]
    unfold Writes
    by_cases hw : ∃ i, (prog j).rOut i = some r
    · rw [if_pos hw, Option.some.injEq]
      constructor
      · rintro rfl
        exact ⟨.inl ⟨hw, rfl⟩, fun hs => hs.1 hcj⟩
      · rintro ⟨⟨_, rfl⟩ | ⟨hn, _⟩, _⟩
        · rfl
        · exact absurd hw hn
    · rw [if_neg hw, h.map]
      simp [hw]
  · change ((placed prog cycle s u j).table i).tomExecuteCycle = 0 at he
    change ((placed prog cycle s u j).table i).Q m = some p ↔ ∃ r, _ ∧ _ ∧
      ¬ Sent sent (placed prog cycle s u j) p
    rw [hexec] at he
    rw [table_placed]
    simp only [hsent]
    by_cases e : i = j
    · subst e
      rw [if_pos rfl]
      simp only [entered]
      cases hm : (prog i).rIn m with
      | none => simp [hQj]
      | some r => simp [h.map]
    · rw [if_neg e]
      rcases (hholds i).1 hi with hi | hi
      · exact h.tags i hi he m p
      · exact absurd hi e
  · change (((placed prog cycle s u j).table i).Q = _) ∧
      ((placed prog cycle s u j).table i).tomIssueCycle = 0 ∧
      ((placed prog cycle s u j).table i).tomExecuteCycle = 0 ∧
      ((placed prog cycle s u j).table i).tomCdbCycle = 0
    rw [table_placed, if_neg (hne i hn)]
    exact h.fresh i fun hi => hn ((hlt i).2 (.inl hi))
  · change ((placed prog cycle s u j).table i).tomDispatchCycle ≠ 0
    have hd := h.dispatched i hti h₁ h₂
    rw [table_placed]
    split
    · next e => exact e ▸ hd
    · exact hd
  · change ((placed prog cycle s u j).table i).tomIssueCycle ≠ 0 ∧
      ((placed prog cycle s u j).table i).tomIssueCycle ≤ cycle
    rw [table_placed]
    split
    · exact ⟨hc, le_rfl⟩
    · next e => exact h.issued i hti (by omega)
  · change ((placed prog cycle s u j).table i).tomExecuteCycle ≠ 0 at he
    change ((placed prog cycle s u j).table i).tomIssueCycle <
        ((placed prog cycle s u j).table i).tomExecuteCycle ∧
      ((placed prog cycle s u j).table i).tomExecuteCycle ≤ cycle
    rw [hexec] at he
    have e : i ≠ j := fun e => he (e ▸ hej)
    rw [table_placed, if_neg e]
    exact h.started i he
  · change ((placed prog cycle s u j).table i).tomCdbCycle ≠ 0 at hci
    change _ ∧ ((placed prog cycle s u j).table i).tomExecuteCycle ≠ 0 ∧
      ((placed prog cycle s u j).table i).tomExecuteCycle + _ ≤
        ((placed prog cycle s u j).table i).tomCdbCycle ∧
      ((placed prog cycle s u j).table i).tomCdbCycle ≤ cycle
    rw [hcdb] at hci ⊢
    rw [hexec]
    exact h.written i hci
  · change ((placed prog cycle s u j).table i).tomExecuteCycle ≠ 0 at he
    change ((placed prog cycle s u j).table p).tomCdbCycle ≠ 0 ∧
      ((placed prog cycle s u j).table p).tomCdbCycle <
        ((placed prog cycle s u j).table i).tomExecuteCycle
    rw [hexec] at he ⊢
    rw [hcdb]
    exact h.raw i he m r p hm hp

/-- The fields that keep their values once they are set, and the part of the trace that has been
read. -/
structure Later (s s' : State) : Prop where
  fetchIndex : s.fetchIndex ≤ s'.fetchIndex
  execute : ∀ j, (s.table j).tomExecuteCycle ≠ 0 →
    (s'.table j).tomExecuteCycle = (s.table j).tomExecuteCycle
  cdb : ∀ j, (s.table j).tomCdbCycle ≠ 0 → (s'.table j).tomCdbCycle = (s.table j).tomCdbCycle

theorem Later.trans {s₁ s₂ s₃ : State} (h : Later s₁ s₂) (h' : Later s₂ s₃) : Later s₁ s₃ := by
  refine ⟨h.fetchIndex.trans h'.fetchIndex, fun j hj => ?_, fun j hj => ?_⟩
  · rw [h'.execute j (by rwa [h.execute j hj]), h.execute j hj]
  · rw [h'.cdb j (by rwa [h.cdb j hj]), h.cdb j hj]

/-- What `dispatchToIssue` does not change. -/
structure Queued (s s' : State) : Prop where
  fetchIndex : s'.fetchIndex = s.fetchIndex
  bus : s'.commonDataBus = s.commonDataBus
  execute : ∀ j, (s'.table j).tomExecuteCycle = (s.table j).tomExecuteCycle
  cdb : ∀ j, (s'.table j).tomCdbCycle = (s.table j).tomCdbCycle
  queue : s.instrQueue = [] → s'.instrQueue = []

theorem Queued.refl (s : State) : Queued s s := ⟨rfl, rfl, fun _ => rfl, fun _ => rfl, fun h => h⟩

theorem Queued.pop {j : ℕ} {rest : List ℕ} (hq : s.instrQueue = j :: rest) (l : List ℕ) :
    Queued s { s with instrQueue := l } :=
  ⟨rfl, rfl, fun _ => rfl, fun _ => rfl, fun h => by rw [hq] at h; cases h⟩

theorem Queued.place {j : ℕ} {rest : List ℕ} (hq : s.instrQueue = j :: rest) (u : Station)
    (l : List ℕ) : Queued s { placed prog cycle s u j with instrQueue := l } := by
  refine ⟨rfl, rfl, fun i => ?_, fun i => ?_, fun h => by rw [hq] at h; cases h⟩
  · change ((placed prog cycle s u j).table i).tomExecuteCycle = _
    rw [table_placed]
    split
    · next e => rw [e]; rfl
    · rfl
  · change ((placed prog cycle s u j).table i).tomCdbCycle = _
    rw [table_placed]
    split
    · next e => rw [e]; rfl
    · rfl

/-- What `dispatchToIssue` does: nothing, if the queue is empty or the stations for its head are
taken; or it removes the head from the queue, to a station of its kind if it needs one. -/
inductive Dispatched (isa : Isa) (prog : ℕ → Instr) (cycle : ℕ) (s : State) : State → Prop
  | wait (h : ∀ j rest, s.instrQueue = j :: rest → isa.isBranch (prog j).op = false ∧
      ∃ k, isa.fuKind (prog j).op = some k ∧ ∀ u : Station, u.1 = k → s.reserv u ≠ none) :
      Dispatched isa prog cycle s s
  | discard {j : ℕ} {rest : List ℕ} (hq : s.instrQueue = j :: rest)
      (h : isa.isBranch (prog j).op = true ∨ isa.fuKind (prog j).op = none) :
      Dispatched isa prog cycle s { s with instrQueue := rest }
  | place {j : ℕ} {rest : List ℕ} {u : Station} (hq : s.instrQueue = j :: rest)
      (hb : isa.isBranch (prog j).op = false) (hk : isa.fuKind (prog j).op = some u.1)
      (hu : s.reserv u = none) :
      Dispatched isa prog cycle s { placed prog cycle s u j with instrQueue := rest }

theorem dispatchToIssue_cases : Dispatched isa prog cycle s (dispatchToIssue isa prog cycle s) := by
  unfold Tomasulo.dispatchToIssue
  split
  · next hq =>
      refine .wait fun j rest hj => ?_
      rw [hq] at hj
      cases hj
  · next j rest hq =>
      split
      · next hb => exact .discard hq (.inl hb)
      · next hb =>
          split
          · next hk => exact .discard hq (.inr hk)
          · next k hk =>
              split
              · next hfull =>
                  refine .wait fun i l hi => ?_
                  rw [hq] at hi
                  cases hi
                  refine ⟨by simpa using hb, k, hk, fun u hu hnone => ?_⟩
                  have hne := List.find?_eq_none.1 hfull u (mem_stations.2 hu)
                  simp [hnone] at hne
              · next u hu =>
                  have hfree : s.reserv u = none := by simpa using List.find?_some hu
                  have hku : u.1 = k := mem_stations.1 (List.mem_of_find?_eq_some hu)
                  exact .place hq (by simpa using hb) (hku ▸ hk) hfree

/-- The instructions in the queue have been fetched. -/
theorem Inv.mem_queue (h : Inv isa prog now sent front s) {j : ℕ} :
    j ∈ s.instrQueue ↔ (front ≤ j ∧ j ≤ s.fetchIndex) ∧ isa.isTrap (prog j).op = false := by
  have hle := h.bounds.2
  rw [h.queue, queued, List.mem_filter, List.mem_range'_1, Bool.not_eq_true', and_congr_left_iff]
  intro _
  omega

/-- The head of the queue, and the instructions before it. -/
theorem Inv.head (h : Inv isa prog now sent front s) {j : ℕ} {rest : List ℕ}
    (hq : s.instrQueue = j :: rest) :
    (front ≤ j ∧ j ≤ s.fetchIndex) ∧ isa.isTrap (prog j).op = false ∧
      (∀ i, front ≤ i → i < j → ¬ Tracked isa prog i) ∧
      rest = queued isa prog (j + 1) s.fetchIndex := by
  have hqueue := h.queue
  rw [hq] at hqueue
  obtain ⟨hle, hle', htrap, hbefore, hrest⟩ := queued_cons hqueue.symm
  refine ⟨⟨hle, hle'⟩, htrap, fun i hi hij ht => ?_, hrest⟩
  have hnot := ht.1
  rw [hbefore i hi hij] at hnot
  cases hnot

/-- **The fourth stage.**  The head of the queue leaves it, if there is a free station of its
kind. -/
theorem Inv.dispatchToIssue (h : Inv isa prog cycle sent front s) (hc : cycle ≠ 0) :
    ∃ front', front ≤ front' ∧ Inv isa prog cycle sent front' (dispatchToIssue isa prog cycle s) ∧
      Queued s (dispatchToIssue isa prog cycle s) ∧
      ∀ j rest, s.instrQueue = j :: rest → (∀ u, s.reserv u = none) → j < front' := by
  have hcases : Dispatched isa prog cycle s (Tomasulo.dispatchToIssue isa prog cycle s) :=
    dispatchToIssue_cases
  have hhead : ∀ {j : ℕ} {rest : List ℕ}, s.instrQueue = j :: rest → ∀ i l,
      s.instrQueue = i :: l → (∀ u, s.reserv u = none) → i < j + 1 := by
    intro j rest hq i l hi _
    rw [hq] at hi
    cases hi
    omega
  generalize Tomasulo.dispatchToIssue isa prog cycle s = s' at hcases ⊢
  cases hcases with
  | wait hwait =>
      refine ⟨front, le_rfl, h, Queued.refl s, fun j rest hj hempty => ?_⟩
      obtain ⟨_, k, _, hfull⟩ := hwait j rest hj
      have hsize : 0 < k.reservSize := by cases k <;> decide
      exact absurd (hempty ⟨k, ⟨0, hsize⟩⟩) (hfull _ rfl)
  | @discard j rest hq hnot =>
      obtain ⟨⟨hle, hle'⟩, htrap, hnone, hrest⟩ := h.head hq
      refine ⟨j + 1, by omega, ?_, Queued.pop hq rest, hhead hq⟩
      rw [hrest]
      refine h.skip (by omega) (by omega) fun i hi hij ht => ?_
      rcases Nat.lt_succ_iff_lt_or_eq.1 hij with hij | rfl
      · exact hnone i hi hij ht
      · rcases hnot with hb | hk
        · rw [ht.2.1] at hb
          cases hb
        · obtain ⟨k, hk'⟩ := ht.fuKind
          rw [hk] at hk'
          cases hk'
  | @place j rest u hq hb hk hu =>
      obtain ⟨⟨hle, hle'⟩, htrap, hnone, hrest⟩ := h.head hq
      have hskip := h.skip hle (by omega) hnone
      have hplace := hskip.place hc (tracked_of_fuKind htrap hb hk) hle' hk hu
      rw [hrest]
      exact ⟨j + 1, by omega, hplace, Queued.place hq u _, hhead hq⟩

end Dispatch

/-! ### Entering the queue -/

section Fetch

variable {trace : List Chunk} {simNumInsn : ℕ}

/-- The instruction that is fetched is the next one that is not a trap. -/
theorem skipTraps_spec {fuel fetchIndex i : ℕ} (h : skipTraps isa trace fuel fetchIndex = some i) :
    fetchIndex < i ∧ isa.isTrap (instrAt trace i).op = false ∧
      ∀ q, fetchIndex < q → q < i → isa.isTrap (instrAt trace q).op = true := by
  induction fuel generalizing fetchIndex with
  | zero => cases h
  | succ fuel ih =>
      unfold skipTraps at h
      split at h
      · cases h
      · next x hx =>
          have hat : instrAt trace (fetchIndex + 1) = x := by rw [instrAt, hx]; rfl
          split at h
          · next ht =>
              obtain ⟨hlt, hi, hq⟩ := ih h
              refine ⟨by omega, hi, fun q h₁ h₂ => ?_⟩
              rcases Nat.eq_or_lt_of_le h₁ with rfl | h₁
              · rw [Nat.succ_eq_add_one, hat]
                exact ht
              · exact hq q h₁ h₂
          · next ht =>
              cases h
              rw [hat]
              exact ⟨by omega, by simpa using ht, fun q h₁ h₂ => by omega⟩

/-- The queue when one more instruction has been fetched. -/
theorem queued_fetch {fetchIndex i : ℕ} (hle : front ≤ fetchIndex + 1) (hlt : fetchIndex < i)
    (hi : isa.isTrap (prog i).op = false)
    (hq : ∀ q, fetchIndex < q → q < i → isa.isTrap (prog q).op = true) :
    queued isa prog front i = queued isa prog front fetchIndex ++ [i] := by
  have hsplit : List.range' front (i + 1 - front) =
      List.range' front (fetchIndex + 1 - front) ++
        (List.range' (fetchIndex + 1) (i - (fetchIndex + 1)) ++ [i]) := by
    have h₁ : i + 1 - front = (fetchIndex + 1 - front) + ((i - (fetchIndex + 1)) + 1) := by omega
    rw [h₁, ← List.range'_append_1, List.range'_concat]
    have h₂ : front + (fetchIndex + 1 - front) = fetchIndex + 1 := by omega
    have h₃ : fetchIndex + 1 + 1 * (i - (fetchIndex + 1)) = i := by omega
    rw [h₂, h₃]
  have hnil : (List.range' (fetchIndex + 1) (i - (fetchIndex + 1))).filter
      (fun j => !isa.isTrap (prog j).op) = [] := by
    rw [List.filter_eq_nil_iff]
    intro q hmem
    rw [List.mem_range'_1] at hmem
    simp [hq q (by omega) (by omega)]
  rw [queued, hsplit, List.filter_append, List.filter_append, hnil]
  simp [queued, hi]

/-- What `fetch` does: nothing, if the queue is full or the trace has been read; or the next
instruction that is not a trap enters the queue. -/
theorem fetch_cases (h : fetch isa trace simNumInsn s = some s') :
    (¬ (s.instrQueue.length < INSTR_QUEUE_SIZE ∧ s.fetchIndex ≤ simNumInsn) ∧ s' = s) ∨
    ((s.instrQueue.length < INSTR_QUEUE_SIZE ∧ s.fetchIndex ≤ simNumInsn) ∧
      ∃ i, s.fetchIndex < i ∧ isa.isTrap (instrAt trace i).op = false ∧
        (∀ q, s.fetchIndex < q → q < i → isa.isTrap (instrAt trace q).op = true) ∧
        s' = { s with fetchIndex := i, instrQueue := s.instrQueue ++ [i] }) := by
  unfold fetch at h
  split at h
  · next hroom =>
      obtain ⟨i, hi, rfl⟩ := Option.map_eq_some_iff.1 h
      obtain ⟨hlt, htrap, hq⟩ := skipTraps_spec hi
      exact .inr ⟨hroom, i, hlt, htrap, hq, rfl⟩
  · next hfull =>
      cases h
      exact .inl ⟨hfull, rfl⟩

/-- The dispatch cycles do not matter to the rest of the invariant. -/
theorem Inv.withDispatch (h : Inv isa prog now sent front s) (d : ℕ → ℕ) {l : List ℕ} {i : ℕ}
    (hle : s.fetchIndex ≤ i) (hl : l = queued isa prog front i)
    (hd : ∀ j, isa.isTrap (prog j).op = false → 1 ≤ j → j ≤ i → d j ≠ 0) :
    Inv isa prog now sent front { s with
      instrQueue := l
      fetchIndex := i
      table := fun j => { s.table j with tomDispatchCycle := d j } } :=
  ⟨⟨h.bounds.1, h.bounds.2.trans (Nat.succ_le_succ hle)⟩, hl, h.reservKind, h.fuKind,
    h.reservDistinct, h.fuDistinct, h.reserv, h.fu, h.map, h.tags, h.fresh, hd, h.issued, h.started,
    h.written, h.raw⟩

/-- The table after the dispatch cycle of an instruction has been noted. -/
theorem update_dispatch (t : ℕ → Progress) (j cycle : ℕ) :
    Function.update t j { t j with tomDispatchCycle := cycle } = fun i => { t i with
      tomDispatchCycle := if i = j then cycle else (t i).tomDispatchCycle } := by
  funext i
  by_cases hij : i = j
  · subst hij
    rw [Function.update_self, if_pos rfl]
  · rw [Function.update_of_ne hij, if_neg hij]

/-- The cycle is noted in the last instruction of the queue. -/
def noteDispatch (cycle : ℕ) (s : State) : State :=
  match s.instrQueue.getLast? with
  | none => s
  | some j =>
      if (s.table j).tomDispatchCycle = 0 then
        s.modify j fun p => { p with tomDispatchCycle := cycle }
      else s

theorem fetchToDispatch_eq : fetchToDispatch isa trace simNumInsn cycle s =
    (fetch isa trace simNumInsn s).map (noteDispatch cycle) := rfl

/-- What has changed when the cycle has been noted. -/
theorem noteDispatch_eq (cycle : ℕ) (s : State) : ∃ d : ℕ → ℕ,
    noteDispatch cycle s = { s with table := fun j => { s.table j with tomDispatchCycle := d j } } ∧
      (∀ j, (s.table j).tomDispatchCycle ≠ 0 → d j = (s.table j).tomDispatchCycle) ∧
      ∀ j, s.instrQueue.getLast? = some j → cycle ≠ 0 → d j ≠ 0 := by
  unfold noteDispatch
  split
  · next hnone =>
      refine ⟨fun j => (s.table j).tomDispatchCycle, rfl, fun _ _ => rfl, fun j hj => ?_⟩
      rw [hnone] at hj
      cases hj
  · next j hj =>
      split
      · next hzero =>
          refine ⟨fun i => if i = j then cycle else (s.table i).tomDispatchCycle, ?_,
            fun i hi => ?_, fun i hi hc => ?_⟩
          · unfold State.modify
            rw [update_dispatch]
          · have hij : i ≠ j := fun e => hi (e ▸ hzero)
            simp [hij]
          · rw [hj] at hi
            cases hi
            simpa using hc
      · next hne =>
          refine ⟨fun i => (s.table i).tomDispatchCycle, rfl, fun _ _ => rfl, fun i hi _ => ?_⟩
          rw [hj] at hi
          cases hi
          exact hne

/-- **The fifth stage.**  An instruction enters the queue. -/
theorem Inv.fetchToDispatch (h : Inv isa (instrAt trace) now sent front s) (hc : cycle ≠ 0)
    (hf : fetchToDispatch isa trace simNumInsn cycle s = some s') :
    Inv isa (instrAt trace) now sent front s' ∧ Later s s' ∧
      s'.commonDataBus = s.commonDataBus ∧
      (∀ j, (s'.table j).tomCdbCycle = (s.table j).tomCdbCycle) ∧
      (s.instrQueue = [] → s.fetchIndex ≤ simNumInsn → s.fetchIndex < s'.fetchIndex) := by
  rw [fetchToDispatch_eq] at hf
  obtain ⟨s₁, hs₁, rfl⟩ := Option.map_eq_some_iff.1 hf
  obtain ⟨d, he, hkeep, hlast⟩ := noteDispatch_eq cycle s₁
  rw [he]
  rcases fetch_cases hs₁ with ⟨hfull, rfl⟩ | ⟨_, i, hlt, htrap, hq, rfl⟩
  · refine ⟨h.withDispatch d le_rfl h.queue fun j hj h₁ h₂ => ?_,
      ⟨le_rfl, fun _ _ => rfl, fun _ _ => rfl⟩, rfl, fun _ => rfl, fun hnil hle => ?_⟩
    · have hne := h.dispatched j hj h₁ h₂
      rw [hkeep j hne]
      exact hne
    · exact absurd ⟨by rw [hnil]; decide, hle⟩ hfull
  · have hqueue : s.instrQueue ++ [i] = queued isa (instrAt trace) front i := by
      rw [h.queue, queued_fetch h.bounds.2 hlt htrap hq]
    refine ⟨h.withDispatch d hlt.le hqueue fun j hj h₁ h₂ => ?_,
      ⟨hlt.le, fun _ _ => rfl, fun _ _ => rfl⟩, rfl, fun _ => rfl, fun _ _ => hlt⟩
    rcases Nat.lt_trichotomy j i with hji | rfl | hji
    · by_cases hjf : j ≤ s.fetchIndex
      · have hne := h.dispatched j hj h₁ hjf
        rw [hkeep j hne]
        exact hne
      · rw [hq j (by omega) hji] at hj
        cases hj
    · exact hlast j (by simp) hc
    · exact absurd h₂ (Nat.not_le.2 hji)

end Fetch

/-! ### The cycle -/

section Cycle

variable {trace : List Chunk} {simNumInsn : ℕ}

/-- The state in which `executeToCDB` works: the bus is free. -/
def freed (s : State) : State := { s with commonDataBus := none }

/-- The state after the second stage. -/
def drained (isa : Isa) (prog : ℕ → Instr) (cycle : ℕ) (s : State) : State :=
  executeToCDB isa prog cycle (freed s)

/-- The first two stages, from a state between two cycles. -/
theorem Inv.first (h : Inv isa prog now now front s) :
    Executed isa prog (freed s) (now + 1) (drained isa prog (now + 1) s) ∧
      Inv isa prog (now + 1) now front (drained isa prog (now + 1) s) ∧
      Bus (now + 1) (drained isa prog (now + 1) s) := by
  have hfree : Inv isa prog now now front (freed s) := h.retire
  have hx : Executed isa prog (freed s) (now + 1) (drained isa prog (now + 1) s) :=
    executeToCDB_spec rfl hfree.reservKind hfree.reservDistinct hfree.fuDistinct
  exact ⟨hx, hfree.executed hx le_rfl, hfree.bus_executed hx⟩

theorem cycleOnce_eq (hb : Bus now s) : cycleOnce isa trace simNumInsn (now + 1) s =
    Tomasulo.fetchToDispatch isa trace simNumInsn (now + 1)
      (Tomasulo.dispatchToIssue isa (instrAt trace) (now + 1)
        (Tomasulo.issueToExecute (instrAt trace) (now + 1)
          (drained isa (instrAt trace) (now + 1) s))) := by
  unfold cycleOnce
  rw [commonDataBus_cdbToRetire hb]
  rfl

/-- What `dispatchToIssue` keeps of the bus. -/
theorem Queued.bus_iff (hq : Queued s s') (hb : Bus cycle s) : Bus cycle s' := by
  intro j
  rw [hq.bus, hq.cdb]
  exact hb j

/-- **A cycle** keeps the invariant. -/
theorem Inv.cycleOnce (h : Inv isa (instrAt trace) now now front s) (hb : Bus now s)
    (hs : cycleOnce isa trace simNumInsn (now + 1) s = some s') :
    ∃ front', front ≤ front' ∧ Inv isa (instrAt trace) (now + 1) (now + 1) front' s' ∧
      Bus (now + 1) s' := by
  rw [cycleOnce_eq hb] at hs
  obtain ⟨_, h₂, hb₂⟩ := h.first
  obtain ⟨h₃, hb₃⟩ := h₂.issueToExecute hb₂
  obtain ⟨front', hle, h₄, hq, _⟩ := h₃.dispatchToIssue (by omega)
  obtain ⟨h₅, _, hbus, hcdb, _⟩ := h₄.fetchToDispatch (by omega) hs
  refine ⟨front', hle, h₅, fun j => ?_⟩
  rw [hbus, hcdb]
  exact hq.bus_iff hb₃ j

/-- What is true between two cycles. -/
def Between (isa : Isa) (trace : List Chunk) (now : ℕ) (s : State) : Prop :=
  ∃ front, Inv isa (instrAt trace) now now front s ∧ Bus now s

/-- **A run** keeps the invariant. -/
theorem between_after (h₀ : ¬ Tracked isa (instrAt trace) 0) {k : ℕ} {s : State}
    (h : after isa trace simNumInsn k = some s) : Between isa trace k s := by
  induction k generalizing s with
  | zero =>
      cases h
      exact ⟨1, Inv.init h₀, Bus.init⟩
  | succ k ih =>
      obtain ⟨s₀, h₀, hs⟩ := Option.bind_eq_some_iff.1 h
      obtain ⟨front, hinv, hb⟩ := ih h₀
      obtain ⟨front', _, hinv', hb'⟩ := hinv.cycleOnce hb hs
      exact ⟨front', hinv', hb'⟩

end Cycle

/-! ### Recorded traces -/

section Recorded

variable {xs : List Instr}

/-- Behind the end of the trace there is nothing to execute. -/
theorem not_tracked_zero {j : ℕ} (h : j = 0 ∨ xs.length < j) :
    ¬ Tracked isa (instrAt (record xs)) j := by
  intro ht
  obtain ⟨k, hk⟩ := ht.fuKind
  rw [instrAt_record_eq_zero h] at hk
  change isa.fuKind 0 = some k at hk
  rw [Isa.fuKind_na] at hk
  cases hk

/-- An instruction that goes through a reservation station and does not write the bus has no
outputs, as in the opcode table of the target. -/
def Silent (isa : Isa) (x : Instr) : Prop :=
  isa.isTrap x.op = false → isa.isBranch x.op = false →
    (isa.usesIntFu x.op = true ∨ isa.usesFpFu x.op = true) → isa.writesCdb x.op = false →
    ∀ i, x.rOut i = none

instance (isa : Isa) (x : Instr) : Decidable (Silent isa x) := by
  unfold Silent
  infer_instance

/-- A tracked instruction is one of the run. -/
theorem exists_of_tracked {j : ℕ} (h : Tracked isa (instrAt (record xs)) j) :
    ∃ (i : ℕ) (hi : i < xs.length), j = i + 1 ∧
      instrAt (record xs) j = { xs[i] with index := i + 1 } := by
  by_cases hj : j = 0 ∨ xs.length < j
  · exact absurd h (not_tracked_zero hj)
  · have hi : j - 1 < xs.length := by omega
    obtain ⟨i, rfl⟩ : ∃ i, j = i + 1 := ⟨j - 1, by omega⟩
    exact ⟨i, hi, rfl, instrAt_record hi⟩

/-- The number of a tracked instruction is its index. -/
theorem index_of_tracked {j : ℕ} (h : Tracked isa (instrAt (record xs)) j) :
    (instrAt (record xs) j).index = j := by
  obtain ⟨i, hi, rfl, he⟩ := exists_of_tracked h
  rw [he]

/-- A recorded trace gives what the invariant asks for. -/
theorem trace_record (hout : ∀ x ∈ xs, Silent isa x) : Trace isa (instrAt (record xs)) := by
  refine ⟨fun j hj => index_of_tracked hj, not_tracked_zero (.inl rfl), fun j hj hw => ?_⟩
  obtain ⟨i, hi, rfl, he⟩ := exists_of_tracked hj
  obtain ⟨ht, hb, hu⟩ := hj
  rw [he] at ht hb hu hw ⊢
  exact hout xs[i] (List.getElem_mem hi) ht hb hu hw

end Recorded

/-- **Read after write.**  An instruction starts only after the youngest producer of each of its
inputs has written the bus. -/
theorem execute_after_producers (isa : Isa) (xs : List Instr) (hout : ∀ x ∈ xs, Silent isa x)
    {k : ℕ} {s : State} (hs : after isa (record xs) xs.length k = some s) {i p : ℕ} {m : Fin 3}
    {r : Fin MD_TOTAL_REGS} (hm : (instrAt (record xs) i).rIn m = some r)
    (hp : LastWriter isa (instrAt (record xs)) i r p) (he : (s.table i).tomExecuteCycle ≠ 0) :
    (s.table p).tomCdbCycle ≠ 0 ∧ (s.table p).tomCdbCycle < (s.table i).tomExecuteCycle := by
  obtain ⟨front, hinv, _⟩ := between_after (trace_record hout).zero hs
  exact hinv.raw i he m r p hm hp

/-- A target with one opcode for integer instructions and one for stores. -/
def demoIsa : Isa := ⟨fun op => if op = 1 then F_ICOMP else if op = 2 then F_STORE else 0, rfl⟩

/-- The store of the example starts after the second instruction, and not the first, has written the
bus. -/
theorem execute_after_producers_demo :
    ∃ s, after demoIsa (record demoRun) demoRun.length 16 = some s ∧
    (s.table 3).tomExecuteCycle = 15 ∧ (s.table 2).tomCdbCycle ≠ 0 ∧
    (s.table 2).tomCdbCycle < (s.table 3).tomExecuteCycle := by
  have hrun : (after demoIsa (record demoRun) demoRun.length 16).map
      (fun s => (s.table 3).tomExecuteCycle) = some 15 := by decide +kernel
  obtain ⟨s, hs, he⟩ := Option.map_eq_some_iff.1 hrun
  have hin : (instrAt (record demoRun) 3).rIn 0 = some 1 := by decide +kernel
  have hlast : LastWriter demoIsa (instrAt (record demoRun)) 3 1 2 := by
    refine ⟨by decide, ⟨?_, ?_, ?_⟩, ⟨0, ?_⟩, fun q h₁ h₂ => by omega⟩
    all_goals decide +kernel
  have h := execute_after_producers demoIsa demoRun (by decide +kernel) hs hin hlast (by omega)
  exact ⟨s, hs, he, h⟩

end Tomasulo
