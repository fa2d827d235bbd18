/-
**Which instruction goes first.**

Two stages of the Tomasulo machine choose among instructions.  `issueToExecute` fills the free
functional units of a kind, each with the oldest instruction in a reservation station of the kind
that can start; `executeToCDB` gives the bus to the oldest instruction that has finished.  This
module proves that the choices are work conserving and in program order, with readiness expressed by
the dependences of the program: the instructions that produce the inputs have broadcast their tags.

Main definitions:

* `Tomasulo.scanStation` — the loop over the reservation stations, at one of them;
* `Tomasulo.Ready` — an instruction could start: it waits in a station, it came there before the
  cycle, and the producers of its inputs have broadcast before the cycle;
* `Tomasulo.CompletedWriter` — an instruction in a unit has finished, and needs the bus.

Main results:

* `Tomasulo.foldl_scanStation` — the loop over the stations finds the oldest instruction that can
  start;
* `Tomasulo.issueUnits_oldest` — what starts is older than what is left behind;
* `Tomasulo.oldest_first` — **oldest first, and work conserving**.
-/

import ArchLab.TomasuloStatus

set_option relaxedAutoImplicit false
set_option autoImplicit false

namespace Tomasulo

variable {isa : Isa} {prog : ℕ → Instr} {now sent front cycle : ℕ} {s s' : State}

/-! ### The loop over the stations -/

section Scan

/-- The loop over the reservation stations of `issueToExecute`, at one of them: an instruction that
can start becomes the candidate if it is the oldest so far. -/
def scanStation (prog : ℕ → Instr) (s : State) (cycle : ℕ) (oldest : Option ℕ) (u : Station) :
    Option ℕ :=
  match s.reserv u with
  | none => oldest
  | some j =>
      if s.issueable cycle j then
        match oldest with
        | none => some j
        | some o => if (prog o).index > (prog j).index then some j else oldest
      else oldest

/-- **The loop finds the oldest instruction** that can start. -/
theorem foldl_scanStation (k : FuKind) :
    (stations k).foldl (scanStation prog s cycle) none = s.oldestIssueable prog k cycle := by
  rw [State.oldestIssueable, List.argmin, Slots.contents, List.foldl_filter, List.foldl_filterMap]
  congr 1
  funext oldest u
  unfold scanStation
  cases s.reserv u with
  | none => rfl
  | some j =>
      by_cases hj : s.issueable cycle j = true
      · simp only [hj, if_true]
        cases oldest with
        | none => rfl
        | some o => rfl
      · dsimp only
        rw [if_neg hj, if_neg hj]

/-- The instruction that is chosen is the oldest one. -/
theorem oldestIssueable_le {k : FuKind} {i j : ℕ} {u : Station}
    (hi : s.oldestIssueable prog k cycle = some i) (hu : u.1 = k) (hr : s.reserv u = some j)
    (hj : s.issueable cycle j = true) : (prog i).index ≤ (prog j).index := by
  refine List.le_of_mem_argmin (f := fun j => (prog j).index) (List.mem_filter.2 ⟨?_, hj⟩) hi
  exact Slots.mem_contents.2 ⟨u, mem_stations.2 hu, hr⟩

end Scan

/-! ### Filling the units -/

section Fill

variable {k : FuKind} {us : List FuncUnit} {i j : ℕ}

/-- What `issueUnits` may change, for any list of units of a kind. -/
theorem issueUnits_started (hc : cycle ≠ 0) (hk : ∀ v ∈ us, v.1 = k) :
    Started cycle s (issueUnits prog cycle k us s) :=
  issueUnits_induct (P := Started cycle s) (fun _ _ _ _ h _ _ _ hv hj => h.start hv hj hc) hk
    (Started.refl cycle s)

/-- The only instruction that starts is the one that is chosen. -/
theorem tomExecuteCycle_start (s : State) (cycle : ℕ) (v : FuncUnit) {m : ℕ} (hne : i ≠ m) :
    ((s.start cycle v m).table i).tomExecuteCycle = (s.table i).tomExecuteCycle := by
  change (Function.update s.table m _ i).tomExecuteCycle = _
  rw [Function.update_of_ne hne]

/-- An instruction that starts is in a station of the kind. -/
theorem issueUnits_station (hc : cycle ≠ 0) (hk : ∀ v ∈ us, v.1 = k)
    (hi : ((issueUnits prog cycle k us s).table i).tomExecuteCycle ≠ (s.table i).tomExecuteCycle) :
    ∃ u : Station, u.1 = k ∧ s.reserv u = some i := by
  have hall : Started cycle s (issueUnits prog cycle k us s) ∧ ∀ i,
      ((issueUnits prog cycle k us s).table i).tomExecuteCycle ≠ (s.table i).tomExecuteCycle →
      ∃ u : Station, u.1 = k ∧ s.reserv u = some i := by
    refine issueUnits_induct (P := fun s' => Started cycle s s' ∧ ∀ i,
      (s'.table i).tomExecuteCycle ≠ (s.table i).tomExecuteCycle →
      ∃ u : Station, u.1 = k ∧ s.reserv u = some i) (fun s₁ u v m h hu _ hr hfree hm => ?_) hk
      ⟨Started.refl cycle s, fun _ h => absurd rfl h⟩
    refine ⟨h.1.start hfree hm hc, fun i hi => ?_⟩
    by_cases him : i = m
    · subst him
      rw [h.1.same] at hr
      exact ⟨u, hu, hr⟩
    · rw [tomExecuteCycle_start _ _ _ him] at hi
      exact h.2 i hi
  exact hall.2 i hi

/-- **What starts is older than what is left behind.** -/
theorem issueUnits_oldest (hc : cycle ≠ 0) {u : Station} (hk : ∀ v ∈ us, v.1 = k) (hu : u.1 = k)
    (hr : s.reserv u = some j) (hj : (issueUnits prog cycle k us s).issueable cycle j = true)
    (hi : ((issueUnits prog cycle k us s).table i).tomExecuteCycle ≠ (s.table i).tomExecuteCycle) :
    (prog i).index ≤ (prog j).index := by
  induction us generalizing s with
  | nil => exact absurd rfl hi
  | cons w us ih =>
      have hrest : ∀ v ∈ us, v.1 = k := fun v hv => hk v (List.mem_cons_of_mem w hv)
      -- an instruction that can start at the end could start at any time before
      have hbefore : s.issueable cycle j = true := (issueUnits_started hc hk).issueable_of hj
      unfold issueUnits at hj hi
      by_cases hfree : s.fu w = none
      · rw [if_pos hfree] at hj hi
        cases ho : s.oldestIssueable prog k cycle with
        | none =>
            simp only [ho] at hi
            exact absurd rfl hi
        | some m =>
            simp only [ho] at hj hi
            by_cases him : i = m
            · rw [him]
              exact oldestIssueable_le ho hu hr hbefore
            · rw [← tomExecuteCycle_start s cycle w him] at hi
              exact ih (s := s.start cycle w m) hrest hr hj hi
      · rw [if_neg hfree] at hj hi
        exact ih hrest hr hj hi

/-- Both loops of the stage: an instruction that starts is older than one of its kind that could
still start. -/
theorem startAll_oldest (hc : cycle ≠ 0) (hinv : Inv isa prog now sent front s) {u : Station}
    (hk : isa.fuKind (prog i).op = some u.1) (hr : s.reserv u = some j)
    (hj : (startAll prog cycle s).issueable cycle j = true)
    (hi : ((startAll prog cycle s).table i).tomExecuteCycle ≠ (s.table i).tomExecuteCycle) :
    (prog i).index ≤ (prog j).index := by
  have hint : Started cycle s (issueUnits prog cycle .INT (units .INT) s) :=
    issueUnits_started hc fun _ => mem_units.1
  have hfp : Started cycle (issueUnits prog cycle .INT (units .INT) s) (startAll prog cycle s) :=
    issueUnits_started hc fun _ => mem_units.1
  have hreserv : (issueUnits prog cycle .INT (units .INT) s).reserv = s.reserv := by rw [hint.same]
  have hkind : ∀ {v : Station} {k : FuKind}, v.1 = k → s.reserv v = some i → u.1 = k := by
    intro v k hv hri
    have hvi := hinv.reservKind v i hri
    rw [hk, hv] at hvi
    exact Option.some.inj hvi
  by_cases hfirst : ((issueUnits prog cycle .INT (units .INT) s).table i).tomExecuteCycle =
      (s.table i).tomExecuteCycle
  · -- it starts in the second loop
    rw [← hfirst] at hi
    obtain ⟨v, hv, hri⟩ := issueUnits_station (s := issueUnits prog cycle .INT (units .INT) s) hc
      (fun _ => mem_units.1) hi
    rw [hreserv] at hri
    exact issueUnits_oldest (s := issueUnits prog cycle .INT (units .INT) s) hc
      (fun _ => mem_units.1) (hkind hv hri) (by rw [hreserv]; exact hr) hj hi
  · obtain ⟨v, hv, hri⟩ := issueUnits_station hc (fun _ => mem_units.1) hfirst
    exact issueUnits_oldest hc (fun _ => mem_units.1) (hkind hv hri) hr (hfp.issueable_of hj) hfirst

end Fill

/-! ### Oldest first -/

section Choice

variable {trace : List Chunk} {n k : ℕ}

/-- An instruction in a station could start in the cycle after `k` others: it came there before the
cycle, has not started, and the producers of its inputs have broadcast before the cycle. -/
structure Ready (isa : Isa) (trace : List Chunk) (n k : ℕ) (s : State) (kind : FuKind) (j : ℕ) :
    Prop where
  station : ∃ u : Station, u.1 = kind ∧ s.reserv u = some j
  issued : (s.table j).tomIssueCycle < k + 1
  waiting : (s.table j).tomExecuteCycle = 0
  producers : ∀ m r p, (instrAt trace j).rIn m = some r →
    LastWriter isa (instrAt trace) j r p → ∃ c < k, Broadcast isa trace n c p

/-- An instruction in a unit has completed its latency, and writes the bus. -/
structure CompletedWriter (isa : Isa) (prog : ℕ → Instr) (cycle : ℕ) (s : State) (u : FuncUnit)
    (j : ℕ) : Prop where
  unit : s.fu u = some j
  latency : (s.table j).tomExecuteCycle + u.1.latency ≤ cycle
  writes : isa.writesCdb (prog j).op = true

/-- The third stage, seen from its end: the stations are those of both loops, and so are the
units. -/
theorem issueToExecute_startAll (prog : ℕ → Instr) (s : State) (hc : cycle ≠ 0) :
    (issueToExecute prog cycle s).fu = (startAll prog cycle s).fu ∧
    (startAll prog cycle s).reserv = s.reserv ∧
    (∀ j, ((startAll prog cycle s).table j).tomIssueCycle =
      ((issueToExecute prog cycle s).table j).tomIssueCycle) := by
  have hst : Started cycle s (startAll prog cycle s) := startAll_started hc
  refine ⟨?_, by rw [hst.same], fun j => ?_⟩
  · rw [issueToExecute_eq]
    split <;> rfl
  · rw [issueToExecute_eq]
    split
    · rfl
    · rw [tomIssueCycle_broadcastTags]

/-- An instruction that is ready at the end of the third stage could still start. -/
theorem Ready.issueable (h₀ : ¬ Tracked isa (instrAt trace) 0) (hs : after isa trace n k = some s)
    (hinv : Inv isa (instrAt trace) k k front s) (hb : Bus k s) {kind : FuKind} {j : ℕ}
    (h : Ready isa trace n k (issueToExecute (instrAt trace) (k + 1)
      (drained isa (instrAt trace) (k + 1) s)) kind j) :
    (∃ u : Station, u.1 = kind ∧ (drained isa (instrAt trace) (k + 1) s).reserv u = some j) ∧
    (startAll (instrAt trace) (k + 1) (drained isa (instrAt trace) (k + 1) s)).issueable (k + 1) j =
      true := by
  have hc : k + 1 ≠ 0 := by omega
  obtain ⟨_, h₂, _⟩ := hinv.first
  have hall : Inv isa (instrAt trace) (k + 1) k front
      (startAll (instrAt trace) (k + 1) (drained isa (instrAt trace) (k + 1) s)) :=
    (h₂.issueUnits (by omega) .INT).issueUnits (by omega) .FP
  have hst : Started (k + 1) (drained isa (instrAt trace) (k + 1) s)
      (startAll (instrAt trace) (k + 1) (drained isa (instrAt trace) (k + 1) s)) :=
    startAll_started hc
  have hi : Issued (instrAt trace) (k + 1) (drained isa (instrAt trace) (k + 1) s) _ :=
    issueToExecute_issued hc
  obtain ⟨_, hreserv, hissue⟩ := issueToExecute_startAll (instrAt trace)
    (drained isa (instrAt trace) (k + 1) s) hc
  obtain ⟨u, hu, hr⟩ := h.station
  rw [hi.reserv] at hr
  have hwait := h.waiting
  rw [hi.execute] at hwait
  refine ⟨⟨u, hu, hr⟩, decide_eq_true ⟨fun m => ?_, hwait, ?_⟩⟩
  · -- the tag of a producer that has broadcast is gone
    by_contra hQ
    obtain ⟨p, hp⟩ := Option.ne_none_iff_exists'.1 hQ
    obtain ⟨r, hm, hlast, hnot⟩ := (hall.tags j ⟨u, by rw [hreserv]; exact hr⟩ hwait m p).1 hp
    obtain ⟨c, hck, hbc⟩ := h.producers m r p hm hlast
    have hby : BroadcastBy isa trace n k .execute p := ⟨c, .inl hck, hbc⟩
    rw [broadcastBy_iff h₀ hs (throughStage_execute hb)] at hby
    refine hnot ?_
    unfold Sent at hby ⊢
    rw [hst.tomCdbCycle]
    exact hby
  · rw [hissue]
    exact h.issued

/-- **Oldest first, and work conserving.**  At the end of `issueToExecute` no instruction that is
ready is left behind while a unit of its kind is idle, and none that is older than an instruction of
its kind that starts in the cycle.  If some instructions have finished that need the bus when
`executeToCDB` runs, the oldest one of them takes it, and no other one. -/
theorem oldest_first (isa : Isa) (xs : List Instr) {k : ℕ} {s₁ s₂ s₃ : State}
    (h₁ : afterStage isa (record xs) xs.length k .retire = some s₁)
    (h₂ : afterStage isa (record xs) xs.length k .execute = some s₂)
    (h₃ : afterStage isa (record xs) xs.length k .issue = some s₃) :
    (∀ v : FuncUnit, s₃.fu v = none → ∀ j, ¬ Ready isa (record xs) xs.length k s₃ v.1 j) ∧
    (∀ kind i j, isa.fuKind (instrAt (record xs) i).op = some kind →
      (s₃.table i).tomExecuteCycle = k + 1 →
      Ready isa (record xs) xs.length k s₃ kind j → i < j) ∧
    ((∃ u j, CompletedWriter isa (instrAt (record xs)) (k + 1) s₁ u j) →
      ∃ o, s₂.commonDataBus = some o ∧ (∀ j, (s₂.table j).tomCdbCycle = k + 1 ↔ j = o) ∧
        (∃ u, CompletedWriter isa (instrAt (record xs)) (k + 1) s₁ u o) ∧
        ∀ u j, CompletedWriter isa (instrAt (record xs)) (k + 1) s₁ u j → o ≤ j) := by
  have hc : k + 1 ≠ 0 := by omega
  have h₀ : ¬ Tracked isa (instrAt (record xs)) 0 := not_tracked_zero (.inl rfl)
  obtain ⟨s, hs, h₁⟩ := Option.bind_eq_some_iff.1 h₁
  rw [afterStage, hs, Option.bind_some] at h₂ h₃
  obtain ⟨front, hinv, hb⟩ := between_after h₀ hs
  rw [throughStage_retire hb] at h₁
  rw [throughStage_execute hb] at h₂
  rw [throughStage_issue hb] at h₃
  cases h₁
  cases h₂
  cases h₃
  obtain ⟨hx, hinv₂, hb₂⟩ := hinv.first
  obtain ⟨hinv₃, _⟩ := hinv₂.issueToExecute hb₂
  refine ⟨?_, ?_, ?_⟩
  · intro v hv j hj
    obtain ⟨⟨u, hu, hr⟩, hcan⟩ := hj.issueable h₀ hs hinv hb
    obtain ⟨hfu, hreserv, _⟩ := issueToExecute_startAll (instrAt (record xs))
      (drained isa (instrAt (record xs)) (k + 1) s) hc
    rw [hfu] at hv
    exact startAll_busy hc (by rw [hreserv]; exact hr) hcan hu.symm hv
  · intro kind i j hi he hj
    obtain ⟨⟨u, hu, hr⟩, hcan⟩ := hj.issueable h₀ hs hinv hb
    have hi' : Issued (instrAt (record xs)) (k + 1)
        (drained isa (instrAt (record xs)) (k + 1) s) _ := issueToExecute_issued hc
    have hne : i ≠ j := by
      rintro rfl
      have := hj.waiting
      omega
    have hti : Tracked isa (instrAt (record xs)) i := by
      by_contra hn
      have hzero := (hinv₃.fresh i fun h => hn h.1).2.2.1
      omega
    rw [hi'.execute] at he
    -- before the stage it had not started in this cycle
    have hbefore : ((drained isa (instrAt (record xs)) (k + 1) s).table i).tomExecuteCycle ≤ k := by
      rw [hx.tomExecuteCycle]
      by_cases hzero : (s.table i).tomExecuteCycle = 0
      · exact hzero.trans_le (Nat.zero_le k)
      · exact (hinv.started i hzero).2
    have hstart := (hu ▸ hi : isa.fuKind (instrAt (record xs) i).op = some u.1)
    have hle := startAll_oldest hc hinv₂ hstart hr hcan (by omega)
    have htj := ((hinv₂.reserv j).1 ⟨u, hr⟩).1.1
    rw [index_of_tracked hti, index_of_tracked htj] at hle
    omega
  · rintro ⟨u, j, hj⟩
    obtain ⟨o, ho, _⟩ := hx.oldest u j ⟨hj.unit, hj.latency⟩ hj.writes
    obtain ⟨v, hf, hw⟩ := hx.bus o ho
    refine ⟨o, ho, fun i => ?_, ⟨v, hf.1, hf.2, hw⟩, fun u' i hi => ?_⟩
    · have hbus := hb₂ i
      rw [ho, Option.some.injEq, eq_comm] at hbus
      rw [hbus]
      omega
    · obtain ⟨o', ho', hle⟩ := hx.oldest u' i ⟨hi.unit, hi.latency⟩ hi.writes
      rw [ho] at ho'
      cases ho'
      have hto := (hinv.retire.in_unit hf.1).1.1
      have hti := (hinv.retire.in_unit hi.unit).1.1
      rwa [index_of_tracked hto, index_of_tracked hti] at hle

/-- In cycle 8 of the example the first instruction has finished, and takes the bus. -/
theorem oldest_first_demo :
    ∃ s, afterStage demoIsa (record demoRun) demoRun.length 7 .execute = some s ∧
    ∃ o, s.commonDataBus = some o ∧ ∀ j, (s.table j).tomCdbCycle = 8 ↔ j = o := by
  have hrun : (afterStage demoIsa (record demoRun) demoRun.length 7 .retire).map (fun s =>
      (s.fu ⟨.INT, ⟨0, by decide⟩⟩, (s.table 1).tomExecuteCycle)) = some (some 1, 3) := by
    decide +kernel
  obtain ⟨s₁, h₁, he⟩ := Option.map_eq_some_iff.1 hrun
  obtain ⟨hfu, hexec⟩ := Prod.mk.inj he
  have hrun₂ : (afterStage demoIsa (record demoRun) demoRun.length 7 .execute).isSome = true := by
    decide +kernel
  have hrun₃ : (afterStage demoIsa (record demoRun) demoRun.length 7 .issue).isSome = true := by
    decide +kernel
  obtain ⟨s₂, h₂⟩ := Option.isSome_iff_exists.1 hrun₂
  obtain ⟨s₃, h₃⟩ := Option.isSome_iff_exists.1 hrun₃
  have hwriter : CompletedWriter demoIsa (instrAt (record demoRun)) 8 s₁ _ 1 :=
    ⟨hfu, by rw [hexec]; decide, by decide +kernel⟩
  obtain ⟨o, ho, hall, _⟩ := (oldest_first demoIsa demoRun h₁ h₂ h₃).2.2 ⟨_, 1, hwriter⟩
  exact ⟨s₂, h₂, o, ho, hall⟩

end Choice

end Tomasulo
