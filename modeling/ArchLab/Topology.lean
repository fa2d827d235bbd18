/-
**The distances between the vertices of a topology.**

`mem/ruby/network/Topology.cc` turns the links of a configuration into a matrix of weights and
computes the distances between all vertices, from which the routing tables of the switches are read
off.  The distances are found by relaxing all pairs in place until a round changes nothing.  The
latency and the number of switches in between, which are only reported, are kept along: the number
is written whenever a better vertex in between is found, the latency behind the innermost loop, from
the last one found.

All entries are `int`s.  Weights are taken to be natural numbers: with negative ones the loop need
not end.  A sum of two distances that is not an `int` is a fault.  What is only reported is kept as
a 32-bit number.  What the distances are used for is in `ArchLab/TopologyLinks.lean`.

Main definitions:

* `Net.extendShortestPath` — the relaxation of all pairs.

Main results:

* `Net.relaxPair_cases` — **a pair is relaxed** through one vertex, or it is tight;
* `Net.extendShortestPath_ok` — the loop ends, and then all pairs are tight;
* `Net.shortest_path_least` — **the distances are the least costs of walks**, if the weights are
  below 2³⁰, and what is reported with them is the latency of such a walk and the number of its
  inner vertices.
-/

import ArchLab.Walks
import ArchLab.MessageBuffer
import Mathlib.Data.BitVec
import Mathlib.Data.List.FinRange
import Mathlib.Data.Fintype.Basic
import Mathlib.Algebra.BigOperators.Fin
import Mathlib.Algebra.Order.BigOperators.Group.Finset

set_option relaxedAutoImplicit false
set_option autoImplicit false

namespace Net

open Refine

/-! ### Shortest paths -/

/-- The matrices of `extend_shortest_path`. -/
structure Tables (n : ℕ) where
  currentDist : Fin n → Fin n → ℕ
  latencies : Fin n → Fin n → BitVec 32
  interSwitches : Fin n → Fin n → BitVec 32

variable {n : ℕ}

/-- An entry of a matrix is written. -/
def write {α : Type} (m : Fin n → Fin n → α) (i j : Fin n) (x : α) : Fin n → Fin n → α :=
  Function.update m i (Function.update (m i) j x)

/-- The variables of the innermost loop. -/
structure Scan (n : ℕ) where
  tables : Tables n
  minimum : ℕ
  intermediateSwitch : Option (Fin n)

/-- A round of the innermost loop of `extend_shortest_path`. -/
def Scan.step (i j : Fin n) (x : Scan n) (k : Fin n) : Except Fault (Scan n) := do
  let t := x.tables
  let sum ← checkInt (t.currentDist i k + t.currentDist k j)
  let minimum := min x.minimum sum
  if x.minimum ≠ minimum then
    return {
      tables := { t with
        interSwitches := write t.interSwitches i j (t.interSwitches i k + t.interSwitches k j + 1) }
      minimum := minimum
      intermediateSwitch := some k }
  else return { x with minimum := minimum }

/-- What is done behind the innermost loop. -/
def Scan.finish (i j : Fin n) (change : Bool) (x : Scan n) : Except Fault (Tables n × Bool) :=
  let t := x.tables
  if t.currentDist i j ≠ x.minimum then
    match x.intermediateSwitch with
    | none => .error .assertion
    | some k =>
        .ok ({ t with
          currentDist := write t.currentDist i j x.minimum
          latencies := write t.latencies i j (t.latencies i k + t.latencies k j) }, true)
  else .ok (t, change)

/-- The body of the two outer loops: the pair `(i, j)` is relaxed.  The second component of the
state is the variable `change`. -/
def relaxPair (x : Tables n × Bool) (p : Fin n × Fin n) : Except Fault (Tables n × Bool) := do
  let y ← (List.finRange n).foldlM (Scan.step p.1 p.2) ⟨x.1, x.1.currentDist p.1 p.2, none⟩
  y.finish p.1 p.2 x.2

/-- All pairs, in the order of the loops. -/
def pairs (n : ℕ) : List (Fin n × Fin n) :=
  (List.finRange n).flatMap fun i => (List.finRange n).map fun j => (i, j)

/-- The loop of `extend_shortest_path`, for at most `fuel` rounds. -/
def extendShortestPath : ℕ → Tables n → Except Fault (Tables n)
  | 0, _ => .error .fuel
  | fuel + 1, t => do
      let (t', change) ← (pairs n).foldlM relaxPair (t, false)
      if change then extendShortestPath fuel t' else return t'

/-! ### The relaxation of a pair -/

theorem write_self {α : Type} (m : Fin n → Fin n → α) (i j : Fin n) (x : α) :
    write m i j x i j = x := by
  rw [write, Function.update_self, Function.update_self]

theorem write_of_ne {α : Type} (m : Fin n → Fin n → α) {i j a b : Fin n} (x : α)
    (h : (a, b) ≠ (i, j)) : write m i j x a b = m a b := by
  unfold write
  by_cases ha : a = i
  · subst ha
    rw [Function.update_self, Function.update_of_ne]
    rintro rfl
    exact h rfl
  · rw [Function.update_of_ne ha]

theorem write_write {α : Type} (m : Fin n → Fin n → α) (i j : Fin n) (x y : α) :
    write (write m i j x) i j y = write m i j y := by
  unfold write
  rw [Function.update_self, Function.update_idem, Function.update_idem]

/-- The way from `i` to `j` is the one over `k` from now on. -/
def Tables.join (t : Tables n) (i k j : Fin n) : Tables n where
  currentDist := write t.currentDist i j (t.currentDist i k + t.currentDist k j)
  latencies := write t.latencies i j (t.latencies i k + t.latencies k j)
  interSwitches := write t.interSwitches i j (t.interSwitches i k + t.interSwitches k j + 1)

/-- No vertex is on a shorter way from `i` to `j`. -/
def Tables.Tight (t : Tables n) (i j : Fin n) : Prop :=
  ∀ k, t.currentDist i j ≤ t.currentDist i k + t.currentDist k j

/-- The sums of distances are `int`s. -/
def Tables.InRange (t : Tables n) : Prop :=
  ∀ i k j, t.currentDist i k + t.currentDist k j < 2 ^ 31

section Pair

variable {t : Tables n} {i j : Fin n} {x : Scan n} {ks : List (Fin n)}

/-- What the innermost loop has found after the vertices `ks`. -/
structure Scanned (t : Tables n) (i j : Fin n) (ks : List (Fin n)) (x : Scan n) : Prop where
  currentDist : x.tables.currentDist = t.currentDist
  latencies : x.tables.latencies = t.latencies
  le : ∀ k ∈ ks, x.minimum ≤ t.currentDist i k + t.currentDist k j
  none : x.intermediateSwitch = none → x.tables = t ∧ x.minimum = t.currentDist i j
  some : ∀ k, x.intermediateSwitch = some k →
    x.minimum = t.currentDist i k + t.currentDist k j ∧ x.minimum < t.currentDist i j ∧
      x.tables.interSwitches = (t.join i k j).interSwitches

theorem Scanned.minimum_le (h : Scanned t i j ks x) : x.minimum ≤ t.currentDist i j := by
  cases hk : x.intermediateSwitch with
  | none => exact (h.none hk).2.le
  | some k => exact (h.some k hk).2.1.le

theorem Scan.step_of_lt {k : Fin n} (hr : x.tables.InRange)
    (hlt : x.tables.currentDist i k + x.tables.currentDist k j < x.minimum) :
    x.step i j k = .ok
      { tables := { x.tables with
          interSwitches := write x.tables.interSwitches i j
            (x.tables.interSwitches i k + x.tables.interSwitches k j + 1) }
        minimum := x.tables.currentDist i k + x.tables.currentDist k j
        intermediateSwitch := some k } := by
  refine bind_ok.2 ⟨_, if_pos (hr i k j), ?_⟩
  rw [min_eq_right hlt.le, if_pos hlt.ne']
  rfl

theorem Scan.step_of_le {k : Fin n} (hr : x.tables.InRange)
    (hle : x.minimum ≤ x.tables.currentDist i k + x.tables.currentDist k j) :
    x.step i j k = .ok x := by
  refine bind_ok.2 ⟨_, if_pos (hr i k j), ?_⟩
  rw [min_eq_left hle, if_neg (not_not.2 rfl)]
  rfl

theorem Scanned.step (h : Scanned t i j ks x) (hr : t.InRange) (k : Fin n) :
    ∃ x', x.step i j k = .ok x' ∧ Scanned t i j (ks ++ [k]) x' := by
  have hmin := h.minimum_le
  have hr' : x.tables.InRange := by
    rw [Tables.InRange, h.currentDist]
    exact hr
  rcases Nat.lt_or_ge (t.currentDist i k + t.currentDist k j) x.minimum with hlt | hle
  · refine ⟨_, Scan.step_of_lt hr' (h.currentDist ▸ hlt), ?_⟩
    rw [h.currentDist]
    refine ⟨h.currentDist, h.latencies, ?_, nofun, ?_⟩
    · intro k' hk'
      rcases List.mem_append.1 hk' with hk' | hk'
      · exact hlt.le.trans (h.le k' hk')
      · rw [List.mem_singleton.1 hk']
    · rintro _ ⟨⟩
      refine ⟨rfl, Nat.lt_of_lt_of_le hlt hmin, ?_⟩
      -- the entries that are read are not the one that an earlier improvement has written
      have hki : (i, k) ≠ (i, j) := by
        rintro ⟨⟩
        omega
      have hkj : (k, j) ≠ (i, j) := by
        rintro ⟨⟩
        omega
      cases hx : x.intermediateSwitch with
      | none =>
          rw [(h.none hx).1]
          rfl
      | some k₀ =>
          simp only [(h.some k₀ hx).2.2, Tables.join, write_write, write_of_ne _ _ hki,
            write_of_ne _ _ hkj]
  · refine ⟨x, Scan.step_of_le hr' (h.currentDist ▸ hle), { h with le := ?_ }⟩
    intro k' hk'
    rcases List.mem_append.1 hk' with hk' | hk'
    · exact h.le k' hk'
    · rwa [List.mem_singleton.1 hk']

theorem Scanned.foldlM (h : Scanned t i j ks x) (hr : t.InRange) (ls : List (Fin n)) :
    ∃ x', ls.foldlM (Scan.step i j) x = .ok x' ∧ Scanned t i j (ks ++ ls) x' := by
  induction ls generalizing ks x with
  | nil => exact ⟨x, rfl, by rwa [List.append_nil]⟩
  | cons k ls ih =>
      obtain ⟨x₁, hstep, h₁⟩ := h.step hr k
      obtain ⟨x', hrest, h'⟩ := ih h₁
      refine ⟨x', ?_, ?_⟩
      · rw [List.foldlM_cons]
        exact bind_ok.2 ⟨x₁, hstep, hrest⟩
      · rwa [List.append_assoc, List.singleton_append] at h'

/-- **A pair is relaxed**: nothing is changed if no vertex is on a shorter way, and else the way
leads over some vertex from now on. -/
theorem relaxPair_cases (hr : t.InRange) (change : Bool) (i j : Fin n) :
    (t.Tight i j ∧ relaxPair (t, change) (i, j) = .ok (t, change)) ∨
      ∃ k, t.currentDist i k + t.currentDist k j < t.currentDist i j ∧
        relaxPair (t, change) (i, j) = .ok (t.join i k j, true) := by
  have h : Scanned t i j [] ⟨t, t.currentDist i j, none⟩ :=
    ⟨rfl, rfl, by simp, fun _ => ⟨rfl, rfl⟩, nofun⟩
  obtain ⟨y, hrun, h'⟩ := h.foldlM hr (List.finRange n)
  have hpair : relaxPair (t, change) (i, j) = y.finish i j change := by
    unfold relaxPair
    rw [hrun]
    rfl
  rw [hpair, Scan.finish]
  cases hy : y.intermediateSwitch with
  | none =>
      obtain ⟨ht, hm⟩ := h'.none hy
      refine .inl ⟨fun k => ?_, ?_⟩
      · rw [← hm]
        exact h'.le k (List.mem_append_right _ (List.mem_finRange k))
      · rw [ht, hm, if_neg (not_not.2 rfl)]
  | some k =>
      obtain ⟨hm, hlt, hinter⟩ := h'.some k hy
      refine .inr ⟨k, hm ▸ hlt, ?_⟩
      simp only [h'.currentDist, h'.latencies, hinter, if_pos hlt.ne']
      rw [hm]
      rfl

end Pair

/-! ### The distances -/

section Loop

variable {w : Fin n → Fin n → ℕ} {l : Fin n → Fin n → BitVec 32} {t : Tables n}

/-- Every entry is that of a walk. -/
structure Described (w : Fin n → Fin n → ℕ) (l : Fin n → Fin n → BitVec 32) (t : Tables n) :
    Prop where
  le : ∀ i j, t.currentDist i j ≤ w i j
  walk : ∀ i j, ∃ vs, Walks.Goes i j vs ∧ Walks.cost w i vs = t.currentDist i j ∧
    Walks.cost l i vs = t.latencies i j ∧ vs.length = t.interSwitches i j + 1

/-- In the beginning, every entry is that of an edge. -/
theorem Described.init (w : Fin n → Fin n → ℕ) (l : Fin n → Fin n → BitVec 32) :
    Described w l ⟨w, l, fun _ _ => 0⟩ := by
  refine ⟨fun _ _ => le_rfl, fun i j => ⟨[j], .edge i j, ?_, ?_, rfl⟩⟩
  · exact Nat.add_zero _
  · exact BitVec.add_zero _

theorem Described.inRange (h : Described w l t) (hw : ∀ i j, w i j < 2 ^ 30) : t.InRange := by
  intro i k j
  have h₁ := (h.le i k).trans_lt (hw i k)
  have h₂ := (h.le k j).trans_lt (hw k j)
  omega

theorem Described.join (h : Described w l t) {i k j : Fin n}
    (hlt : t.currentDist i k + t.currentDist k j < t.currentDist i j) :
    Described w l (t.join i k j) := by
  have hcases : ∀ a b, (a, b) = (i, j) ∨ (a, b) ≠ (i, j) := fun a b => em _
  constructor
  · intro a b
    rcases hcases a b with hab | hab
    · cases hab
      simp only [Tables.join, write_self]
      exact hlt.le.trans (h.le i j)
    · simp only [Tables.join, write_of_ne _ _ hab]
      exact h.le a b
  · intro a b
    rcases hcases a b with hab | hab
    · cases hab
      obtain ⟨us, hus, hw, hl, hlen⟩ := h.walk i k
      obtain ⟨vs, hvs, hw', hl', hlen'⟩ := h.walk k j
      refine ⟨us ++ vs, hus.append hvs, ?_, ?_, ?_⟩
      · simp only [hus.cost_append, hw, hw', Tables.join, write_self]
      · simp only [hus.cost_append, hl, hl', Tables.join, write_self]
      · simp only [List.length_append, Nat.cast_add, hlen, hlen', Tables.join, write_self]
        rw [add_add_add_comm, ← add_assoc]
    · simp only [Tables.join, write_of_ne _ _ hab]
      exact h.walk a b

/-- The sum of all distances. -/
def Tables.total (t : Tables n) : ℕ := ∑ p : Fin n × Fin n, t.currentDist p.1 p.2

theorem Tables.total_join_lt {i k j : Fin n}
    (hlt : t.currentDist i k + t.currentDist k j < t.currentDist i j) :
    (t.join i k j).total < t.total := by
  refine Finset.sum_lt_sum (fun p _ => ?_) ⟨(i, j), Finset.mem_univ _, ?_⟩
  · rcases em ((p.1, p.2) = (i, j)) with hp | hp
    · obtain rfl : p = (i, j) := hp
      simp only [Tables.join, write_self]
      exact hlt.le
    · simp only [Tables.join, write_of_ne _ _ hp, le_refl]
  · simp only [Tables.join, write_self]
    exact hlt

/-- **A round of the outer loop** either finds all pairs tight, or lowers the distances. -/
theorem foldlM_relaxPair (hw : ∀ i j, w i j < 2 ^ 30) (h : Described w l t) (change : Bool)
    (ps : List (Fin n × Fin n)) :
    ∃ t' change', ps.foldlM relaxPair (t, change) = .ok (t', change') ∧ Described w l t' ∧
      ((t' = t ∧ change' = change ∧ ∀ p ∈ ps, t.Tight p.1 p.2) ∨
        (change' = true ∧ t'.total < t.total)) := by
  induction ps generalizing t change with
  | nil => exact ⟨t, change, rfl, h, .inl ⟨rfl, rfl, by simp⟩⟩
  | cons p ps ih =>
      obtain ⟨i, j⟩ := p
      rcases relaxPair_cases (h.inRange hw) change i j with ⟨htight, hp⟩ | ⟨k, hlt, hp⟩
      · obtain ⟨t', change', hps, h', hcases⟩ := ih h change
        refine ⟨t', change', ?_, h', ?_⟩
        · rw [List.foldlM_cons, hp]
          exact hps
        · refine hcases.imp ?_ id
          rintro ⟨ht, hc, hall⟩
          exact ⟨ht, hc, List.forall_mem_cons.2 ⟨htight, hall⟩⟩
      · obtain ⟨t', change', hps, h', hcases⟩ := ih (h.join hlt) true
        have hlower := Tables.total_join_lt hlt
        refine ⟨t', change', ?_, h', .inr ?_⟩
        · rw [List.foldlM_cons, hp]
          exact hps
        · rcases hcases with ⟨rfl, hc, -⟩ | ⟨hc, ht⟩
          · exact ⟨hc, hlower⟩
          · exact ⟨hc, ht.trans hlower⟩

theorem mem_pairs (p : Fin n × Fin n) : p ∈ pairs n :=
  List.mem_flatMap.2 ⟨p.1, List.mem_finRange _, List.mem_map.2 ⟨p.2, List.mem_finRange _, rfl⟩⟩

/-- **The loop ends**, and then all pairs are tight. -/
theorem extendShortestPath_ok (hw : ∀ i j, w i j < 2 ^ 30) (h : Described w l t) {fuel : ℕ}
    (hf : t.total < fuel) :
    ∃ t', extendShortestPath fuel t = .ok t' ∧ Described w l t' ∧
      Walks.Closed t'.currentDist := by
  induction fuel generalizing t with
  | zero => exact absurd hf (Nat.not_lt_zero _)
  | succ fuel ih =>
      obtain ⟨t', change, hround, h', hcases⟩ := foldlM_relaxPair hw h false (pairs n)
      have hloop : extendShortestPath (fuel + 1) t =
          if change = true then extendShortestPath fuel t' else .ok t' := by
        rw [extendShortestPath, hround]
        rfl
      rcases hcases with ⟨rfl, rfl, htight⟩ | ⟨rfl, hlt⟩
      · refine ⟨t', hloop, h', fun i k j => ?_⟩
        exact htight (i, j) (mem_pairs _) k
      · rw [hloop]
        exact ih h' (by omega)

/-- More fuel does not change the result. -/
theorem extendShortestPath_mono {fuel fuel' : ℕ} {t' : Tables n}
    (h : extendShortestPath fuel t = .ok t') (hle : fuel ≤ fuel') :
    extendShortestPath fuel' t = .ok t' := by
  induction fuel generalizing t fuel' with
  | zero => cases h
  | succ fuel ih =>
      obtain ⟨k, rfl⟩ : ∃ k, fuel' = k + 1 := ⟨fuel' - 1, by omega⟩
      rw [extendShortestPath] at h ⊢
      obtain ⟨⟨t₁, change⟩, hround, hrest⟩ := bind_ok.1 h
      refine bind_ok.2 ⟨(t₁, change), hround, ?_⟩
      cases change with
      | false => exact hrest
      | true => exact ih hrest (Nat.le_of_succ_le_succ hle)

/-- **The distances are the least costs of walks.** The relaxation of a matrix of weights below 2³⁰
ends, without a failed assertion and without an overflow of a distance.  Then every entry is the
least cost of a walk between its vertices, and there is a walk of this cost that has the latency
that is reported for it, with the reported number of intermediate vertices, both as 32-bit numbers.
-/
theorem shortest_path_least (w : Fin n → Fin n → ℕ) (l : Fin n → Fin n → BitVec 32)
    (hw : ∀ i j, w i j < 2 ^ 30) :
    ∃ fuel t, (∀ k, fuel ≤ k → extendShortestPath k ⟨w, l, fun _ _ => 0⟩ = .ok t) ∧
      ∀ i j, (∀ vs, Walks.Goes i j vs → t.currentDist i j ≤ Walks.cost w i vs) ∧
        ∃ vs, Walks.Goes i j vs ∧ Walks.cost w i vs = t.currentDist i j ∧
          Walks.cost l i vs = t.latencies i j ∧ vs.length = t.interSwitches i j + 1 := by
  obtain ⟨t, hrun, h, hclosed⟩ := extendShortestPath_ok hw (.init w l) (Nat.lt_succ_self _)
  refine ⟨_, t, fun k hk => extendShortestPath_mono hrun hk, fun i j => ⟨fun vs hvs => ?_, ?_⟩⟩
  · exact Walks.le_cost hclosed h.le hvs
  · exact h.walk i j

/-- A triangle in which the way around is shorter than the edge from 0 to 1. -/
def triangle (i j : Fin 3) : ℕ := if i.1 = j.1 then 0 else if i.1 = 0 ∧ j.1 = 1 then 5 else 1

theorem shortest_path_least_triangle : (∀ i j, triangle i j < 2 ^ 30) ∧
    ∃ fuel t, (∀ k, fuel ≤ k →
        extendShortestPath k ⟨triangle, fun _ _ => 7, fun _ _ => 0⟩ = .ok t) ∧
      ∀ i j, (∀ vs, Walks.Goes i j vs → t.currentDist i j ≤ Walks.cost triangle i vs) ∧
        ∃ vs, Walks.Goes i j vs ∧ Walks.cost triangle i vs = t.currentDist i j ∧
          Walks.cost (fun _ _ => 7) i vs = t.latencies i j ∧
          vs.length = t.interSwitches i j + 1 :=
  ⟨by decide, shortest_path_least triangle (fun _ _ => 7) (by decide)⟩

-- the way from 0 to 1 has one vertex in between, and the latency of two edges
example : (extendShortestPath 2 ⟨triangle, fun _ _ => 7, fun _ _ => 0⟩).map (fun t =>
    (t.currentDist 0 1, t.latencies 0 1, t.interSwitches 0 1)) = .ok (2, 14, 1) := by
  decide

-- weights of 2³⁰ are too large: their sum is not an `int`
example : extendShortestPath 1 (⟨fun i j => if i = j then 0 else 2 ^ 30, fun _ _ => 1,
    fun _ _ => 0⟩ : Tables 2) = .error .overflow := by
  rfl

end Loop

end Net
