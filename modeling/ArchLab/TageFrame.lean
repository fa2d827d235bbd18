/-
**What a branch changes in the TAGE predictor.**

A prediction looks for the two longest histories with a matching tag; the update that follows it
trains the counters of the branch and, if the longest history was wrong, either takes over one entry
with a longer one that is not useful or makes all of them less useful.  This module states both as
relations between the global variables before and after, so that a reader sees which entries of
which tables may change and how, and derives them from the closed forms of the two functions.

Main definitions:

* `Openend.Longest` — the longest history with a matching tag below a bound;
* `Openend.State.cleared` — an entry on the branch at which all entries become less useful;
* `Openend.Framed` — **the frame of an update**.

Main results:

* `Openend.longest_found` — the choices of a prediction;
* `Openend.framed_of_allocates` — an update keeps to its frame;
* `Openend.update_frame` — **both**, in every reachable state.
-/

import ArchLab.TageInvariant

set_option relaxedAutoImplicit false
set_option autoImplicit false

namespace Openend

variable {undef : ℕ → UINT32} {PC : UINT32} {dir : Bool} {s s' : State} {l : Option Loc} {k : Loc}

/-! ### The choices of a prediction -/

section Choices

/-- **The longest history with a matching tag** among the tables below a bound: the number of the
table, or -1 if there is none. -/
inductive Longest (undef : ℕ → UINT32) (PC : UINT32) (s : State) (bound : ℤ) : ℤ → Prop
  | none (h : ∀ t : Fin NUM_TAGE_PHT, (t : ℕ) < bound → ¬ s.Hit undef PC t) :
      Longest undef PC s bound (-1)
  | some (t : Fin NUM_TAGE_PHT) (ht : (t : ℕ) < bound) (hit : s.Hit undef PC t)
      (h : ∀ u : Fin NUM_TAGE_PHT, t < u → (u : ℕ) < bound → ¬ s.Hit undef PC u) :
      Longest undef PC s bound (t : ℕ)

/-- The number of the first table of a list. -/
def firstNum : List (Fin NUM_TAGE_PHT) → ℤ
  | [] => -1
  | t :: _ => (t : ℕ)

/-- A list of the tables with a matching tag starts with the longest history. -/
theorem longest_firstNum {bound : ℤ} {hits : List (Fin NUM_TAGE_PHT)}
    (hsorted : hits.Pairwise (· > ·))
    (hmem : ∀ t, t ∈ hits ↔ (t : ℕ) < bound ∧ s.Hit undef PC t) :
    Longest undef PC s bound (firstNum hits) := by
  cases hits with
  | nil =>
      refine .none ?_
      intro t ht hit
      exact absurd ((hmem t).2 ⟨ht, hit⟩) List.not_mem_nil
  | cons t rest =>
      obtain ⟨ht, hit⟩ := (hmem t).1 List.mem_cons_self
      refine .some t ht hit ?_
      intro u htu hu hitu
      rcases List.mem_cons.1 ((hmem u).2 ⟨hu, hitu⟩) with rfl | hrest
      · exact absurd htu (Fin.lt_irrefl u)
      · have hut : u < t := (List.pairwise_cons.1 hsorted).1 u hrest
        exact absurd hut (Fin.lt_asymm htu)

/-- The tables after the first one of the list are those with shorter histories. -/
theorem mem_rest {t : Fin NUM_TAGE_PHT} {rest : List (Fin NUM_TAGE_PHT)}
    (hsorted : (t :: rest).Pairwise (· > ·)) (hmem : ∀ u, u ∈ t :: rest ↔ s.Hit undef PC u)
    (u : Fin NUM_TAGE_PHT) : u ∈ rest ↔ ((u : ℕ) : ℤ) < (t : ℕ) ∧ s.Hit undef PC u := by
  constructor
  · intro hu
    have hlt : (u : ℕ) < t := (List.pairwise_cons.1 hsorted).1 u hu
    exact ⟨by omega, (hmem u).1 (List.mem_cons_of_mem _ hu)⟩
  · rintro ⟨hlt, hit⟩
    rcases List.mem_cons.1 ((hmem u).2 hit) with rfl | hu
    · omega
    · exact hu

/-- **A prediction chooses the two longest histories.** -/
theorem longest_found : Longest undef PC s NUM_TAGE_PHT (s.found undef PC).lhPHTNum ∧
    Longest undef PC s (s.found undef PC).lhPHTNum (s.found undef PC).altPHTNum := by
  have hsorted : (s.hits undef PC NUM_TAGE_PHT).Pairwise (· > ·) := pairwise_hits (Nat.le_refl _)
  have hmem : ∀ t, t ∈ s.hits undef PC NUM_TAGE_PHT ↔ s.Hit undef PC t := by
    intro t
    rw [mem_hits (Nat.le_refl _)]
    exact and_iff_right t.isLt
  have hbound : ∀ t, t ∈ s.hits undef PC NUM_TAGE_PHT ↔
      ((t : ℕ) : ℤ) < NUM_TAGE_PHT ∧ s.Hit undef PC t := by
    intro t
    rw [hmem t]
    exact (and_iff_right (by omega)).symm
  have hfirst := longest_firstNum hsorted hbound
  unfold State.found
  generalize s.hits undef PC NUM_TAGE_PHT = hits at hsorted hmem hfirst ⊢
  rcases hits with _ | ⟨a, _ | ⟨b, rest⟩⟩
  · refine ⟨hfirst, .none ?_⟩
    intro t ht
    change ((t : ℕ) : ℤ) < -1 at ht
    omega
  · exact ⟨hfirst, longest_firstNum (List.pairwise_cons.1 hsorted).2 (mem_rest hsorted hmem)⟩
  · exact ⟨hfirst, longest_firstNum (List.pairwise_cons.1 hsorted).2 (mem_rest hsorted hmem)⟩

/-- The entry that has made the prediction is that of the first choice. -/
theorem provider_eq_some_iff : s.provider undef PC = some k ↔
    ∃ t : Fin NUM_TAGE_PHT, (s.found undef PC).lhPHTNum = (t : ℕ) ∧
      k = (s.found undef PC).slot undef PC t := by
  have hslot : ∀ t, (s.found undef PC).slot undef PC t = s.slot undef PC t := by
    intro t
    have hs : SameTables s (s.found undef PC) := sameTables_found
    unfold State.slot
    simp only [hs.BHT]
  have hsome : ∀ (a : Fin NUM_TAGE_PHT) (n : ℤ), n = (a : ℕ) →
      (some (s.slot undef PC a) = some k ↔
        ∃ t : Fin NUM_TAGE_PHT, n = (t : ℕ) ∧ k = s.slot undef PC t) := by
    rintro a n rfl
    constructor
    · intro h
      exact ⟨a, rfl, (Option.some.inj h).symm⟩
    · rintro ⟨t, ht, rfl⟩
      obtain rfl : a = t := Fin.ext (by omega)
      rfl
  simp only [hslot]
  unfold State.provider State.found
  rcases s.hits undef PC NUM_TAGE_PHT with _ | ⟨a, _ | ⟨b, _⟩⟩
  · constructor
    · rintro ⟨⟩
    · rintro ⟨t, ht, -⟩
      change -1 = ((t : ℕ) : ℤ) at ht
      omega
  · exact hsome a _ rfl
  · exact hsome a _ rfl

end Choices

/-! ### The frame of an update -/

section Frame

/-- An entry after the branch at which all entries become less useful. -/
def State.cleared (s : State) (e : TageEntry) : TageEntry :=
  if s.Rolls then { e with useful := e.useful &&& ~~~1#32 } else e

/-- **The frame of an update** after a prediction: what it may change, and how. -/
structure Framed (undef : ℕ → UINT32) (PC : UINT32) (dir : Bool) (s s' : State) : Prop where
  basePHT : ∀ j, j ≠ baseIdx PC → s'.basePHT j = s.basePHT j
  BHT : ∀ b, b ≠ bhtIdx PC → s'.BHT b = s.BHT b
  numPredictionMade : s'.numPredictionMade = if s.Rolls then 0#128 else s.numPredictionMade + 1#128
  lh : s'.lhPred = s.lhPred ∧ s'.lhPHTNum = s.lhPHTNum ∧ s'.lhPHTIdx = s.lhPHTIdx
  alt : s'.altPred = s.altPred ∧ s'.altPHTNum = s.altPHTNum ∧ s'.altPHTIdx = s.altPHTIdx
  /-- entries of other branches, and of tables with a shorter history -/
  other : ∀ k, (∀ t : Fin NUM_TAGE_PHT, s.lhPHTNum ≤ (t : ℕ) → k ≠ s.slot undef PC t) →
    s'.tagePHT k = s.cleared (s.tagePHT k)
  /-- the entry that has made the prediction keeps its tag -/
  provider : ∀ t : Fin NUM_TAGE_PHT, s.lhPHTNum = (t : ℕ) → ∃ useful cnt,
    s'.tagePHT (s.slot undef PC t) =
      { s.cleared { s.tagePHT (s.slot undef PC t) with useful := useful } with cnt := cnt }
  right : s.lhPred = dir → ∀ t : Fin NUM_TAGE_PHT, s.lhPHTNum < (t : ℕ) →
    s'.tagePHT (s.slot undef PC t) = s.cleared (s.tagePHT (s.slot undef PC t))
  /-- after a wrong prediction one of the entries with a longer history is taken over, or all of
  them become less useful -/
  wrong : s.lhPred ≠ dir →
    (∃ t : Fin NUM_TAGE_PHT, s.lhPHTNum < (t : ℕ) ∧
      (s.cleared (s.tagePHT (s.slot undef PC t))).useful = 0#32 ∧
      s'.tagePHT (s.slot undef PC t) = { s.cleared (s.tagePHT (s.slot undef PC t)) with
        cnt := WEAK_TAKEN TAGE_CNT_SIZE
        tag := s.tagOf undef PC t } ∧
      ∀ u : Fin NUM_TAGE_PHT, s.lhPHTNum < (u : ℕ) → u ≠ t →
        s'.tagePHT (s.slot undef PC u) = s.cleared (s.tagePHT (s.slot undef PC u))) ∨
    ∀ t : Fin NUM_TAGE_PHT, s.lhPHTNum < (t : ℕ) →
      s'.tagePHT (s.slot undef PC t) = { s.cleared (s.tagePHT (s.slot undef PC t)) with
        useful := BitVec.ofNat 32
          ((s.cleared (s.tagePHT (s.slot undef PC t))).useful.toNat - 1) }

/-- A usefulness of two bits loses its last one. -/
theorem TageEntry.Ok.weakened_eq {e : TageEntry} (h : e.Ok) :
    e.weakened = { e with useful := e.useful &&& ~~~1#32 } := by
  have hbits : ∀ u : UINT32, u.toNat < 4 →
      u &&& (MASK_OF_SIZE TAGE_U_SIZE - 1#32) = u &&& ~~~1#32 := by
    intro u hu
    have hcases : u = 0#32 ∨ u = 1#32 ∨ u = 2#32 ∨ u = 3#32 := by bv_omega
    rcases hcases with rfl | rfl | rfl | rfl <;> decide
  unfold TageEntry.weakened
  rw [hbits e.useful h.useful]

/-- Counting down stops at zero. -/
theorem decreased_eq (e : TageEntry) :
    e.decreased = { e with useful := BitVec.ofNat 32 (e.useful.toNat - 1) } := by
  have hdec : DEC_SAT_CNT e.useful TAGE_U_SIZE = BitVec.ofNat 32 (e.useful.toNat - 1) := by
    unfold DEC_SAT_CNT
    split
    · next h =>
        rw [h]
        rfl
    · bv_omega
  unfold TageEntry.decreased
  rw [hdec]

theorem cleared_eq {e : TageEntry} (h : e.Ok) :
    (if s.Rolls then e.weakened else e) = s.cleared e := by
  unfold State.cleared
  rw [h.weakened_eq]

/-- The usefulness of the entries after the training, in the range of two bits. -/
theorem aged_apply (h : Ranges s) (k : Loc) :
    s.aged dir l k = s.cleared (modified s.tagePHT l (s.trainUseful dir) k) := by
  have hok : (modified s.tagePHT l (s.trainUseful dir) k).Ok :=
    ok_modified h.tage (fun _ he => he.trainUseful) k
  rw [← cleared_eq hok]
  unfold State.aged
  split <;> rfl

theorem modified_of_ne {table : Loc → TageEntry} (f : TageEntry → TageEntry) (hk : l ≠ some k) :
    modified table l f k = table k := by
  cases l with
  | none => rfl
  | some l => exact Function.update_of_ne (fun he => hk (congrArg some he.symm)) _ _

theorem modified_self (table : Loc → TageEntry) (f : TageEntry → TageEntry) :
    modified table (some k) f k = f (table k) := Function.update_self ..

/-- Training leaves all entries alone but that which has made the prediction. -/
theorem trained_of_ne (h : Ranges s) (hk : l ≠ some k) :
    (s.trained PC dir l).tagePHT k = s.cleared (s.tagePHT k) := by
  change modified (s.aged dir l) l (TageEntry.train dir) k = _
  rw [modified_of_ne _ hk, aged_apply h, modified_of_ne _ hk]

/-- Training changes the two counters of the entry that has made the prediction. -/
theorem trained_self (h : Ranges s) : ∃ useful cnt, (s.trained PC dir (some k)).tagePHT k =
    { s.cleared { s.tagePHT k with useful := useful } with cnt := cnt } := by
  have htrain : ∃ useful, s.trainUseful dir (s.tagePHT k) =
      { s.tagePHT k with useful := useful } := by
    unfold State.trainUseful
    split
    · exact ⟨_, rfl⟩
    · exact ⟨(s.tagePHT k).useful, rfl⟩
  obtain ⟨useful, htrain⟩ := htrain
  refine ⟨useful, trainCnt (s.cleared { s.tagePHT k with useful := useful }).cnt TAGE_CNT_SIZE
    (decide (dir = TAKEN)), ?_⟩
  change modified (s.aged dir (some k)) (some k) (TageEntry.train dir) k = _
  rw [modified_self, aged_apply h, modified_self, htrain]
  rfl

theorem slot_ne {t u : Fin NUM_TAGE_PHT} (h : u ≠ t) : s.slot undef PC u ≠ s.slot undef PC t :=
  fun he => h (congrArg Prod.fst he)

/-- Allocation leaves all entries alone but those of the branch in tables with a longer history. -/
theorem Allocates.tagePHT_of_ne (ha : Allocates undef PC dir s s')
    (hk : ∀ t : Fin NUM_TAGE_PHT, s.lhPHTNum < (t : ℕ) → k ≠ s.slot undef PC t) :
    s'.tagePHT k = s.tagePHT k := by
  cases ha with
  | right _ => rfl
  | found _ t ht _ => exact Function.update_of_ne (hk t ht) _ _
  | full _ =>
      refine if_neg ?_
      rintro ⟨hle, hslot⟩
      exact hk k.1 (by omega) hslot

/-- Allocation leaves everything alone but the tagged entries. -/
theorem Allocates.same (ha : Allocates undef PC dir s s') :
    s'.basePHT = s.basePHT ∧ s'.BHT = s.BHT ∧ s'.numPredictionMade = s.numPredictionMade ∧
    (s'.lhPred = s.lhPred ∧ s'.lhPHTNum = s.lhPHTNum ∧ s'.lhPHTIdx = s.lhPHTIdx) ∧
    s'.altPred = s.altPred ∧ s'.altPHTNum = s.altPHTNum ∧ s'.altPHTIdx = s.altPHTIdx := by
  cases ha <;> exact ⟨rfl, rfl, rfl, ⟨rfl, rfl, rfl⟩, rfl, rfl, rfl⟩

/-- The entries for the branch after all with a longer history have become less useful. -/
theorem decreased_slot (undef : ℕ → UINT32) (PC : UINT32) (s : State) {t : Fin NUM_TAGE_PHT} {i : ℕ}
    (ht : i ≤ t) :
    (s.decreased undef PC i).tagePHT (s.slot undef PC t) =
      (s.tagePHT (s.slot undef PC t)).decreased := if_pos ⟨ht, rfl⟩

/-- **An update keeps to its frame.** -/
theorem framed_of_allocates (h : Ranges s)
    (hl : ∀ k, l = some k ↔ ∃ t : Fin NUM_TAGE_PHT, s.lhPHTNum = (t : ℕ) ∧ k = s.slot undef PC t)
    (ha : Allocates undef PC dir (s.trained PC dir l) s') :
    Framed undef PC dir s (s'.pushed PC dir) := by
  obtain ⟨hbase, hbht, hmade, hlh, halt⟩ := ha.same
  -- an entry with a longer history has not made the prediction
  have habove : ∀ t : Fin NUM_TAGE_PHT, s.lhPHTNum < (t : ℕ) →
      (s.trained PC dir l).tagePHT (s.slot undef PC t) =
        s.cleared (s.tagePHT (s.slot undef PC t)) := by
    intro t ht
    refine trained_of_ne h ?_
    intro he
    obtain ⟨u, hu, hslot⟩ := (hl _).1 he
    have htu : t = u := congrArg Prod.fst hslot
    subst htu
    omega
  refine ⟨?_, ?_, hmade, hlh, halt, ?_, ?_, ?_, ?_⟩
  · intro j hj
    change s'.basePHT j = _
    rw [hbase]
    exact Function.update_of_ne hj _ _
  · intro b hb
    change Function.update s'.BHT (bhtIdx PC) _ b = _
    rw [Function.update_of_ne hb, hbht]
    rfl
  · intro k hk
    change s'.tagePHT k = _
    rw [ha.tagePHT_of_ne fun t ht => hk t (Int.le_of_lt ht)]
    refine trained_of_ne h ?_
    intro he
    obtain ⟨t, ht, hslot⟩ := (hl k).1 he
    exact hk t (Int.le_of_eq ht) hslot
  · intro t ht
    obtain rfl : l = some (s.slot undef PC t) := (hl _).2 ⟨t, ht, rfl⟩
    change ∃ useful cnt, s'.tagePHT (s.slot undef PC t) = _
    rw [ha.tagePHT_of_ne]
    · exact trained_self h
    · intro u hu
      change s.lhPHTNum < (u : ℕ) at hu
      refine slot_ne ?_
      rintro rfl
      omega
  · intro hp t ht
    cases ha with
    | right _ => exact habove t ht
    | found hne _ _ _ => exact absurd hp hne
    | full hne => exact absurd hp hne
  · intro hp
    cases ha with
    | right heq => exact absurd heq hp
    | found _ t ht hu =>
        have ht' := habove t ht
        change ((s.trained PC dir l).tagePHT (s.slot undef PC t)).useful = 0#32 at hu
        rw [ht'] at hu
        refine .inl ⟨t, ht, hu, ?_, ?_⟩
        · rw [← ht']
          exact Function.update_self ..
        · intro u hu hne
          rw [← habove u hu]
          exact Function.update_of_ne (slot_ne hne) _ _
    | full _ =>
        refine .inr ?_
        intro t ht
        rw [← decreased_eq, ← habove t ht]
        have hle : (s.lhPHTNum + 1).toNat ≤ t := by omega
        exact decreased_slot undef PC (s.trained PC dir l) hle

end Frame

/-! ### Reachable states -/

section Reachable

/-- **What a branch changes**, after any branches: the prediction chooses the two longest histories
with a matching tag and changes nothing else, and the update keeps to its frame. -/
theorem update_frame (s₀ : State) (bs : List Branch) {numMispred : ℕ}
    (h : run s₀ bs = .ok (s, numMispred)) (undef : ℕ → UINT32) (PC : UINT32) (dir : Bool) :
    ∃ predDir s₁ s₂, getPrediction undef PC s = .ok (predDir, s₁) ∧
      updatePredictor undef PC dir s₁ = .ok s₂ ∧ SameTables s s₁ ∧
      Longest undef PC s NUM_TAGE_PHT s₁.lhPHTNum ∧
      Longest undef PC s s₁.lhPHTNum s₁.altPHTNum ∧ Framed undef PC dir s₁ s₂ := by
  obtain ⟨s', m, hr, hin⟩ := run_inRange s₀ bs
  obtain ⟨rfl, -⟩ := Prod.mk.inj (Except.ok.inj (hr.symm.trans h))
  obtain ⟨s₂, he, ha⟩ := updatePredictor_found undef PC dir s'
  exact ⟨_, _, _, getPrediction_eq, he, sameTables_found, longest_found.1, longest_found.2,
    framed_of_allocates hin.ranges.found (fun _ => provider_eq_some_iff) ha⟩

/-- Global variables before the start of the program. -/
def blank : State where
  BHT := fun _ => 0#128
  basePHT := fun _ => 0#32
  tagePHT := fun _ => ⟨0#32, 0#32, 0#32⟩
  useAlt := 0#32
  lhPred := false
  lhPHTNum := 0
  lhPHTIdx := 0#32
  altPred := false
  altPHTNum := 0
  altPHTIdx := 0#32
  numPredictionMade := 0#128

/-- The first branch, at an address whose tags are not 0: no table has an entry for it, the base
table is wrong, and an entry of another table is taken over. -/
theorem update_frame_first : ∃ predDir s₁ s₂,
    getPrediction (fun _ => 0#32) 0x1234#32 (initPredictor blank) = .ok (predDir, s₁) ∧
      updatePredictor (fun _ => 0#32) 0x1234#32 NOT_TAKEN s₁ = .ok s₂ ∧
      s₁.lhPHTNum = -1 ∧ s₁.lhPred = TAKEN ∧ (∃ k, (s₂.tagePHT k).tag = 566#32) ∧
      SameTables (initPredictor blank) s₁ ∧
      Longest (fun _ => 0#32) 0x1234#32 (initPredictor blank) NUM_TAGE_PHT s₁.lhPHTNum ∧
      Longest (fun _ => 0#32) 0x1234#32 (initPredictor blank) s₁.lhPHTNum s₁.altPHTNum ∧
      Framed (fun _ => 0#32) 0x1234#32 NOT_TAKEN s₁ s₂ := by
  obtain ⟨predDir, s₁, s₂, hpred, hupd, hframe⟩ :=
    update_frame blank [] rfl (fun _ => 0#32) 0x1234#32 NOT_TAKEN
  have hfirst : (getPrediction (fun _ => 0#32) 0x1234#32 (initPredictor blank)).map
      (fun x => (x.2.lhPHTNum, x.2.lhPred)) = .ok (-1, TAKEN) := rfl
  have htag : (getPrediction (fun _ => 0#32) 0x1234#32 (initPredictor blank) >>= fun x =>
      updatePredictor (fun _ => 0#32) 0x1234#32 NOT_TAKEN x.2).map (fun s =>
        (s.tagePHT ((initPredictor blank).slot (fun _ => 0#32) 0x1234#32 ⟨3, by decide⟩)).tag) =
          .ok 566#32 := rfl
  have hrun : (getPrediction (fun _ => 0#32) 0x1234#32 (initPredictor blank) >>= fun x =>
      updatePredictor (fun _ => 0#32) 0x1234#32 NOT_TAKEN x.2) = .ok s₂ :=
    Refine.bind_ok.2 ⟨(predDir, s₁), hpred, hupd⟩
  rw [hpred] at hfirst
  rw [hrun] at htag
  obtain ⟨hnum, hdir⟩ := Prod.mk.inj (Except.ok.inj hfirst)
  exact ⟨predDir, s₁, s₂, hpred, hupd, hnum, hdir, ⟨_, Except.ok.inj htag⟩, hframe⟩

end Reachable

end Openend
