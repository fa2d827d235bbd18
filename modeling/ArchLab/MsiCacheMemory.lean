/-
**The tag array of an L1 cache.**

`CacheMemory.cc` keeps the lines of a cache twice: as an array of sets of ways, which `cacheAvail`
and `cacheProbe` scan, and as a hash map from the tag of a line to its way, through which `lookup`
goes.  The invariant that makes the two agree is a field of `Msi.CacheMemory`, so that a cache whose
index disagrees with its array cannot be built; `allocate`, `deallocate` and the update of a line in
place keep it.

Main definitions:

* `Msi.CacheMemory` — the array, the index, and their agreement;
* `Msi.CacheMemory.lookup`, `cacheAvail`, `cacheProbe`, `allocate`, `deallocate` — the operations of
  the source;
* `Msi.CacheMemory.assign` — what a transition leaves behind for one address.

Main results:

* `Msi.CacheMemory.lookup_assign_self`, `Msi.CacheMemory.lookup_assign_of_ne` — writing one address
  is read back there and nowhere else;
* `Msi.CacheMemory.cacheProbe_spec` — the victim of a full set is a line the cache holds.

The replacement policy enters only through the way it names, which is left open.
-/

import ArchLab.MsiMessage
import Mathlib.Data.List.FinRange

set_option relaxedAutoImplicit false
set_option autoImplicit false

namespace Msi

/-- The lines of a cache, by set and way and by tag. -/
structure CacheMemory (A E : Type) (set : A → ℕ) (assoc : ℕ) where
  /-- `m_cache`: the line in a way of a set. -/
  cache : ℕ → Fin assoc → Option (A × E)
  /-- `m_tag_index`: the way of a tag. -/
  tagIndex : A → Option (Fin assoc)
  /-- A tag is indexed exactly at the way that holds it, in its own set. -/
  agree : ∀ i w a, (∃ e, cache i w = some (a, e)) ↔ i = set a ∧ tagIndex a = some w

namespace CacheMemory

variable {A E : Type} [DecidableEq A] {set : A → ℕ} {assoc : ℕ}

/-- The empty cache. -/
def empty : CacheMemory A E set assoc where
  cache _ _ := none
  tagIndex _ := none
  agree := by simp

/-- The line of an address, if the cache holds it. -/
def lookup (m : CacheMemory A E set assoc) (a : A) : Option E :=
  (m.tagIndex a).bind fun w => (m.cache (set a) w).map Prod.snd

omit [DecidableEq A] in
@[simp] theorem lookup_empty (a : A) :
    (empty : CacheMemory A E set assoc).lookup a = none := rfl

omit [DecidableEq A] in
theorem cache_of_tagIndex (m : CacheMemory A E set assoc) {a : A} {w : Fin assoc}
    (h : m.tagIndex a = some w) : ∃ e, m.cache (set a) w = some (a, e) :=
  (m.agree _ _ _).2 ⟨rfl, h⟩

omit [DecidableEq A] in
theorem lookup_eq_some (m : CacheMemory A E set assoc) {a : A} {e : E} :
    m.lookup a = some e ↔ ∃ w, m.tagIndex a = some w ∧ m.cache (set a) w = some (a, e) := by
  simp only [lookup, Option.bind_eq_some_iff, Option.map_eq_some_iff]
  constructor
  · rintro ⟨w, hw, ⟨b, e'⟩, hb, rfl⟩
    obtain ⟨e'', he⟩ := m.cache_of_tagIndex hw
    rw [he] at hb
    cases hb
    exact ⟨w, hw, he⟩
  · rintro ⟨w, hw, he⟩
    exact ⟨w, hw, (a, e), he, rfl⟩

omit [DecidableEq A] in
theorem lookup_eq_none (m : CacheMemory A E set assoc) {a : A} :
    m.lookup a = none ↔ m.tagIndex a = none := by
  constructor
  · intro h
    cases hw : m.tagIndex a with
    | none => rfl
    | some w =>
        obtain ⟨e, he⟩ := m.cache_of_tagIndex hw
        rw [(m.lookup_eq_some).2 ⟨w, hw, he⟩] at h
        cases h
  · intro h
    simp [lookup, h]

/-- There is a tag match on this address, or an unused way in its set. -/
def cacheAvail (m : CacheMemory A E set assoc) (a : A) : Bool :=
  (List.finRange assoc).any fun w =>
    match m.cache (set a) w with
    | none => true
    | some (b, _) => b = a

/-- The address of the line in the way that the replacement policy names. -/
def cacheProbe (m : CacheMemory A E set assoc) (a : A) (victim : Fin assoc) : Option A :=
  (m.cache (set a) victim).map Prod.fst

/-- **The victim of a full set is a line the cache holds.** -/
theorem cacheProbe_spec (m : CacheMemory A E set assoc) {a : A} (victim : Fin assoc)
    (h : m.cacheAvail a = false) :
    ∃ b e, m.cacheProbe a victim = some b ∧ m.lookup b = some e ∧ b ≠ a := by
  have hw := List.any_eq_false.1 h victim (List.mem_finRange victim)
  cases hc : m.cache (set a) victim with
  | none => simp [hc] at hw
  | some l =>
      obtain ⟨b, e⟩ := l
      obtain ⟨hi, ht⟩ := (m.agree _ _ _).1 ⟨e, hc⟩
      refine ⟨b, e, by simp [cacheProbe, hc], m.lookup_eq_some.2 ⟨victim, ht, hi ▸ hc⟩, ?_⟩
      rintro rfl
      simp [hc] at hw

/-- The first open way of the set of an address. -/
def openWay (m : CacheMemory A E set assoc) (a : A) : Option (Fin assoc) :=
  (List.finRange assoc).find? fun w => (m.cache (set a) w).isNone

theorem openWay_isSome (m : CacheMemory A E set assoc) {a : A} (h : m.lookup a = none)
    (hav : m.cacheAvail a = true) : (m.openWay a).isSome := by
  obtain ⟨w, hw, hm⟩ := List.any_eq_true.1 hav
  rw [openWay, List.find?_isSome]
  refine ⟨w, hw, ?_⟩
  cases hc : m.cache (set a) w with
  | none => rfl
  | some l =>
      obtain ⟨b, e⟩ := l
      simp only [hc, decide_eq_true_eq] at hm
      subst hm
      have ht := ((m.agree _ _ _).1 ⟨e, hc⟩).2
      rw [m.lookup_eq_none.1 h] at ht
      cases ht

omit [DecidableEq A] in
theorem cache_openWay (m : CacheMemory A E set assoc) {a : A} {w : Fin assoc}
    (h : m.openWay a = some w) : m.cache (set a) w = none := by
  simpa using List.find?_some h

/-- The array with one way of one set overwritten. -/
def putWay (c : ℕ → Fin assoc → Option (A × E)) (i : ℕ) (w : Fin assoc) (l : Option (A × E)) :
    ℕ → Fin assoc → Option (A × E) :=
  Function.update c i (Function.update (c i) w l)

omit [DecidableEq A] in
theorem putWay_apply (c : ℕ → Fin assoc → Option (A × E)) (i j : ℕ) (w v : Fin assoc)
    (l : Option (A × E)) : putWay c i w l j v = if j = i ∧ v = w then l else c j v := by
  simp only [putWay, Function.update_apply]
  split_ifs <;> simp_all

/-- Overwriting a way that is open, or that holds the tag already, keeps array and index in
agreement. -/
theorem agree_putWay (m : CacheMemory A E set assoc) {a : A} {w : Fin assoc} (l : Option E)
    (h : m.cache (set a) w = none ∧ m.tagIndex a = none ∨ m.tagIndex a = some w)
    (i : ℕ) (v : Fin assoc) (b : A) :
    (∃ e, putWay m.cache (set a) w (l.map (a, ·)) i v = some (b, e)) ↔
      i = set b ∧ Function.update m.tagIndex a (l.map fun _ => w) b = some v := by
  have hv := m.agree i v b
  rw [putWay_apply, Function.update_apply]
  by_cases hiv : i = set a ∧ v = w
  · obtain ⟨rfl, rfl⟩ := hiv
    simp only [and_self, if_true]
    by_cases hb : b = a
    · subst hb
      cases l <;> simp
    · have hne : m.tagIndex b = some v → set a ≠ set b := by
        -- otherwise the way would hold two tags
        intro ht hs
        obtain ⟨e, he⟩ := m.cache_of_tagIndex ht
        rcases h with ⟨hn, -⟩ | hw
        · rw [← hs, hn] at he
          cases he
        · obtain ⟨e', he'⟩ := m.cache_of_tagIndex hw
          rw [← hs, he'] at he
          cases he
          exact hb rfl
      cases l <;> simp [hb, Ne.symm hb] <;> tauto
  · rw [if_neg hiv, hv]
    by_cases hb : b = a
    · subst hb
      have : ¬ (i = set b ∧ m.tagIndex b = some v) := by
        rintro ⟨rfl, ht⟩
        rcases h with ⟨-, hn⟩ | hw
        · rw [hn] at ht
          cases ht
        · rw [hw] at ht
          cases ht
          exact hiv ⟨rfl, rfl⟩
      cases l with
      | none => simp_all
      | some e =>
          simp only [this, if_true, Option.map_some, Option.some.injEq, false_iff]
          rintro ⟨rfl, rfl⟩
          exact hiv ⟨rfl, rfl⟩
    · simp [hb]

/-- Overwrite the way of an address. -/
def put (m : CacheMemory A E set assoc) (a : A) (w : Fin assoc) (l : Option E)
    (h : m.cache (set a) w = none ∧ m.tagIndex a = none ∨ m.tagIndex a = some w) :
    CacheMemory A E set assoc where
  cache := putWay m.cache (set a) w (l.map (a, ·))
  tagIndex := Function.update m.tagIndex a (l.map fun _ => w)
  agree := m.agree_putWay l h

theorem lookup_put_self (m : CacheMemory A E set assoc) (a : A) (w : Fin assoc) (l : Option E)
    (h : m.cache (set a) w = none ∧ m.tagIndex a = none ∨ m.tagIndex a = some w) :
    (m.put a w l h).lookup a = l := by
  cases l <;> simp [lookup, put, putWay_apply]

theorem lookup_put_of_ne (m : CacheMemory A E set assoc) {a b : A} (w : Fin assoc) (l : Option E)
    (h : m.cache (set a) w = none ∧ m.tagIndex a = none ∨ m.tagIndex a = some w) (hb : b ≠ a) :
    (m.put a w l h).lookup b = m.lookup b := by
  simp only [lookup, put, Function.update_of_ne hb]
  cases ht : m.tagIndex b with
  | none => rfl
  | some v =>
      obtain ⟨e, he⟩ := m.cache_of_tagIndex ht
      have hne : ¬ (set b = set a ∧ v = w) := by
        rintro ⟨hs, rfl⟩
        rcases h with ⟨hn, -⟩ | hw
        · rw [hs, hn] at he
          cases he
        · obtain ⟨e', he'⟩ := m.cache_of_tagIndex hw
          rw [hs, he'] at he
          cases he
          exact hb rfl
      simp [putWay_apply, hne]

/-- Put a new line into the first open way.  The source asserts that the tag is absent and that a
way is open; where that fails the cache is returned as it was. -/
def allocate (m : CacheMemory A E set assoc) (a : A) (e : E) : CacheMemory A E set assoc :=
  if h : m.tagIndex a = none then
    match hw : m.openWay a with
    | none => m
    | some w => m.put a w (some e) (Or.inl ⟨m.cache_openWay hw, h⟩)
  else m

/-- Drop the line of an address. -/
def deallocate (m : CacheMemory A E set assoc) (a : A) : CacheMemory A E set assoc :=
  match hw : m.tagIndex a with
  | none => m
  | some w => m.put a w none (Or.inr hw)

/-- Change the line of an address in place, as a transition does through its entry pointer. -/
def modify (m : CacheMemory A E set assoc) (a : A) (e : E) : CacheMemory A E set assoc :=
  match hw : m.tagIndex a with
  | none => m
  | some w => m.put a w (some e) (Or.inr hw)

/-- What a transition leaves for an address: nothing, a new line, or a changed one. -/
def assign (m : CacheMemory A E set assoc) (a : A) : Option E → CacheMemory A E set assoc
  | none => m.deallocate a
  | some e => if (m.lookup a).isSome then m.modify a e else m.allocate a e

/-- Writing one address leaves the other lines alone. -/
theorem lookup_assign_of_ne (m : CacheMemory A E set assoc) {a b : A} (l : Option E) (hb : b ≠ a) :
    (m.assign a l).lookup b = m.lookup b := by
  cases l with
  | none =>
      simp only [assign, deallocate]
      split
      · rfl
      · exact m.lookup_put_of_ne _ _ _ hb
  | some e =>
      simp only [assign]
      split
      · simp only [modify]
        split
        · rfl
        · exact m.lookup_put_of_ne _ _ _ hb
      · simp only [allocate]
        split
        · split
          · rfl
          · exact m.lookup_put_of_ne _ _ _ hb
        · rfl

/-- **What is written is read back**, as long as a new line finds an open way. -/
theorem lookup_assign_self (m : CacheMemory A E set assoc) (a : A) (l : Option E)
    (h : m.lookup a = none → l.isSome → m.cacheAvail a = true) : (m.assign a l).lookup a = l := by
  cases l with
  | none =>
      simp only [assign, deallocate]
      split
      · next hw => exact m.lookup_eq_none.2 hw
      · exact m.lookup_put_self _ _ _ _
  | some e =>
      cases hl : m.lookup a with
      | some e' =>
          simp only [assign, hl, Option.isSome_some, if_true, modify]
          split
          · next hw => rw [m.lookup_eq_none.2 hw] at hl; cases hl
          · exact m.lookup_put_self _ _ _ _
      | none =>
          have hopen := m.openWay_isSome hl (h hl rfl)
          simp only [assign, hl, Option.isSome_none, Bool.false_eq_true, if_false, allocate,
            m.lookup_eq_none.1 hl, dite_true]
          split
          · next hw => simp [hw] at hopen
          · exact m.lookup_put_self _ _ _ _

end CacheMemory

end Msi
