/-
**Every dirty block is written back, once.**

A write to a block is not passed on to the next level at once: the block is marked as dirty, and
written back when it leaves the cache.  So a write must not be lost, and a block must not be written
back without one.  To say this, the accesses to a cache and the calls of its miss handler are
written to a log, in the order in which they happen.  At any time the dirty blocks of the cache are
then exactly those to which there has been a write since they were written back last, and only such
blocks are written back.

The mark of a block stays when the block is invalidated, so it counts only together with the valid
bit; and the address of a block that is written back is put together from its tag and its set.

Main definitions:

* `CacheSim.Traffic`, `CacheSim.logged`, `CacheSim.noted` — the log, and a cache that keeps it;
* `CacheSim.Unsaved` — there has been a write to a block since it was written back;
* `CacheSim.DirtyIn` — the block of an address is in the cache, valid and dirty.

Main results:

* `CacheSim.dirtyIn_hit`, `CacheSim.dirtyIn_replaces`, `CacheSim.dirtyIn_drop` — the dirty blocks
  after the operations;
* `CacheSim.run_unsaved` — **no write-back is lost, and none is spurious**.
-/

import ArchLab.CacheRuns

set_option relaxedAutoImplicit false
set_option autoImplicit false

namespace CacheSim

open Refine

/-! ### The log -/

/-- An access to a block, or a call of the miss handler for it. -/
inductive Traffic where
  | access (cmd : MemCmd) (block : Addr)
  | call (cmd : MemCmd) (block : Addr)
  deriving DecidableEq

section Log

variable {ε M C : Type}

/-- A miss handler with a log of its calls. -/
def logged (fn : Handler ε M) : Handler ε (List Traffic × M) :=
  fun cmd baddr bsize now prefetch (sh, log, m) => do
    let (l, sh, m) ← fn cmd baddr bsize now prefetch (sh, m)
    return (l, sh, log ++ [.call cmd baddr], m)

/-- A cache with a log of the accesses to it. -/
def noted (g : Params) (S : Store ε (List Traffic × M) C) : Store ε (List Traffic × M) C :=
  { S with
    access := fun cmd addr nbytes now prefetch c (sh, log, m) =>
      S.access cmd addr nbytes now prefetch c (sh, log ++ [.access cmd (g.baddr addr)], m) }

theorem StoreSim.noted {C' : Type} {bad : Fault ε → Prop} {R : C → C' → Prop} {g : Params}
    {S : Store ε (List Traffic × M) C} {S' : Store ε (List Traffic × M) C'}
    (h : StoreSim bad R S S') : StoreSim bad R (noted g S) (noted g S') where
  access hc cmd addr nbytes now prefetch _ := h.access hc cmd addr nbytes now prefetch _
  probe := h.probe
  ready := h.ready
  flush := h.flush
  flushAddr := h.flushAddr

/-- **There has been a write to a block since it was written back.** -/
def Unsaved (log : List Traffic) (block : Addr) : Prop :=
  ∃ l₁ l₂, log = l₁ ++ .access .Write block :: l₂ ∧ Traffic.call .Write block ∉ l₂

/-- All write-backs are of blocks to which there has been a write. -/
def Justified (log : List Traffic) : Prop :=
  ∀ l₁ block l₂, log = l₁ ++ .call .Write block :: l₂ → Unsaved l₁ block

variable {log : List Traffic} {cmd : MemCmd} {a block : Addr}

/-- The last entry of a log that is split somewhere. -/
theorem append_singleton_eq {e x : Traffic} {l₁ l₂ : List Traffic}
    (h : log ++ [e] = l₁ ++ x :: l₂) :
    (l₂ = [] ∧ log = l₁ ∧ e = x) ∨ ∃ l, l₂ = l ++ [e] ∧ log = l₁ ++ x :: l := by
  rcases List.eq_nil_or_concat' l₂ with rfl | ⟨l, y, rfl⟩
  · obtain ⟨h₁, h₂⟩ := List.append_inj' h rfl
    exact .inl ⟨rfl, h₁, (List.cons.inj h₂).1⟩
  · rw [← List.cons_append, ← List.append_assoc] at h
    obtain ⟨h₁, h₂⟩ := List.append_inj' h rfl
    rw [(List.cons.inj h₂).1]
    exact .inr ⟨l, rfl, h₁⟩

/-- An access. -/
theorem unsaved_access :
    Unsaved (log ++ [.access cmd a]) block ↔ Unsaved log block ∨ (cmd = .Write ∧ a = block) := by
  constructor
  · rintro ⟨l₁, l₂, hl, hnot⟩
    rcases append_singleton_eq hl with ⟨_, _, he⟩ | ⟨l, rfl, hl'⟩
    · cases he
      exact .inr ⟨rfl, rfl⟩
    · exact .inl ⟨l₁, l, hl', fun hm => hnot (List.mem_append_left _ hm)⟩
  · rintro (⟨l₁, l₂, rfl, hnot⟩ | ⟨rfl, rfl⟩)
    · refine ⟨l₁, l₂ ++ [.access cmd a], by rw [List.append_assoc, List.cons_append], fun hm => ?_⟩
      rcases List.mem_append.1 hm with hm | hm
      · exact hnot hm
      · cases List.mem_singleton.1 hm
    · exact ⟨log, [], rfl, List.not_mem_nil⟩

/-- A call of the miss handler. -/
theorem unsaved_call :
    Unsaved (log ++ [.call cmd a]) block ↔ Unsaved log block ∧ ¬ (cmd = .Write ∧ a = block) := by
  constructor
  · rintro ⟨l₁, l₂, hl, hnot⟩
    rcases append_singleton_eq hl with ⟨_, _, he⟩ | ⟨l, rfl, hl'⟩
    · cases he
    · refine ⟨⟨l₁, l, hl', fun hm => hnot (List.mem_append_left _ hm)⟩, ?_⟩
      rintro ⟨rfl, rfl⟩
      exact hnot (List.mem_append_right _ List.mem_cons_self)
  · rintro ⟨⟨l₁, l₂, rfl, hnot⟩, hne⟩
    refine ⟨l₁, l₂ ++ [.call cmd a], by rw [List.append_assoc, List.cons_append], fun hm => ?_⟩
    rcases List.mem_append.1 hm with hm | hm
    · exact hnot hm
    · cases List.mem_singleton.1 hm
      exact hne ⟨rfl, rfl⟩

theorem Justified.access (h : Justified log) : Justified (log ++ [.access cmd a]) := by
  intro l₁ block l₂ hl
  rcases append_singleton_eq hl with ⟨_, _, he⟩ | ⟨l, _, hl'⟩
  · cases he
  · exact h l₁ block l hl'

theorem Justified.call (h : Justified log) (ha : cmd = .Write → Unsaved log a) :
    Justified (log ++ [.call cmd a]) := by
  intro l₁ block l₂ hl
  rcases append_singleton_eq hl with ⟨_, rfl, he⟩ | ⟨l, _, hl'⟩
  · cases he
    exact ha rfl
  · exact h l₁ block l hl'

end Log

/-! ### Dirty blocks -/

section Dirty

variable {ε M : Type} {g : Params} {c c' : Ways} {cmd : MemCmd} {addr a : Addr} {prefetch : Bool}
  {i b : ℕ}

/-- The block of an address is in the cache, valid and dirty. -/
def DirtyIn (g : Params) (line : ℕ → ℕ → Line) (a : Addr) : Prop :=
  ∃ b < g.assoc, (line (g.set a) b).tag = g.tag a ∧ (line (g.set a) b).valid = true ∧
    (line (g.set a) b).dirty = true

/-- The contents of the blocks. -/
abbrev Ways.line (c : Ways) (i b : ℕ) : Line := (c.sets i).line b

/-- The block of an address is a block of the cache. -/
def Occupies (g : Params) (c : Ways) (i b : ℕ) (a : Addr) : Prop :=
  g.set a = i ∧ (c.line i b).tag = g.tag a ∧ (c.line i b).valid = true

/-- The dirty block of an address is the one that it occupies. -/
theorem Occupies.dirtyIn (h : Occupies g c i b a) (hok : c.Ok g) (hb : b < g.assoc) :
    DirtyIn g c.line a ↔ (c.line i b).dirty = true := by
  obtain ⟨rfl, ht, hv⟩ := h
  constructor
  · rintro ⟨b', hb', ht', hv', hd⟩
    rwa [(hok.sets _).unique b b' hb hb' hv hv' (ht.trans ht'.symm)]
  · exact fun hd => ⟨b, hb, ht, hv, hd⟩

/-- **One block changes**: the dirty blocks are the others, and the new one if it is dirty. -/
theorem dirtyIn_update {v : WaySet} {l : Line} (hok : c.Ok g) (hb : b < g.assoc)
    (hsets : c'.sets = Function.update c.sets i v)
    (hline : ∀ b', v.line b' = if b' = b then l else (c.sets i).line b') :
    DirtyIn g c'.line a ↔ (g.set a = i ∧ l.tag = g.tag a ∧ l.valid = true ∧ l.dirty = true) ∨
      (DirtyIn g c.line a ∧ ¬ Occupies g c i b a) := by
  by_cases hi : g.set a = i
  · have hnew : ∀ b', c'.line (g.set a) b' = if b' = b then l else c.line (g.set a) b' := by
      intro b'
      unfold Ways.line
      rw [hsets, hi, Function.update_self, hline]
    constructor
    · rintro ⟨b', hb', ht, hv, hd⟩
      rw [hnew] at ht hv hd
      by_cases hbb : b' = b
      · rw [if_pos hbb] at ht hv hd
        exact .inl ⟨hi, ht, hv, hd⟩
      · rw [if_neg hbb] at ht hv hd
        refine .inr ⟨⟨b', hb', ht, hv, hd⟩, ?_⟩
        rintro ⟨_, ht', hv'⟩
        rw [hi] at ht hv
        exact hbb ((hok.sets i).unique b' b hb' hb hv hv' (ht.trans ht'.symm))
    · rintro (⟨_, ht, hv, hd⟩ | ⟨⟨b', hb', ht, hv, hd⟩, hnot⟩)
      · refine ⟨b, hb, ?_⟩
        rw [hnew, if_pos rfl]
        exact ⟨ht, hv, hd⟩
      · refine ⟨b', hb', ?_⟩
        have hbb : b' ≠ b := by
          rintro rfl
          rw [hi] at ht hv
          exact hnot ⟨hi, ht, hv⟩
        rw [hnew, if_neg hbb]
        exact ⟨ht, hv, hd⟩
  · have hsame : ∀ b', c'.line (g.set a) b' = c.line (g.set a) b' := by
      intro b'
      unfold Ways.line
      rw [hsets, Function.update_of_ne hi]
    unfold DirtyIn
    simp only [hsame]
    constructor
    · exact fun h => .inr ⟨h, fun hocc => hi hocc.1⟩
    · rintro (⟨h, _⟩ | ⟨h, _⟩)
      · exact absurd h hi
      · exact h

/-- A hit. -/
theorem dirtyIn_hit (hdef : g.tagShift < 32) (hok : c.Ok g)
    (hf : (c.sets (g.set addr)).Hits g addr b) :
    DirtyIn g (c.hit g cmd addr prefetch b).line a ↔
      DirtyIn g c.line a ∨ (cmd = .Write ∧ g.tagset addr = g.tagset a) := by
  obtain ⟨hb, hv, ht⟩ := hf
  have ht := ht hdef
  rw [dirtyIn_update hok hb rfl fun b' => WaySet.line_touched cmd]
  by_cases ha : g.tagset addr = g.tagset a
  · obtain ⟨hta, hsa⟩ := (g.tagset_eq_iff hdef).1 ha
    have hocc : Occupies g c (g.set addr) b a := ⟨hsa.symm, ht.trans hta, hv⟩
    rw [hocc.dirtyIn hok hb]
    simp only [hsa.symm, Line.touch, ht.trans hta, hv, ha, hocc, Bool.or_eq_true,
      decide_eq_true_iff,
      true_and, not_true_eq_false, and_false, or_false, and_true]
  · have hocc : ¬ Occupies g c (g.set addr) b a := by
      rintro ⟨hsa, hta, _⟩
      exact ha ((g.tagset_eq_iff hdef).2 ⟨ht.symm.trans hta, hsa.symm⟩)
    have hnew : ¬ (g.set a = g.set addr ∧ ((c.sets (g.set addr)).line b).tag = g.tag a) := by
      rintro ⟨hsa, hta⟩
      exact hocc ⟨hsa, hta, hv⟩
    constructor
    · rintro (⟨hsa, hta, _⟩ | ⟨h, _⟩)
      · exact absurd ⟨hsa, hta⟩ hnew
      · exact .inl h
    · rintro (h | ⟨_, h⟩)
      · exact .inr ⟨h, hocc⟩
      · exact absurd h ha

/-- A miss. -/
theorem dirtyIn_replaces {fn : Handler ε M} {w w' : Shared × M} {v : WaySet}
    (hdef : g.tagShift < 32) (hok : c.Ok g) (hr : Replaces g fn cmd addr prefetch c w c' w' b v) :
    DirtyIn g c'.line a ↔ (cmd = .Write ∧ g.tagset addr = g.tagset a) ∨
      (DirtyIn g c.line a ∧ ¬ Occupies g c (g.set addr) b a) := by
  obtain ⟨ready, hsets, hline⟩ := hr.sets_line
  rw [dirtyIn_update hok hr.chosen.lt hsets hline]
  refine or_congr_left ?_
  rw [g.tagset_eq_iff hdef]
  constructor
  · rintro ⟨hs, ht, _, hd⟩
    exact ⟨of_decide_eq_true hd, ht, hs.symm⟩
  · rintro ⟨hc, ht, hs⟩
    exact ⟨hs.symm, ht, rfl, decide_eq_true hc⟩

/-- An invalidation. -/
theorem dirtyIn_drop (hok : c.Ok g) (hb : b < g.assoc) :
    DirtyIn g (c.drop i b).line a ↔ DirtyIn g c.line a ∧ ¬ Occupies g c i b a := by
  rw [dirtyIn_update hok hb rfl fun b' =>
    WaySet.line_setLine { (c.sets i).line b with valid := false }]
  constructor
  · rintro (⟨_, _, h, _⟩ | h)
    · cases h
    · exact h
  · exact .inr

theorem line_moveTail : (c.moveTail i b).line = c.line := by
  funext j a
  change (Function.update c.sets i ((c.sets i).toTail b) j).line a = (c.sets j).line a
  by_cases hj : j = i
  · subst hj
    rw [Function.update_self]
    rfl
  · rw [Function.update_of_ne hj]

end Dirty

/-! ### Sequences of calls -/

section Run

variable {ε M : Type} {g : Params} {fn : Handler ε M} {c c' : Ways} {log : List Traffic} {i b : ℕ}

/-- **The dirty blocks are those with an unsaved write**, and all write-backs are justified.  Every
valid block is the block of some address. -/
structure Saved (g : Params) (c : Ways) (log : List Traffic) : Prop where
  origin : ∀ i b, b < g.assoc → (c.line i b).valid = true → ∃ a, Occupies g c i b a
  dirty : ∀ a, DirtyIn g c.line a ↔ Unsaved log (g.tagset a)
  justified : Justified log

theorem Saved.create (g : Params) : Saved g (Ways.create g) [] where
  origin _ _ _ hv := by cases hv
  dirty a := by
    constructor
    · rintro ⟨_, _, _, hv, _⟩
      cases hv
    · rintro ⟨l₁, l₂, hl, _⟩
      exact absurd hl.symm (by simp)
  justified l₁ _ l₂ hl := absurd hl.symm (by simp)

theorem Saved.forget (h : Saved g c log) : Saved g c.forget log := ⟨h.origin, h.dirty, h.justified⟩

/-- One block changes. -/
theorem Saved.origin_update (h : Saved g c log) {v : WaySet} {l : Line}
    (hsets : c'.sets = Function.update c.sets i v)
    (hline : ∀ b', v.line b' = if b' = b then l else (c.sets i).line b')
    (hl : l.valid = true → ∃ a, g.set a = i ∧ l.tag = g.tag a) :
    ∀ j b', b' < g.assoc → (c'.line j b').valid = true → ∃ a, Occupies g c' j b' a := by
  intro j b' hb' hv
  have hnew : c'.line j b' = if j = i ∧ b' = b then l else c.line j b' := by
    unfold Ways.line
    rw [hsets]
    by_cases hj : j = i
    · subst hj
      rw [Function.update_self, hline]
      simp only [true_and]
    · rw [Function.update_of_ne hj, if_neg fun hn => hj hn.1]
  unfold Occupies
  rw [hnew] at hv ⊢
  split at hv
  · next hjb =>
      obtain ⟨a, hs, ht⟩ := hl hv
      rw [if_pos hjb]
      exact ⟨a, hs.trans hjb.1.symm, ht, hv⟩
  · next hjb =>
      rw [if_neg hjb]
      exact h.origin j b' hb' hv

theorem logged_ok {cmd : MemCmd} {a : Addr} {n : ℕ} {t : ℤ} {prefetch : Bool}
    {w : Shared × List Traffic × M} {x : ℤ × Shared × List Traffic × M}
    (h : logged fn cmd a n t prefetch w = .ok x) : x.2.2.1 = w.2.1 ++ [.call cmd a] := by
  obtain ⟨y, _, hx⟩ := bind_ok.1 h
  cases hx
  rfl

/-- A valid block leaves the cache. -/
theorem evicts_logged (hdef : g.tagShift < 32) {w w' : Shared × List Traffic × M} {a₀ : Addr}
    (hocc : Occupies g c i b a₀) (he : Evicts g (logged fn) i (c.line i b) w w') :
    (∀ a, Unsaved w'.2.1 (g.tagset a) ↔
      Unsaved w.2.1 (g.tagset a) ∧ ¬ ((c.line i b).dirty = true ∧ Occupies g c i b a)) ∧
    (Justified w.2.1 → ((c.line i b).dirty = true → Unsaved w.2.1 (g.tagset a₀)) →
      Justified w'.2.1) := by
  have hsame : ∀ a, g.tagset a₀ = g.tagset a ↔ Occupies g c i b a := by
    intro a
    obtain ⟨hs, ht, hv⟩ := hocc
    rw [g.tagset_eq_iff hdef]
    constructor
    · rintro ⟨h₁, h₂⟩
      exact ⟨h₂.symm.trans hs, ht.trans h₁, hv⟩
    · rintro ⟨h₁, h₂, _⟩
      exact ⟨ht.symm.trans h₂, hs.trans h₁.symm⟩
  unfold Evicts at he
  split at he
  · next hd =>
      obtain ⟨t, l, hfn⟩ := he
      have haddr : g.mkBaddr (c.line i b).tag i = g.tagset a₀ := by
        rw [hocc.2.1, ← hocc.1, g.mkBaddr_tag_set hdef]
      have hlog : w'.2.1 = w.2.1 ++ [.call .Write (g.tagset a₀)] := by
        rw [← haddr]
        exact logged_ok hfn
      rw [hlog]
      refine ⟨fun a => ?_, fun hj hun => hj.call fun _ => hun hd⟩
      rw [unsaved_call, hsame a]
      simp only [hd, true_and]
  · next hd =>
      rw [he]
      exact ⟨fun a => ⟨fun hu => ⟨hu, fun hn => hd hn.1⟩, fun hu => hu.1⟩, fun hj _ => hj⟩

/-- An invalidation. -/
theorem Saved.drop (hdef : g.tagShift < 32) {w w' : Shared × List Traffic × M}
    (h : Saved g c w.2.1) (hok : c.Ok g) (hb : b < g.assoc) (hv : (c.line i b).valid = true)
    (he : Evicts g (logged fn) i (c.line i b) w w') : Saved g (c.drop i b) w'.2.1 := by
  obtain ⟨a₀, hocc⟩ := h.origin i b hb hv
  obtain ⟨hun, hjust⟩ := evicts_logged hdef hocc he
  refine ⟨h.origin_update rfl (fun _ => WaySet.line_setLine
    { (c.sets i).line b with valid := false })
    nofun, fun a => ?_, hjust h.justified fun hd => ?_⟩
  · rw [dirtyIn_drop hok hb, hun, ← h.dirty]
    refine and_congr_right fun hda => not_congr ⟨fun ho => ⟨?_, ho⟩, fun ho => ho.2⟩
    exact (ho.dirtyIn hok hb).1 hda
  · exact (h.dirty a₀).1 ((hocc.dirtyIn hok hb).2 hd)

theorem Saved.moveTail (h : Saved g c log) : Saved g (c.moveTail i b) log := by
  refine ⟨?_, ?_, h.justified⟩
  · unfold Occupies
    rw [line_moveTail]
    exact h.origin
  · rw [line_moveTail]
    exact h.dirty

/-- A hit. -/
theorem Saved.hit (h : Saved g c log) (hdef : g.tagShift < 32) (hok : c.Ok g) {cmd : MemCmd}
    {addr : Addr} {prefetch : Bool} (hf : (c.sets (g.set addr)).Hits g addr b) :
    Saved g (c.hit g cmd addr prefetch b) (log ++ [.access cmd (g.baddr addr)]) := by
  refine ⟨h.origin_update rfl (fun _ => WaySet.line_touched cmd) fun _ => ⟨addr, rfl, hf.tag hdef⟩,
    fun a => ?_, h.justified.access⟩
  rw [dirtyIn_hit hdef hok hf, unsaved_access, h.dirty, g.baddr_eq_tagset]

/-- A miss. -/
theorem Saved.replaces (h : Saved g c log) (hdef : g.tagShift < 32) (hok : c.Ok g) {cmd : MemCmd}
    {addr : Addr} {prefetch : Bool} {v : WaySet} {sh : Shared} {m : M}
    {w' : Shared × List Traffic × M}
    (hf : (c.sets (g.set addr)).find (g.tag addr) = none)
    (hr : Replaces g (logged fn) cmd addr prefetch c (sh, log ++ [.access cmd (g.baddr addr)], m)
      c' w' b v) : Saved g c' w'.2.1 := by
  have hb := hr.chosen.lt
  obtain ⟨w₁, w₂, t, l, hw, hback, hread⟩ := hr.world
  have hlog₁ : w₁.2.1 = log ++ [.access cmd (g.baddr addr)] := by rw [hw]
  -- the block of the address is not the replaced one
  have hmiss : ∀ a, g.tagset addr = g.tagset a → ¬ Occupies g c (g.set addr) b a := by
    rintro a ha ⟨_, ht, hv⟩
    rw [← ((g.tagset_eq_iff hdef).1 ha).1] at ht
    have hinv := (WaySet.find_eq_none (hok.sets _)).1 hf b hb ht
    exact absurd (hinv.symm.trans hv) (by decide)
  have hjust₁ : Justified w₁.2.1 := by
    rw [hlog₁]
    exact h.justified.access
  have hun₁ : ∀ a, Unsaved w₁.2.1 (g.tagset a) ↔
      DirtyIn g c.line a ∨ (cmd = .Write ∧ g.tagset addr = g.tagset a) := by
    intro a
    rw [hlog₁, unsaved_access, h.dirty, g.baddr_eq_tagset]
  -- the write-back of the replaced block
  have hback' : (∀ a, Unsaved w₂.2.1 (g.tagset a) ↔ (cmd = .Write ∧ g.tagset addr = g.tagset a) ∨
      (DirtyIn g c.line a ∧ ¬ Occupies g c (g.set addr) b a)) ∧ Justified w₂.2.1 := by
    split at hback
    · next hv =>
        obtain ⟨a₀, hocc⟩ := h.origin _ b hb hv
        obtain ⟨hun, hjust⟩ := evicts_logged hdef hocc hback.2
        refine ⟨fun a => ?_, hjust hjust₁ fun hd => ?_⟩
        · rw [hun, hun₁]
          by_cases ho : Occupies g c (g.set addr) b a
          · -- the block has been written back, if it was dirty
            have hne : ¬ g.tagset addr = g.tagset a := fun ha => hmiss a ha ho
            have hda := ho.dirtyIn hok hb
            simp only [ho, hne, and_false, or_false, and_true, not_true_eq_false]
            exact iff_of_false (fun hd => hd.2 (hda.1 hd.1)) id
          · simp only [ho, and_false, not_false_eq_true, and_true]
            exact or_comm
        · exact (hun₁ a₀).2 (.inl ((hocc.dirtyIn hok hb).2 hd))
    · next hv =>
        rw [hback.2]
        refine ⟨fun a => ?_, hjust₁⟩
        have hno : ¬ Occupies g c (g.set addr) b a := fun ho => hv ho.2.2
        rw [hun₁]
        simp only [hno, not_false_eq_true, and_true]
        exact or_comm
  obtain ⟨ready, hsets, hline⟩ := hr.sets_line
  have hlog : w'.2.1 = w₂.2.1 ++ [.call .Read (g.baddr addr)] := logged_ok hread
  refine ⟨h.origin_update hsets hline fun _ => ⟨addr, rfl, rfl⟩, fun a => ?_, ?_⟩
  · rw [dirtyIn_replaces hdef hok hr, hlog, unsaved_call, hback'.1]
    simp
  · rw [hlog]
    exact hback'.2.call nofun

/-- All operations keep the log. -/
theorem keeps_saved (hdef : g.tagShift < 32) :
    Keeps g (noted g (Ways.store g (logged fn))) fun _ c m => c.Ok g ∧ Saved g c m.1 where
  access := by
    rintro es c ⟨sh, log, m⟩ cmd addr nbytes now prefetch e c' w' ⟨hok, h⟩ hr
    rcases Ways.access_ok hok hr with ⟨b, hf, _, rfl, rfl⟩ | ⟨hf, _, repl, v, hrep⟩
    · exact ⟨hok.hit hf, h.hit hdef hok hf⟩
    · exact ⟨hok.replaces hf hrep, h.replaces hdef hok hf hrep⟩
  flush := by
    rintro es c w now lat c' w' ⟨hok, h⟩ hr
    exact Ways.flush_keeps (Q := fun c m => Saved g c m.1)
      (fun hok _ hb hv h he => h.drop hdef hok hb hv he) hok h.forget hr
  flushAddr := by
    rintro es c w addr now lat c' w' ⟨hok, h⟩ hr
    refine ⟨hok.flushAddr hr, ?_⟩
    rcases Ways.flushAddr_ok hr with ⟨_, rfl, rfl⟩ | ⟨b, hf, rfl, he⟩
    · exact h
    · obtain ⟨hb, _, hv⟩ := (WaySet.find_eq_some (hok.sets _)).1 hf
      exact (h.forget.drop hdef hok.forget hb hv he).moveTail

/-- **No write-back is lost, and none is spurious**, if the shift for the tag is defined: after
every sequence of calls, the block of an address is in the cache, valid and dirty, if and only if
there has been a write to it since it was written back; and only such blocks have been written back.
-/
theorem run_unsaved (hdef : g.tagShift < 32) (ops : List Op) {es : List Event} {cp : Cache}
    {sh sh' : Shared} {m m' : M}
    (hr : run g (noted g (store g (logged fn))) ops (Cache.create g) (sh, [], m) =
      .ok (es, cp, sh', log, m')) :
    (∀ a, DirtyIn g (fun i b => (cp.sets i).line b) a ↔ Unsaved log (g.tagset a)) ∧
      Justified log := by
  obtain ⟨c, hrel, _, h⟩ := run_keeps (cache_storeSim (logged fn)).noted (keeps_saved hdef)
    ⟨Ways.Ok.create g, Saved.create g⟩ hr
  have hline : (fun i b => (cp.sets i).line b) = c.line := funext fun i => (hrel.sets i).line
  rw [hline]
  exact ⟨h.dirty, h.justified⟩

/-- Two writes to blocks of one set, and reads that push them out. -/
theorem run_unsaved_small : ∃ es cp sh log m,
    run (.small .LRU 0) (noted (.small .LRU 0) (store (.small .LRU 0) (logged dl2AccessFn)))
      [.access .Write 16 4 0 false 0, .access .Write 32 4 1 false 0, .access .Read 48 4 2 false 0,
        .flushAddr 32 3, .access .Read 16 4 4 false 0] (Cache.create (.small .LRU 0))
        (.start, [], ()) =
      .ok (es, cp, sh, log, m) ∧
    (∀ a, DirtyIn (.small .LRU 0) (fun i b => (cp.sets i).line b) a ↔
      Unsaved log ((Params.small .LRU 0).tagset a)) ∧ Justified log := by
  obtain ⟨⟨es, cp, sh, log, m⟩, hr⟩ := exists_ok (x := run (.small .LRU 0)
    (noted (.small .LRU 0) (store (.small .LRU 0) (logged dl2AccessFn)))
    [.access .Write 16 4 0 false 0, .access .Write 32 4 1 false 0, .access .Read 48 4 2 false 0,
      .flushAddr 32 3, .access .Read 16 4 4 false 0] (Cache.create (.small .LRU 0))
        (.start, [], ()))
    (by decide +kernel)
  exact ⟨es, cp, sh, log, m, hr, run_unsaved (by decide) _ hr⟩

end Run

end CacheSim
