/-
**Every step of the system, seen from every block.**

A step of the system is a transition of one controller on one block, or it hands a message over.
This module proves the first half of the reduction of the system to its blocks: whatever move is
made, each block sees a `Msi.BlockStep` (`ArchLab/MsiBlock.lean`).

Two facts about messages are needed for it.  Messages carry the name of the machine that sent them
(`Msi.Routed`), which every step keeps; and messages about a block stay with its home directory
(`Msi.Block.Homed`), which will follow from the coherence invariant.

Main results:

* `Msi.Step.view` — every step is a `Msi.BlockStep` of every block, and keeps `Msi.Routed`.
-/

import ArchLab.MsiBlock

set_option relaxedAutoImplicit false
set_option autoImplicit false

namespace Msi

/-- Messages carry the name of the machine that sent them. -/
structure Routed {C D A : Type} {n : ℕ} {cfg : Config D A} (s : System C D A n cfg) : Prop where
  request : ∀ c d, ∀ m ∈ s.requestNet c d, m.requestor = .L1Cache c
  queue : ∀ d, ∀ m ∈ (s.dir d).requestToDir, ∃ c, m.requestor = .L1Cache c
  response : ∀ src dst, ∀ m ∈ s.responseNet src dst, m.sender = src

namespace Routed

variable {C D A : Type} [DecidableEq C] [DecidableEq D] [DecidableEq A] {n : ℕ} {cfg : Config D A}
  {s : System C D A n cfg}

omit [DecidableEq C] [DecidableEq D] [DecidableEq A] in
theorem init (mem : A → DataBlock n) : Routed (System.init (C := C) cfg mem) :=
  ⟨by simp [System.init], by simp [System.init], by simp [System.init]⟩

theorem l1Finish (h : Routed s) {c : C} {a : A} {v : DataBlock n} {x : L1Cache.Ctx C D A n}
    (hs : L1Cache.Sends (s.l1Env c a v) (s.entry c a) x) : Routed (s.l1Finish c a x id) where
  request c' d m hm := by
    by_cases hc : c' = c
    · subst hc
      simp only [System.l1Finish, Function.update_self, List.mem_append] at hm
      rcases hm with hm | hm
      · exact h.request c' d m hm
      · exact (hs.request m (List.mem_of_mem_filter hm)).2
    · simp only [System.l1Finish, Function.update_of_ne hc] at hm
      exact h.request c' d m hm
  queue := h.queue
  response src dst m hm := by
    by_cases hc : src = .L1Cache c
    · subst hc
      simp only [System.l1Finish, Function.update_self, List.mem_append] at hm
      rcases hm with hm | hm
      · exact h.response _ dst m hm
      · exact (hs.response m (List.mem_of_mem_filter hm)).2
    · simp only [System.l1Finish, Function.update_of_ne hc] at hm
      exact h.response src dst m hm

theorem dirFinish (h : Routed s) {d : D} {a : A} {x : Directory.Ctx C D A n}
    (hs : Directory.Sends (s.dirEnv d a) x) : Routed (s.dirFinish d a x id) where
  request := h.request
  queue d' m hm := by
    by_cases hd : d' = d
    · subst hd
      simp only [System.dirFinish, Function.update_self, id] at hm
      exact h.queue d' m hm
    · simp only [System.dirFinish, Function.update_of_ne hd] at hm
      exact h.queue d' m hm
  response src dst m hm := by
    by_cases hc : src = .Directory d
    · subst hc
      simp only [System.dirFinish, Function.update_self, List.mem_append] at hm
      rcases hm with hm | hm
      · exact h.response _ dst m hm
      · exact (hs.response m (List.mem_of_mem_filter hm)).2
    · simp only [System.dirFinish, Function.update_of_ne hc] at hm
      exact h.response src dst m hm

omit [DecidableEq D] [DecidableEq A] in
theorem setCache (h : Routed s) (c : C) (k : Cache C D A n cfg) : Routed (s.setCache c k) :=
  ⟨h.request, h.queue, h.response⟩

omit [DecidableEq C] [DecidableEq A] in
theorem setDir (h : Routed s) {d : D} {k : Dir C D A n}
    (hk : ∀ m ∈ k.requestToDir, ∃ c, m.requestor = .L1Cache c) : Routed (s.setDir d k) where
  request := h.request
  queue d' m hm := by
    by_cases hd : d' = d
    · subst hd
      simp only [System.setDir, Function.update_self] at hm
      exact hk m hm
    · simp only [System.setDir, Function.update_of_ne hd] at hm
      exact h.queue d' m hm
  response := h.response

end Routed

section View

variable {C D A : Type} [DecidableEq C] [DecidableEq D] [DecidableEq A] {n : ℕ} {cfg : Config D A}
  {s s' : System C D A n cfg}

open Msi.System (popped)

/-- What a step has to be for every block. -/
def Views (s : System C D A n cfg) (rep : Option (Report C D A n)) (s' : System C D A n cfg) :
    Prop :=
  Routed s' ∧ ∀ a, BlockStep cfg a (s.block a) (rep.filter fun r => r.address = a) (s'.block a)

/-- A move that no block sees. -/
theorem views_quiet (hr : Routed s')
    (hb : ∀ a, s'.block a = { s.block a with time := s.time + 1 }) : Views s none s' :=
  ⟨hr, fun a => by rw [hb a]; exact BlockStep.quiet⟩

/-- A cache transition, after the queues have been changed to those of `s₁`. -/
theorem views_l1 {s₁ : System C D A n cfg} {c : C} {a : A} {v : DataBlock n}
    {x : L1Cache.Ctx C D A n} {m : Option (RequestMsg C D A n)} (hr : Routed s₁)
    (hs : L1Cache.Sends (s₁.l1Env c a v) (s₁.entry c a) x)
    (hself : BlockStep cfg a (s.block a) (some ⟨c, a, m, s.state c a, x⟩)
      ((s₁.block a).l1Finish c x))
    (hne : ∀ a', a' ≠ a → s₁.block a' = s.block a') :
    Views s (some ⟨c, a, m, s.state c a, x⟩) (s₁.l1Finish c a x id) := by
  refine ⟨hr.l1Finish hs, fun a' => ?_⟩
  by_cases ha : a' = a
  · subst ha
    rw [System.block_l1Finish_self hs, Option.filter_some_pos (by simp)]
    exact hself
  · rw [System.block_l1Finish_of_ne hs ha, Option.filter_some_neg (by simpa using Ne.symm ha),
      hne a' ha]
    have ht : s₁.time = s.time := congrArg Block.time (hne a' ha)
    rw [ht]
    exact BlockStep.quiet

/-- A directory transition, after the queues have been changed to those of `s₁`. -/
theorem views_dir {s₁ : System C D A n cfg} {d : D} {a : A} {x : Directory.Ctx C D A n}
    (hr : Routed s₁) (hs : Directory.Sends (s₁.dirEnv d a) x) (hd : cfg.mapAddressToDirectory a = d)
    (hself : BlockStep cfg a (s.block a) none ((s₁.block a).dirFinish d x))
    (hne : ∀ a', a' ≠ a → s₁.block a' = s.block a') : Views s none (s₁.dirFinish d a x id) := by
  refine ⟨hr.dirFinish hs, fun a' => ?_⟩
  by_cases ha : a' = a
  · subst ha
    rw [System.block_dirFinish_self hs hd]
    exact hself
  · rw [System.block_dirFinish_of_ne hs ha, hne a' ha]
    have ht : s₁.time = s.time := congrArg Block.time (hne a' ha)
    rw [ht]
    exact BlockStep.quiet

/-- What is left in a network after its head has been handed over was there before. -/
theorem mem_of_mem_deliver {α β γ : Type} [DecidableEq α] [DecidableEq β] {f : α → β → List γ}
    {x : α} {y : β} {m m' : γ} {q : List γ} (hq : f x y = m :: q) {x' : α} {y' : β}
    (h : m' ∈ Function.update f x (Function.update (f x) y q) x' y') : m' ∈ f x' y' := by
  by_cases hx : x' = x
  · subst hx
    by_cases hy : y' = y
    · subst hy
      simp only [Function.update_self] at h
      rw [hq]
      exact List.mem_cons_of_mem m h
    · simpa [hy] using h
  · simpa [hx] using h

/-- The head of a request queue is at the home directory of its block. -/
theorem home_of_request (hr : Routed s) (hh : ∀ a, (s.block a).Homed (cfg.mapAddressToDirectory a))
    {d : D} {m : RequestMsg C D A n} {q : List (RequestMsg C D A n)}
    (hq : (s.dir d).requestToDir = m :: q) : cfg.mapAddressToDirectory m.address = d := by
  obtain ⟨c, hc⟩ := hr.queue d m (by simp [hq])
  obtain ⟨l, hl, -⟩ := System.block_popRequest_self (h := none) hq rfl hc
  by_contra hne
  rw [(hh m.address).req c d (Ne.symm hne)] at hl
  cases hl

/-- So is that of a response queue. -/
theorem home_of_response (hh : ∀ a, (s.block a).Homed (cfg.mapAddressToDirectory a)) {d : D}
    {m : ResponseMsg C D A n} {q : List (ResponseMsg C D A n)}
    (hq : (s.dir d).responseToDir = m :: q) : cfg.mapAddressToDirectory m.address = d := by
  obtain ⟨l, hl, -⟩ := System.block_popDirResponse_self (h := none) hq rfl
  by_contra hne
  rw [(hh m.address).resp m.sender d (Ne.symm hne)] at hl
  cases hl

/-- And so is an answer of the memory controller. -/
theorem home_of_memory (hh : ∀ a, (s.block a).Homed (cfg.mapAddressToDirectory a)) {d : D}
    {m : MemoryMsg C D A n} {q : List (MemoryMsg C D A n)}
    (hq : (s.dir d).memResponse = m :: q) : cfg.mapAddressToDirectory m.address = d := by
  obtain ⟨l, hl, -⟩ := System.block_popMemory_self (h := none) hq rfl
  by_contra hne
  rw [(hh m.address).mem d (Ne.symm hne)] at hl
  exact Multiset.cons_ne_zero hl.symm

/-- **Every step is, for every block, a transition of one controller on it, or nothing.** -/
theorem Step.view (hr : Routed s)
    (hh : ∀ a, (s.block a).Homed (cfg.mapAddressToDirectory a)) {l : Label C D A n cfg}
    (h : Step s l s') : Views s l.2 s' := by
  obtain ⟨mv, rep⟩ := l
  cases h.carried with
  | issue c r =>
      refine views_quiet ⟨hr.request, hr.queue, hr.response⟩ fun a => ?_
      exact congrArg (fun b : Block C D A n => { b with time := s.time + 1 })
        (System.block_setMandatory (s := s) (c := c) _ a)
  | replacement c victim v r a x hfull ha hx =>
      rw [System.l1Finish_mandatory x (popped x.mandatoryQueueIn)]
      refine views_l1 (v := v) (hr.setCache c _) ?_ ?_ fun a' _ => System.block_setMandatory _ a'
      · have hs := L1Cache.trigger_sends rfl rfl hx
        simpa [System.l1Env, System.entry, System.setCache] using hs
      · rw [System.block_setMandatory]
        refine BlockStep.replacement c r _ v x ?_ hx
        obtain ⟨b, e, hb, he, -⟩ := (s.l1 c).cacheMemory.cacheProbe_spec victim hfull
        obtain rfl := Option.some.inj (ha.symm.trans hb)
        exact fun hn => Option.some_ne_none e (he.symm.trans hn)
  | mandatory c victim v r x hroom hx =>
      rw [System.l1Finish_mandatory x (popped x.mandatoryQueueIn)]
      refine views_l1 (v := v) (hr.setCache c _) ?_ ?_ fun a' _ => System.block_setMandatory _ a'
      · have hs := L1Cache.trigger_sends rfl rfl hx
        simpa [System.l1Env, System.entry, System.setCache] using hs
      · rw [System.block_setMandatory]
        refine BlockStep.mandatory c r _ v x (fun he => ?_) hx
        exact (Bool.eq_false_or_eq_true _).resolve_right fun hav => hroom ⟨he, hav⟩
  | forward c m q x hq hx =>
      rw [System.l1Finish_forward x (popped x.forwardRequestNetworkIn), hq]
      obtain ⟨l, hl, hb⟩ := System.block_popForward_self (h := x.forwardRequestNetworkIn) hq rfl
      refine views_l1 (v := default) (hr.setCache c _) ?_ ?_ fun a' ha' =>
        System.block_popForward_of_ne hq ha'
      · have hs := L1Cache.trigger_sends rfl rfl hx
        simpa [System.l1Env, System.entry, System.setCache] using hs
      · rw [hb]
        exact BlockStep.forward c _ m l x hl hx
  | response c v m q x hq hx =>
      rw [System.l1Finish_response x (popped x.responseNetworkIn), hq]
      obtain ⟨l, hl, hb⟩ := System.block_popResponse_self (h := x.responseNetworkIn) hq rfl
      refine views_l1 (v := v) (hr.setCache c _) ?_ ?_ fun a' ha' =>
        System.block_popResponse_of_ne hq ha'
      · have hs := L1Cache.trigger_sends rfl rfl hx
        simpa [System.l1Env, System.entry, System.setCache] using hs
      · rw [hb]
        exact BlockStep.response c _ v m.sender m l x rfl hl hx
  | request d m q x hq hx =>
      obtain ⟨c, hc⟩ := hr.queue d m (by simp [hq])
      obtain ⟨l, hl, hb⟩ := System.block_popRequest_self (h := x.requestQueueIn) hq rfl hc
      obtain rfl := home_of_request hr hh hq
      rw [System.dirFinish_request x (popped x.requestQueueIn), hq]
      refine views_dir (hr.setDir ?_) (Directory.trigger_sends rfl rfl rfl hx) rfl ?_
        fun a' ha' => System.block_popRequest_of_ne hq ha'
      · intro m' hm'
        refine hr.queue (cfg.mapAddressToDirectory m.address) m' ?_
        rw [hq]
        unfold popped at hm'
        split at hm'
        · exact List.mem_cons_of_mem m hm'
        · exact hm'
      · rw [hb]
        exact BlockStep.request c m l x hc hl hx
  | dirResponse d m q x hq hx =>
      obtain ⟨l, hl, hb⟩ := System.block_popDirResponse_self (h := x.responseQueueIn) hq rfl
      obtain rfl := home_of_response hh hq
      rw [System.dirFinish_response x (popped x.responseQueueIn), hq]
      refine views_dir (hr.setDir (hr.queue _)) (Directory.trigger_sends rfl rfl rfl hx) rfl ?_
        fun a' ha' => System.block_popDirResponse_of_ne hq ha'
      rw [hb]
      exact BlockStep.dirResponse m.sender m l x rfl hl hx
  | memory d m q x hq hx =>
      obtain ⟨l, hl, hb⟩ := System.block_popMemory_self (h := x.memQueueIn) hq rfl
      obtain rfl := home_of_memory hh hq
      rw [System.dirFinish_memory x (popped x.memQueueIn), hq]
      refine views_dir (hr.setDir (hr.queue _)) (Directory.trigger_sends rfl rfl rfl hx) rfl ?_
        fun a' ha' => System.block_popMemory_of_ne hq ha'
      rw [hb]
      exact BlockStep.memory m l x hl hx
  | memAnswer d i m hm =>
      refine views_quiet ⟨hr.request, ?_, hr.response⟩ fun a => System.block_memAnswer hm
      exact (hr.setDir (d := d) (k := { s.dir d with
        memInput := (s.dir d).memInput.eraseIdx i
        memResponse := (s.dir d).memResponse ++ [m] }) (hr.queue d)).queue
  | deliverRequest c d m q hq =>
      have hm : m.requestor = .L1Cache c := hr.request c d m (by simp [hq])
      refine views_quiet ⟨?_, ?_, hr.response⟩ fun a => System.block_deliverRequest hq hm
      · exact fun c' d' m' hm' => hr.request c' d' m' (mem_of_mem_deliver hq hm')
      · refine (hr.setDir (d := d) (k := { s.dir d with
          requestToDir := (s.dir d).requestToDir ++ [m] }) ?_).queue
        intro m' hm'
        rcases List.mem_append.1 hm' with hm' | hm'
        · exact hr.queue d m' hm'
        · rw [List.mem_singleton.1 hm']
          exact ⟨c, hm⟩
  | deliverForward d c m q hq =>
      exact views_quiet ⟨hr.request, hr.queue, hr.response⟩ fun a =>
        System.block_deliverForward hq (hh a)
  | deliverToCache src c m q hq =>
      have hm : m.sender = src := hr.response src (.L1Cache c) m (by simp [hq])
      refine views_quiet ⟨hr.request, hr.queue, ?_⟩ fun a => System.block_deliverToCache hq hm
      exact fun src' dst' m' hm' => hr.response src' dst' m' (mem_of_mem_deliver hq hm')
  | deliverToDir src d m q hq =>
      have hm : m.sender = src := hr.response src (.Directory d) m (by simp [hq])
      refine views_quiet ⟨hr.request, ?_, ?_⟩ fun a => System.block_deliverToDir hq hm
      · exact (hr.setDir (d := d) (k := { s.dir d with
          responseToDir := (s.dir d).responseToDir ++ [m] }) (hr.queue d)).queue
      · exact fun src' dst' m' hm' => hr.response src' dst' m' (mem_of_mem_deliver hq hm')

end View

end Msi
