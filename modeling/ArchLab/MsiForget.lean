/-
**Blocks that no cache holds.**

When the last sharer of a block gives it up, the directory should forget the block and go from `S`
to `I`.  A `PUTS` is classified for that: `PUTS_Last` leads to `I`.  A `PUTM` is not: if its sender
is no longer the owner, it is `PUTM_NotOwner`, and the directory removes the sender from the sharers
and stays in `S`, whether or not there are others.  A former owner is a sharer if a `GETS` was
forwarded to it while its `PUTM` was on its way; it is the last one once the reader has gone.

This module proves that this is the only way: as long as no directory processes the `PUTM` of an
only sharer, a directory in `S`, or on the way to it, has a sharer.

Main definitions:

* `Msi.Directory.State.sharing` — `S`, and the states that lead to it;
* `Msi.System.LastLeaves` — a directory is about to process the `PUTM` of an only sharer;
* `Msi.KeptReachable` — the states of the runs in which that does not happen.

Main results:

* `Msi.Directory.doTransition_sharers` — what a transition does to the sharers;
* `Msi.System.Shared.step` — a step keeps the sharers, unless it is the `PUTM` of an only sharer;
* `Msi.sharers_nonempty_iff` — **the directory forgets blocks that no cache holds** in these runs,
  and no longer does when they are left in `S`;
* `Msi.sharers_empty` — a run that leads to `S` without sharers.
-/

import ArchLab.MsiSafety

set_option relaxedAutoImplicit false
set_option autoImplicit false

namespace Msi

namespace Directory

/-! ### The sharers in a transition -/

/-- `S`, and the states in which the directory is on the way to it. -/
def State.sharing : State → Bool
  | .S | .IS_MD | .MS_OD | .MS_MA => true
  | .I | .M | .IM_MD | .MI_MA => false

/-- The transitions into these states: they start from one of them or add a sharer, and only
writebacks remove one. -/
theorem sharing_of_transition {st next : State} {ev : Event} {actions : List Action}
    (h : transition st ev = some (actions, next)) (hn : next.sharing = true) :
    (st.sharing = true ∨ .ars2AddRequestorToSharers ∈ actions) ∧
        .kkRemoveRequestSharer ∉ actions ∧ .csClearSharers ∉ actions ∨
      st.sharing = true ∧ (ev = .PUTS_NotLast ∨ ev = .PUTM_NotOwner ∨ ev = .PUTM_Owner) ∧
        actions = [.kkRemoveRequestSharer, .aSendWriteBackAck, .iPopIncomingRequestQueue] := by
  cases st <;> cases ev <;> cases h <;> revert hn <;> decide

section Transitions

variable {C D A : Type} [DecidableEq C] [DecidableEq D] {n : ℕ} {env : Env D A}
  {x x' : Ctx C D A n}

open L1Cache (need need_bind_eq_ok)

/-- All other actions keep the sharers. -/
theorem Action.sharers_subset {act : Action} (hx : act.exec env x = .ok x')
    (hkk : act ≠ .kkRemoveRequestSharer) (hcs : act ≠ .csClearSharers) :
    x.entry.sharers ⊆ x'.entry.sharers := by
  cases act with
  | kkRemoveRequestSharer => exact absurd rfl hkk
  | csClearSharers => exact absurd rfl hcs
  | ars1AddRequestorToSharers | ars2AddRequestorToSharers =>
      obtain ⟨_, -, hx⟩ := need_bind_eq_ok.1 hx
      cases hx
      exact Finset.subset_insert _ _
  | aosAddOwnertoSharers =>
      obtain ⟨_, -, hx⟩ := need_bind_eq_ok.1 hx
      cases hx
      exact Finset.subset_union_left
  | cClearOwner | zStall =>
      cases hx
      exact Finset.Subset.refl _
  | vvAllocateTBEFromRequestNet =>
      obtain ⟨_, -, hx⟩ := need_bind_eq_ok.1 hx
      split at hx <;> cases hx
      exact Finset.Subset.refl _
  | qwtQueueMemoryWBRequestPartialTBE =>
      obtain ⟨_, -, hx⟩ := need_bind_eq_ok.1 hx
      obtain ⟨_, -, hx⟩ := need_bind_eq_ok.1 hx
      cases hx
      exact Finset.Subset.refl _
  | aSendWriteBackAck | laSendWriteBackAck | dSendData | dsSendSharedData | ds2SendSharedData
  | eOwnerIsRequestor | fForwardRequest | iPopIncomingRequestQueue | prPopIncomingResponseQueue
  | plWriteDataToDirectory | pl2WriteDataToDirectory | wDeallocateTBE | qfQueueMemoryFetchRequest
  | lqQueueMemoryWBRequest | lq2QueueMemoryWBRequest | qmPopMemQueue
  | wWriteDataToDirectoryFromTBE | fwmSendFwdInvToSharersMinusRequestor =>
      obtain ⟨_, -, hx⟩ := need_bind_eq_ok.1 hx
      cases hx
      exact Finset.Subset.refl _

/-- The sharers after some actions that remove none. -/
theorem foldlM_sharers_subset {actions : List Action}
    (hx : actions.foldlM (Action.exec env) x = .ok x') (hkk : .kkRemoveRequestSharer ∉ actions)
    (hcs : .csClearSharers ∉ actions) : x.entry.sharers ⊆ x'.entry.sharers := by
  refine Refine.foldlM_ok (P := fun y : Ctx C D A n => x.entry.sharers ⊆ y.entry.sharers) ?_
    (Finset.Subset.refl _) hx
  intro act hact y y' hy hexec
  refine hy.trans (Action.sharers_subset hexec ?_ ?_)
  · rintro rfl
    exact hkk hact
  · rintro rfl
    exact hcs hact

/-- There is a sharer after some actions that add one and remove none. -/
theorem foldlM_sharers_nonempty {actions : List Action}
    (hx : actions.foldlM (Action.exec env) x = .ok x') (hkk : .kkRemoveRequestSharer ∉ actions)
    (hcs : .csClearSharers ∉ actions) (hars : .ars2AddRequestorToSharers ∈ actions) :
    x'.entry.sharers.Nonempty := by
  obtain ⟨before, rest, rfl⟩ := List.append_of_mem hars
  rw [List.foldlM_append] at hx
  obtain ⟨y, -, hx⟩ := Refine.bind_ok.1 hx
  rw [List.foldlM_cons] at hx
  obtain ⟨z, hz, hx⟩ := Refine.bind_ok.1 hx
  obtain ⟨m, -, hz⟩ := need_bind_eq_ok.1 hz
  cases hz
  have hsub := foldlM_sharers_subset hx (fun h => hkk (by simp [h])) (fun h => hcs (by simp [h]))
  exact ⟨m.requestor, hsub (Finset.mem_insert_self _ _)⟩

/-- The actions of a writeback by a sharer. -/
theorem foldlM_remove_sharer (hx : [Action.kkRemoveRequestSharer, .aSendWriteBackAck,
    .iPopIncomingRequestQueue].foldlM (Action.exec env) x = .ok x') :
    ∃ m, x.requestQueueIn = some m ∧ x'.entry.sharers = x.entry.sharers.erase m.requestor := by
  rw [List.foldlM_cons] at hx
  obtain ⟨y, hy, hx⟩ := Refine.bind_ok.1 hx
  obtain ⟨m, hm, hy⟩ := need_bind_eq_ok.1 hy
  cases hy
  rw [List.foldlM_cons] at hx
  obtain ⟨z, hz, hx⟩ := Refine.bind_ok.1 hx
  obtain ⟨_, -, hz⟩ := need_bind_eq_ok.1 hz
  cases hz
  rw [List.foldlM_cons] at hx
  obtain ⟨w, hw, hx⟩ := Refine.bind_ok.1 hx
  obtain ⟨_, -, hw⟩ := need_bind_eq_ok.1 hw
  cases hw
  cases hx
  exact ⟨m, hm, rfl⟩

/-- The parts of a transition that is carried out. -/
theorem doTransition_eq_valid {ev : Event} (hx : doTransition env ev x = .valid x') :
    ∃ actions next y, transition (getState x.tbe x.entry) ev = some (actions, next) ∧
      .zStall ∉ actions ∧ actions.foldlM (Action.exec env) x = .ok y ∧
      x'.entry.sharers = y.entry.sharers ∧ getState x'.tbe x'.entry = next := by
  unfold doTransition at hx
  split at hx
  · cases hx
  · next actions next htr =>
      split at hx
      · cases hx
      · next hz =>
          split at hx
          · cases hx
          · next z hb =>
              cases hx
              obtain ⟨y, hy, hset⟩ := Refine.bind_ok.1 hb
              unfold setState at hset
              split at hset
              · cases hset
              · cases hset
                refine ⟨actions, next, y, htr, hz, hy, rfl, ?_⟩
                unfold getState
                cases y.tbe <;> rfl

/-- **The sharers in a transition** to `S` or on the way to it: they were there before, or there is
one now, or a writeback has removed one. -/
theorem doTransition_sharers {ev : Event} (hx : doTransition env ev x = .valid x')
    (hs : (getState x'.tbe x'.entry).sharing = true) :
    (getState x.tbe x.entry).sharing = true ∧ x.entry.sharers ⊆ x'.entry.sharers ∨
      x'.entry.sharers.Nonempty ∨
      (getState x.tbe x.entry).sharing = true ∧
        (ev = .PUTS_NotLast ∨ ev = .PUTM_NotOwner ∨ ev = .PUTM_Owner) ∧
        ∃ m, x.requestQueueIn = some m ∧ x'.entry.sharers = x.entry.sharers.erase m.requestor := by
  obtain ⟨actions, next, y, htr, -, hy, hsh, rfl⟩ := doTransition_eq_valid hx
  rw [hsh]
  rcases sharing_of_transition htr hs with ⟨hst | hars, hkk, hcs⟩ | ⟨hst, hev, rfl⟩
  · exact .inl ⟨hst, foldlM_sharers_subset hy hkk hcs⟩
  · exact .inr (.inl (foldlM_sharers_nonempty hy hkk hcs hars))
  · exact .inr (.inr ⟨hst, hev, foldlM_remove_sharer hy⟩)

variable {entry : Entry C D n} {tbe : Option (TBE n)}

/-- An entry in `S`, or on the way to it, has a sharer. -/
def Entry.Shared (entry : Entry C D n) (tbe : Option (TBE n)) : Prop :=
  (getState tbe entry).sharing = true → entry.sharers.Nonempty

omit [DecidableEq C] [DecidableEq D] in
theorem Entry.Shared.mono {sharers : NetDest C D} (h : entry.Shared tbe)
    (hst : (getState tbe entry).sharing = true) (hsub : entry.sharers ⊆ sharers) :
    sharers.Nonempty := (h hst).mono hsub

/-- The event of a `PUTS` whose sender is not the last sharer. -/
theorem requestEvent_eq_notLast {m : RequestMsg C D A n}
    (h : requestEvent entry m = .ok .PUTS_NotLast) :
    ¬ (entry.sharers.card < 2 ∧ m.requestor ∈ entry.sharers) := by
  unfold requestEvent at h
  split at h
  · cases h
  · cases h
  · split at h <;> cases h
  · split at h
    · cases h
    · next hc => exact hc
  · cases h

/-- The event of a `PUTM`. -/
theorem requestEvent_eq_putm {m : RequestMsg C D A n} {ev : Event}
    (h : requestEvent entry m = .ok ev) (hev : ev = .PUTM_NotOwner ∨ ev = .PUTM_Owner) :
    m.type = .PUTM := by
  unfold requestEvent at h
  split at h
  · rcases hev with rfl | rfl <;> cases h
  · rcases hev with rfl | rfl <;> cases h
  · assumption
  · split at h <;> rcases hev with rfl | rfl <;> cases h
  · cases h

/-- **A request** that is not the `PUTM` of an only sharer. -/
theorem requestQueueIn_shared {m : RequestMsg C D A n} (h : entry.Shared tbe)
    (hx : requestQueueIn env entry tbe m = .valid x)
    (hm : ¬ (m.type = .PUTM ∧ entry.sharers = {m.requestor})) : x.entry.Shared x.tbe := by
  intro hs
  unfold requestQueueIn trigger at hx
  split at hx
  · cases hx
  · next ev hev =>
      rcases doTransition_sharers hx hs with ⟨hst, hsub⟩ | hne | ⟨hst, hput, m', hm', hsh⟩
      · exact h.mono hst hsub
      · exact hne
      · cases hm'
        have hne := (h hst).ne_empty
        rw [hsh, Finset.nonempty_iff_ne_empty, Ne, Finset.erase_eq_empty_iff, not_or]
        refine ⟨hne, ?_⟩
        intro hone
        rcases hput with rfl | hput
        · refine requestEvent_eq_notLast hev ?_
          rw [hone]
          exact ⟨by simp, Finset.mem_singleton_self _⟩
        · exact hm ⟨requestEvent_eq_putm hev hput, hone⟩

/-- A response or an answer of the memory controller removes no sharer. -/
theorem trigger_shared {ev : Except Fault Event} (h : x.entry.Shared x.tbe)
    (hq : x.requestQueueIn = none) (hx : trigger env x ev = .valid x') :
    x'.entry.Shared x'.tbe := by
  intro hs
  unfold trigger at hx
  split at hx
  · cases hx
  · rcases doTransition_sharers hx hs with ⟨hst, hsub⟩ | hne | ⟨-, -, m, hm, -⟩
    · exact h.mono hst hsub
    · exact hne
    · rw [hq] at hm
      cases hm

/-- **The `PUTM` of an only sharer** leaves the directory where it is, without sharers. -/
theorem requestQueueIn_last {m : RequestMsg C D A n} (hst : getState tbe entry = .S)
    (hx : requestQueueIn env entry tbe m = .valid x) (ht : m.type = .PUTM)
    (hone : entry.sharers = {m.requestor}) :
    getState x.tbe x.entry = .S ∧ x.entry.sharers = ∅ := by
  have hev : requestEvent entry m =
      .ok (if m.requestor ∈ entry.owner then .PUTM_Owner else .PUTM_NotOwner) := by
    unfold requestEvent
    rw [ht]
  unfold requestQueueIn at hx
  rw [hev] at hx
  obtain ⟨actions, next, y, htr, -, hy, hsh, hnext⟩ := doTransition_eq_valid hx
  change transition (getState tbe entry) _ = _ at htr
  rw [hst] at htr
  -- in `S` there is no transition for the `PUTM` of an owner
  split at htr
  · cases htr
  cases htr
  obtain ⟨m', hm', herase⟩ := foldlM_remove_sharer hy
  cases hm'
  refine ⟨hnext, ?_⟩
  rw [hsh, herase]
  change entry.sharers.erase m.requestor = ∅
  rw [hone, Finset.erase_singleton]

end Transitions

end Directory

/-! ### The sharers along a run -/

section Runs

variable {C D A : Type} [DecidableEq C] [DecidableEq D] [DecidableEq A] {n : ℕ} {cfg : Config D A}
  {s s' : System C D A n cfg} {mem : A → DataBlock n}

/-- The move is the processing of the `PUTM` of a block's only sharer. -/
def System.LastLeaves (s : System C D A n cfg) : Move C D A n cfg → Prop
  | .request d => ∃ m q, (s.dir d).requestToDir = m :: q ∧ m.type = .PUTM ∧
      ((s.dir d).directory m.address).sharers = {m.requestor}
  | _ => False

/-- All entries of all directories have sharers, if they are in `S` or on the way to it. -/
def System.Shared (s : System C D A n cfg) : Prop :=
  ∀ d a, ((s.dir d).directory a).Shared ((s.dir d).tbes a)

omit [DecidableEq C] [DecidableEq D] [DecidableEq A] in
theorem System.Shared.init (mem : A → DataBlock n) :
    (System.init cfg mem : System C D A n cfg).Shared := by
  intro d a hs
  cases hs

/-- A transition of a directory keeps this if it does so for its block. -/
theorem System.Shared.dirFinish (h : s.Shared) {d : D} {a : A} {x : Directory.Ctx C D A n}
    (hx : x.entry.Shared x.tbe) {f : Dir C D A n → Dir C D A n}
    (hf : ∀ k, (f k).directory = k.directory ∧ (f k).tbes = k.tbes) :
    (s.dirFinish d a x f).Shared := by
  intro e b
  change ((Function.update s.dir d _ e).directory b).Shared ((Function.update s.dir d _ e).tbes b)
  by_cases he : e = d
  · subst he
    rw [Function.update_self, (hf _).1, (hf _).2]
    by_cases hb : b = a
    · subst hb
      simp only [Function.update_self]
      exact hx
    · simp only [Function.update_of_ne hb]
      exact h e b
  · rw [Function.update_of_ne he]
    exact h e b

omit [DecidableEq C] [DecidableEq A] in
/-- A directory whose queues alone are changed. -/
theorem System.Shared.update (h : s.Shared) {d : D} {k : Dir C D A n}
    (hdir : k.directory = (s.dir d).directory) (htbes : k.tbes = (s.dir d).tbes) (e : D) (a : A) :
    ((Function.update s.dir d k e).directory a).Shared ((Function.update s.dir d k e).tbes a) := by
  by_cases he : e = d
  · subst he
    rw [Function.update_self, hdir, htbes]
    exact h e a
  · rw [Function.update_of_ne he]
    exact h e a

/-- **A step keeps the sharers**, unless it is the `PUTM` of an only sharer. -/
theorem System.Shared.step (h : s.Shared) {l : Label C D A n cfg} (hs : Step s l s')
    (hl : ¬ s.LastLeaves l.1) : s'.Shared := by
  obtain ⟨mv, rep⟩ := l
  cases hs.carried with
  | issue | replacement | mandatory | forward | response | deliverForward | deliverToCache =>
      exact h
  | request d m q x hq hx =>
      refine h.dirFinish ?_ fun k => ⟨rfl, rfl⟩
      refine Directory.requestQueueIn_shared (h d m.address) hx ?_
      rintro ⟨ht, hone⟩
      exact hl ⟨m, q, hq, ht, hone⟩
  | dirResponse d m q x hq hx | memory d m q x hq hx =>
      refine h.dirFinish ?_ fun k => ⟨rfl, rfl⟩
      exact Directory.trigger_shared (h d m.address) rfl hx
  | memAnswer | deliverRequest | deliverToDir => exact h.update rfl rfl

/-- The states of the runs in which no directory processes the `PUTM` of an only sharer. -/
def KeptReachable (mem : A → DataBlock n) : System C D A n cfg → Prop :=
  Lts.Reachable (· = System.init cfg mem) fun s l s' => Step s l s' ∧ ¬ s.LastLeaves l.1

theorem KeptReachable.reachable (h : KeptReachable mem s) : Reachable mem s := by
  obtain ⟨ls, hr⟩ := h
  exact ⟨ls, hr.mono fun _ _ _ hs => hs.1⟩

/-- Moves other than the processing of a request continue a run in which no only sharer leaves. -/
theorem KeptReachable.play (h : KeptReachable mem s) {ms : List (Move C D A n cfg)}
    (hms : ∀ d, .request d ∉ ms) {ls : List (Label C D A n cfg)}
    (hp : s.play ms = some (ls, s')) : KeptReachable mem s' := by
  induction ms generalizing s ls with
  | nil =>
      cases hp
      exact h
  | cons mv ms ih =>
      unfold System.play at hp
      split at hp
      · next s₁ rep he =>
          obtain ⟨p, hp', e⟩ := Option.map_eq_some_iff.1 hp
          cases e
          obtain ⟨ls, hr⟩ := h
          refine ih ⟨_, hr.snoc (l := (mv, rep)) ⟨he, ?_⟩⟩ ?_ hp'
          · cases mv with
            | request d => exact absurd List.mem_cons_self (hms d)
            | _ => exact id
          · exact fun d hd => hms d (List.mem_cons_of_mem mv hd)
      · cases hp

/-- A request of another type is processed. -/
theorem KeptReachable.request (h : KeptReachable mem s) {d : D} {rep : Option (Report C D A n)}
    (hx : s.exec (.request d) = .valid (s', rep))
    (ht : ∀ m ∈ (s.dir d).requestToDir, m.type ≠ .PUTM) : KeptReachable mem s' := by
  obtain ⟨ls, hr⟩ := h
  have hstep : Step s (.request d, rep) s' := hx
  refine ⟨_, hr.snoc ⟨hstep, ?_⟩⟩
  rintro ⟨m, q, hq, hm, -⟩
  exact ht m (by simp [hq]) hm

theorem KeptReachable.shared (h : KeptReachable mem s) : s.Shared := by
  refine Lts.Reachable.invariant ?_ ?_ h
  · rintro s rfl
    exact System.Shared.init mem
  · intro s l s' _ ih hs
    exact ih.step hs.1 hs.2

/-- The entry of a block after a transition of its home directory. -/
theorem System.dirEntry_dirFinish (s : System C D A n cfg) (a : A) (x : Directory.Ctx C D A n)
    (f : Dir C D A n → Dir C D A n)
    (hf : ∀ k, (f k).directory = k.directory ∧ (f k).tbes = k.tbes) :
    (s.dirFinish (cfg.mapAddressToDirectory a) a x f).dirEntry a = x.entry ∧
      (s.dirFinish (cfg.mapAddressToDirectory a) a x f).dirTbe a = x.tbe := by
  unfold System.dirEntry System.dirTbe System.dirFinish
  simp only [Function.update_self, (hf _).1, (hf _).2, and_self]

/-- **The `PUTM` of an only sharer**: the directory stays in `S`, without sharers. -/
theorem Step.last_leaves (h : Reachable mem s) {d : D} {rep : Option (Report C D A n)}
    (hs : Step s (.request d, rep) s') {m : RequestMsg C D A n} {q : List (RequestMsg C D A n)}
    (hq : (s.dir d).requestToDir = m :: q) (hst : s.dirState m.address = .S)
    (ht : m.type = .PUTM) (hone : (s.dirEntry m.address).sharers = {m.requestor}) :
    s'.dirState m.address = .S ∧ (s'.dirEntry m.address).sharers = ∅ := by
  obtain ⟨value, hcoh⟩ := Reachable.coherent h
  obtain rfl := home_of_request hcoh.routed hcoh.homed hq
  simp only [Step, System.exec, hq] at hs
  obtain ⟨x, hx, e⟩ := Outcome.map_eq_valid.1 hs
  cases e
  obtain ⟨hentry, htbe⟩ := s.dirEntry_dirFinish m.address x (fun k =>
    { k with requestToDir := System.popped x.requestQueueIn k.requestToDir }) fun k => ⟨rfl, rfl⟩
  unfold System.dirState
  rw [hentry, htbe]
  exact Directory.requestQueueIn_last hst hx ht hone

omit [DecidableEq C] [DecidableEq D] [DecidableEq A] in
theorem System.Shared.nonempty (h : s.Shared) {a : A} (hst : s.dirState a = .S) :
    (s.dirEntry a).sharers.Nonempty := by
  refine h _ a ?_
  change (s.dirState a).sharing = true
  rw [hst]
  rfl

/-- **The directory forgets blocks that no cache holds**, in every run in which no directory
processes the `PUTM` of an only sharer: it is never in `S` without a sharer.  A request that is
processed next, in `S`, leaves it so exactly if it is not such a `PUTM`. -/
theorem sharers_nonempty_iff (h : KeptReachable mem s) :
    (∀ a, s.dirState a = .S → (s.dirEntry a).sharers.Nonempty) ∧
    ∀ d rep s' m q, Step s (.request d, rep) s' → (s.dir d).requestToDir = m :: q →
      s.dirState m.address = .S →
      ((s'.dirState m.address = .S → (s'.dirEntry m.address).sharers.Nonempty) ↔
        ¬ (m.type = .PUTM ∧ (s.dirEntry m.address).sharers = {m.requestor})) := by
  refine ⟨fun a => h.shared.nonempty, ?_⟩
  intro d rep s' m q hs hq hst
  constructor
  · rintro hne ⟨ht, hone⟩
    obtain ⟨hst', hempty⟩ := hs.last_leaves h.reachable hq hst ht hone
    exact (hne hst').ne_empty hempty
  · intro hm hst'
    refine (h.shared.step hs ?_).nonempty hst'
    rintro ⟨m', q', hq', ht, hone⟩
    cases hq.symm.trans hq'
    obtain ⟨value, hcoh⟩ := Reachable.coherent h.reachable
    obtain rfl := home_of_request hcoh.routed hcoh.homed hq
    exact hm ⟨ht, hone⟩

end Runs

/-! ### A sharer that is the last one -/

/-- One directory, and caches with one line. -/
def oneLine : Config Unit (Fin 2) where
  mapAddressToDirectory _ := ()
  addressToCacheSet _ := 0
  assoc := 1

/-- A cache looks at a request for a block: it asks for it, or makes room. -/
def want (c : Fin 4) (a : Fin 2) (type : RubyRequestType) :
    List (Move (Fin 4) Unit (Fin 2) 1 oneLine) :=
  [.issue c ⟨a, type⟩, .mandatory c (0 : Fin 1) default]

/-- The memory controller answers, and a response of a machine reaches a cache. -/
def answer (src : MachineID (Fin 4) Unit) (c : Fin 4) :
    List (Move (Fin 4) Unit (Fin 2) 1 oneLine) :=
  [.memAnswer () 0, .memory (), .deliverResponse src (.L1Cache c), .response c default]

/-- A cache loads a block from memory. -/
theorem sharers_nonempty_load : ∃ s : System (Fin 4) Unit (Fin 2) 1 oneLine,
    KeptReachable (fun _ => default) s ∧ s.dirState 0 = .S ∧ (s.dirEntry 0).sharers.Nonempty := by
  obtain ⟨⟨ls₁, s₁⟩, hp₁, hr₁⟩ : ∃ p, (System.init oneLine fun _ => default).play
      (want 0 0 .LD ++ [.deliverRequest 0 ()]) = some p ∧
        (∀ m ∈ (p.2.dir ()).requestToDir, m.type ≠ .PUTM) ∧
          (p.2.exec (.request ())).holds (fun out =>
            (out.1.play (answer (.Directory ()) 0)).any fun r =>
              decide (r.2.dirState 0 = .S)) = true :=
    ⟨_, rfl, by decide +kernel, by decide +kernel⟩
  obtain ⟨⟨s₂, rep⟩, hx₂, hr₂⟩ := Outcome.holds_iff.1 hr₁.2
  obtain ⟨⟨ls₃, s₃⟩, hp₃, hr₃⟩ := (Option.any_eq_true _ _).1 hr₂
  have h₀ : KeptReachable (fun _ => default)
      (System.init oneLine fun _ => default : System (Fin 4) Unit (Fin 2) 1 oneLine) :=
    ⟨[], .start rfl⟩
  have h₁ : KeptReachable (fun _ => default) s₁ := h₀.play (by simp [want]) hp₁
  have h₃ : KeptReachable (fun _ => default) s₃ :=
    (h₁.request hx₂ hr₁.1).play (by simp [answer]) hp₃
  have hst : s₃.dirState 0 = .S := of_decide_eq_true hr₃
  exact ⟨s₃, h₃, hst, (sharers_nonempty_iff h₃).1 0 hst⟩

/-- Cache 0 stores to a block and has to make room for another one.  Before its `PUTM` reaches the
directory, cache 1 loads the block from it, and makes room for another one as well. -/
def bothLeave : List (Move (Fin 4) Unit (Fin 2) 1 oneLine) :=
  want 0 0 .ST ++ [.deliverRequest 0 (), .request ()] ++ answer (.Directory ()) 0 ++ want 0 1 .LD ++
    want 1 0 .LD ++ [.deliverRequest 1 (), .request (), .deliverForward () 0, .forward 0,
      .deliverResponse (.L1Cache 0) (.Directory ()), .dirResponse ()] ++ answer (.L1Cache 0) 1 ++
    want 1 1 .LD ++ [.deliverRequest 1 (), .request (), .deliverRequest 0 (), .request ()]

/-- **No sharer, and still in `S`.** -/
theorem sharers_empty : Reachable (fun _ => default) (after bothLeave).2 ∧
    (after bothLeave).2.dirState 0 = .S ∧ ((after bothLeave).2.dirEntry 0).sharers = ∅ :=
  ⟨⟨_, run_after (by decide +kernel)⟩, by decide +kernel, by decide +kernel⟩

end Msi
