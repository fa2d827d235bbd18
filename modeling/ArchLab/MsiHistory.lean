/-
**What the processors see: an atomic memory.**

The processors hand packets to the sequencers and get them back when they have been served.  This
module shows that the packets that come back, taken in the order in which they come back, are a run
of a memory that serves one packet at a time.  So each packet takes effect at one moment between its
request and its answer, and all processors agree on the order of these moments.

A load, a fetch or a load-linked returns the bytes that are in memory, and a store writes its bytes
there.  Two kinds of packets are not served as they should be.  A store-conditional writes whether
or not it succeeds: `hitCallback` is told about the success, and uses it for a line of a trace only.
A swap, which is a read and a write, is served as a load, and writes nothing.  Without such packets
the memory is what the processors expect.

Packets of one processor for one block are answered in the order in which they were accepted, since
the sequencer refuses a packet while another one for the same block is outstanding.  If a sequencer
admits one outstanding request only, all packets of a processor are answered in order, and the
memory is sequentially consistent.

Main definitions:

* `Msi.Packet.command` — what a packet asks for;
* `Msi.Done.Applies` — how a packet that comes back has been served, as a step of a memory;
* `Msi.Done.Serves` — how it should be served;
* `Msi.dones`, `Msi.accepted` — the packets that come back, and those that were accepted;
* `Msi.Done.Answers` — the packet that comes back is the answer to the one that was accepted.

Main results:

* `Msi.Coherent.line_of_store`, `Msi.Coherent.lineOfResponse` — a store finds the current value of
  its block;
* `Msi.Ruby.Sound.applies` — a step is a step of the memory, or none;
* `Msi.dones_atomic` — **the packets that come back are a run of an atomic memory**;
* `Msi.dones_sequential` — **with one outstanding request it is sequentially consistent**.
-/

import ArchLab.MsiOutstanding

set_option relaxedAutoImplicit false
set_option autoImplicit false

namespace Msi

open L1Cache

/-! ### An atomic memory -/

namespace DataBlock

variable {n : ℕ}

@[simp] theorem length_getData (blk : DataBlock n) (offset len : ℕ) (h : offset + len ≤ n) :
    (blk.getData offset len h).length = len := List.length_ofFn

theorem getData_congr (blk : DataBlock n) (offset : ℕ) {len len' : ℕ} (h : offset + len ≤ n)
    (h' : offset + len' ≤ n) (e : len = len') :
    blk.getData offset len h = blk.getData offset len' h' := by
  subst e
  rfl

end DataBlock

/-- What a packet asks for. -/
inductive Command where
  | load | store | swap | loadLinked | storeConditional | flush
  deriving DecidableEq

def Packet.command {A : Type} {n : ℕ} (pkt : Packet A n) : Command :=
  if pkt.isLLSC then
    if pkt.isWrite then .storeConditional else .loadLinked
  else if pkt.isRead then
    if pkt.isWrite then .swap else .load
  else if pkt.isWrite then .store
  else .flush

section Memory

variable {C A : Type} {n : ℕ}

/-- The packet has the bytes that the memory holds. -/
def Done.Returns (m : A → DataBlock n) (d : Done C A n) : Prop :=
  d.pkt.data = (m d.address).getData d.pkt.offset d.pkt.data.length d.pkt.fits

/-- The memory after the bytes of the packet have been written. -/
def Done.written [DecidableEq A] (m : A → DataBlock n) (d : Done C A n) : A → DataBlock n :=
  Function.update m d.address ((m d.address).setData d.pkt.data d.pkt.offset)

/-- How a packet that comes back has been served, as a step of a memory of blocks. -/
inductive Done.Applies [DecidableEq A] (m : A → DataBlock n) (d : Done C A n) :
    (A → DataBlock n) → Prop
  | load (hk : d.pkt.command = .load ∨ d.pkt.command = .loadLinked) (hd : d.Returns m) :
      Applies m d m
  | store (hk : d.pkt.command = .store) : Applies m d (d.written m)
  | conditional (hk : d.pkt.command = .storeConditional) (hs : d.success = true) :
      Applies m d (d.written m)
  /-- A store-conditional that has failed writes nevertheless. -/
  | failed (hk : d.pkt.command = .storeConditional) (hs : d.success = false) :
      Applies m d (d.written m)
  /-- A swap is served as a load. -/
  | swap (hk : d.pkt.command = .swap) (hd : d.Returns m) : Applies m d m

/-- How packets other than swaps should be served. -/
inductive Done.Serves [DecidableEq A] (m : A → DataBlock n) (d : Done C A n) :
    (A → DataBlock n) → Prop
  | load (hk : d.pkt.command = .load ∨ d.pkt.command = .loadLinked) (hd : d.Returns m) :
      Serves m d m
  | store (hk : d.pkt.command = .store) : Serves m d (d.written m)
  | conditional (hk : d.pkt.command = .storeConditional) (hs : d.success = true) :
      Serves m d (d.written m)
  | failed (hk : d.pkt.command = .storeConditional) (hs : d.success = false) : Serves m d m

/-- The packet is a swap, or a store-conditional that has failed. -/
def Done.Deviates (d : Done C A n) : Prop :=
  d.pkt.command = .swap ∨ (d.pkt.command = .storeConditional ∧ d.success = false)

instance (d : Done C A n) : Decidable d.Deviates := inferInstanceAs (Decidable (_ ∨ _))

/-- Other packets are served as they should be. -/
theorem Done.Applies.serves [DecidableEq A] {m m' : A → DataBlock n} {d : Done C A n}
    (h : d.Applies m m') (hd : ¬d.Deviates) : d.Serves m m' := by
  cases h with
  | load hk hr => exact .load hk hr
  | store hk => exact .store hk
  | conditional hk hs => exact .conditional hk hs
  | failed hk hs => exact absurd (.inr ⟨hk, hs⟩) hd
  | swap hk _ => exact absurd (.inl hk) hd

theorem applies_serves [DecidableEq A] {m m' : A → DataBlock n} {ds : List (Done C A n)}
    (h : Lts.Run (· = m) (fun m d => Done.Applies m d) ds m') (hd : ∀ d ∈ ds, ¬d.Deviates) :
    Lts.Run (· = m) (fun m d => Done.Serves m d) ds m' := by
  induction h with
  | start hm => exact .start hm
  | snoc _ hs ih =>
      refine (ih fun d hm => hd d (List.mem_append_left _ hm)).snoc (hs.serves (hd _ ?_))
      exact List.mem_append_right _ (List.mem_singleton_self _)

/-- The request type of a packet tells whether it is served as a load. -/
theorem Packet.command_of_requestTypes {pkt : Packet A n} {type secondary : RubyRequestType}
    (h : pkt.requestTypes = .ok (type, secondary)) (hf : type ≠ .FLUSH) :
    (type ∈ loadTypes ∧ (pkt.command = .load ∨ pkt.command = .loadLinked ∨ pkt.command = .swap)) ∨
      (type ∉ loadTypes ∧ (pkt.command = .store ∨ pkt.command = .storeConditional)) := by
  unfold Packet.requestTypes at h
  unfold Packet.command
  split_ifs at h ⊢ <;> cases h <;> simp_all [loadTypes]

end Memory

section History

variable {C D A : Type} [DecidableEq C] [DecidableEq D] [DecidableEq A] {n : ℕ} {cfg : Config D A}

/-- All packets that come back along a run, in their order. -/
def dones (ls : List (RubyLabel C D A n cfg)) : List (Done C A n) := ls.flatMap fun l => l.done

omit [DecidableEq C] in
/-- What the sequencer has done with a request is a step of the memory, if the data it was given is
the content of memory. -/
theorem Sequencer.Ok.hitCallback_applies {q : Sequencer A n} {time : ℕ} (hok : q.Ok time)
    {k : Access} {a : A} {r : SequencerRequest A n} (hr : (q.table k).lookup a = some r)
    {m : A → DataBlock n} {c : C} {d' : DataBlock n} {pkt : Packet A n} {success : Bool}
    (h : hitCallback r (m a) time = .ok (d', pkt)) :
    Done.Applies m ⟨c, a, r.type, pkt, success⟩ (Function.update m a d') := by
  obtain ⟨-, secondary, htypes⟩ := hok.record k a r hr
  have hflush : r.type ≠ .FLUSH := by
    have htype := hok.type k a r hr
    rintro e
    rw [e] at htype
    cases k <;> exact absurd htype (by decide)
  have hcases := Packet.command_of_requestTypes htypes hflush
  unfold hitCallback at h
  split at h
  · cases h
  split at h
  · next ht =>
      cases h
      rw [Function.update_eq_self]
      have hret : Done.Returns m (⟨c, a, r.type, { r.pkt with
          data := (m a).getData r.pkt.offset r.pkt.data.length r.pkt.fits
          fits := by simpa [DataBlock.getData] using r.pkt.fits }, success⟩ : Done C A n) :=
        DataBlock.getData_congr (m a) r.pkt.offset r.pkt.fits _ (by simp)
      rcases hcases with ⟨-, hk | hk | hk⟩ | ⟨hn, -⟩
      · exact .load (.inl hk) hret
      · exact .load (.inr hk) hret
      · exact .swap hk hret
      · exact absurd ht hn
  · next ht =>
      cases h
      rcases hcases with ⟨hl, -⟩ | ⟨-, hk | hk⟩
      · exact absurd hl ht
      · exact .store hk
      · cases success with
        | true => exact .conditional hk rfl
        | false => exact .failed hk rfl

/-! ### The data of a store -/

variable {w w' : Ruby C D A n cfg} {value : A → DataBlock n}

omit [DecidableEq C] [DecidableEq D] [DecidableEq A] in
/-- The line of a cell. -/
theorem Cell.entry_eq (x : Cell C (DataBlock n)) :
    x.entry = if x.ph.st = .I then none else some ⟨x.ph.st, x.data⟩ := by
  unfold Cell.entry
  cases x.ph.st <;> rfl

/-- A line that the phase of its block calls current holds the value of the block. -/
theorem Coherent.entry_of_copy {s : System C D A n cfg} (h : Coherent value s) {c : C} {a : A}
    (hst : s.state c a ∈ [.S, .M, .SM_AD, .IM_A, .SM_A]) :
    s.entry c a = some ⟨s.state c a, value a⟩ := by
  obtain ⟨t, hrel, hinv⟩ := h.block a
  have hstate : s.state c a = (t.ph c).st := hrel.state c
  have hcopy : (t.ph c).copy = true := by
    rw [hstate] at hst
    generalize t.ph c = p at hst ⊢
    cases p <;> first | rfl | simp at hst
  have hne : (t.ph c).st ≠ .I := by
    rw [← hstate]
    rintro e
    rw [e] at hst
    exact absurd hst (by decide)
  have he : s.entry c a = (t.cell c).entry := hrel.entry c
  rw [he, Cell.entry_eq, hstate, ← (hinv.cells c).copy hcopy]
  exact if_neg hne

theorem Coherent.line_of_copy (h : Coherent value w.sys) {c : C} {a : A}
    (hst : w.sys.state c a ∈ [.S, .M, .SM_AD, .IM_A, .SM_A]) : w.line c a = value a := by
  rw [Ruby.line, h.entry_of_copy hst]
  rfl

omit [DecidableEq A] in
/-- Data of the directory on its way to a cache is what the cache waits for. -/
theorem Abs.src_of_dir {V : Type} {t : Abs C V} {home : D} {src : MachineID C D} {c : C} {d : V}
    {j : ℕ} (h : Resp.dir d j ∈ t.resps home src (.L1Cache c)) :
    (t.ph c).src = some (.dir d j) := by
  cases src with
  | Directory e =>
      simp only [Abs.resps, Phase.fromDir] at h
      split at h
      · split at h
        · next hs =>
            cases List.mem_singleton.1 h
            exact hs
        · cases h
      · cases h
  | L1Cache b =>
      simp only [Abs.resps, Phase.fromOwner, List.mem_append] at h
      rcases h with h | h
      · split at h
        · split at h <;> simp at h
        · cases h
      · split at h <;> simp at h

omit [DecidableEq A] in
/-- So is data of a former owner. -/
theorem Abs.src_of_owner {V : Type} {t : Abs C V} {home : D} {src : MachineID C D} {c : C} {d : V}
    (h : Resp.owner d ∈ t.resps home src (.L1Cache c)) :
    ∃ o, (t.ph c).src = some (.owner o d) := by
  cases src with
  | Directory e =>
      simp only [Abs.resps, Phase.fromDir] at h
      split at h
      · split at h <;> simp at h
      · cases h
  | L1Cache b =>
      simp only [Abs.resps, Phase.fromOwner, List.mem_append] at h
      rcases h with h | h
      · split at h
        · next o d₀ hs =>
            split at h
            · cases List.mem_singleton.1 h
              exact ⟨o, hs⟩
            · cases h
        · cases h
      · split at h <;> simp at h

/-- Data on its way to a cache is the value of its block. -/
theorem Coherent.data_of_response (h : Coherent value w.sys) {c : C} {m : ResponseMsg C D A n}
    (hm : m ∈ (w.sys.l1 c).responseToCache)
    (ht : m.type = .DATA_FROM_DIR ∨ m.type = .DATA_FROM_OWNER) : m.dataBlk = value m.address := by
  obtain ⟨t, hrel, hinv⟩ := h.block m.address
  have hin : ∀ d, (t.ph c).incoming = some d → d = value m.address := (hinv.cells c).incoming
  have hsrc : ∀ d src, (t.ph c).src = some src → src.data? = some d → d = value m.address := by
    intro d src hs hd
    refine hin d ?_
    generalize t.ph c = p at hs ⊢
    cases p with
    | loadWait | storeWait | upgradeData =>
        cases hs
        exact hd
    | upgradeFwd =>
        cases hs
        cases hd
    | _ => cases hs
  obtain ⟨src, r, hr, hmatch⟩ := hrel.exists_resp (.inl hm) rfl
  cases r with
  | dir d j =>
      rw [hmatch.2.1]
      exact hsrc d _ (Abs.src_of_dir hr) rfl
  | owner d =>
      obtain ⟨o, ho⟩ := Abs.src_of_owner hr
      rw [hmatch.2]
      exact hsrc d _ ho rfl
  | ack | toDir =>
      rw [hmatch.1] at ht
      simp at ht

omit [DecidableEq C] [DecidableEq D] [DecidableEq A] in
/-- The responses that bring data. -/
theorem L1Cache.type_of_data {tbe : Option (TBE n)} {m : ResponseMsg C D A n} {ev : Event}
    (h : responseEvent tbe m = .ok ev)
    (hev : ev ∈ [.Data_from_Dir_No_Acks, .Data_from_Dir_Ack_Cnt_Last, .Data_from_Owner]) :
    m.type = .DATA_FROM_DIR ∨ m.type = .DATA_FROM_OWNER := by
  unfold responseEvent at h
  split at h
  · next ht => exact .inl ht
  · next ht => exact .inr ht
  · obtain ⟨t, -, h⟩ := need_bind_eq_ok.1 h
    cases h
    split at hev <;> simp at hev
  · cases h

/-- **A store that hits** finds the value of its block in the line. -/
theorem Coherent.line_of_store (h : Coherent value w.sys) {c : C} {victim : Fin cfg.assoc}
    {v : DataBlock n} {r : RubyRequest A} {rest : List (RubyRequest A)} {rep : Report C D A n}
    {s' : System C D A n cfg} (hq : (w.sys.l1 c).mandatoryQueue = r :: rest)
    (hs : Step w.sys (.mandatory c victim v, some rep) s')
    (hk : 0 < Access.store.answers rep.result.callbacks) :
    rep.cache = c ∧ rep.address = r.lineAddress ∧ w.line c r.lineAddress = value r.lineAddress := by
  obtain ⟨r', q, a, x, hq', hrep, -, hx⟩ := hs.mandatory_cases
  cases hrep
  cases hq.symm.trans hq'
  rcases hx with hx | ⟨rfl, hx⟩
  · -- a replacement is no store
    rcases doTransition_store hx hk with ⟨-, hev⟩ | hev | ⟨-, hev⟩
    · cases hev
    · simp at hev
    · cases hev
  · refine ⟨rfl, rfl, h.line_of_copy ?_⟩
    unfold mandatoryQueueIn at hx
    cases hev : mandatoryRequestTypeToEvent r.type with
    | error f =>
        rw [hev] at hx
        cases hx
    | ok ev =>
        rw [hev] at hx
        rcases doTransition_store hx hk with ⟨hst, -⟩ | hdata | ⟨-, hall⟩
        · have hst : w.sys.state c r.lineAddress = .M := hst
          rw [hst]
          decide
        · have := (requestType_work hev 0).1
          cases ev <;> first | exact absurd hdata (by decide) | cases this
        · subst hall
          have := (requestType_work hev 0).1
          cases this

/-- **A store that ends a miss** finds the value of its block in the line, once the data that comes
with the response is there. -/
theorem Coherent.lineOfResponse (h : Coherent value w.sys) {c : C} {v : DataBlock n}
    {m : ResponseMsg C D A n} {rest : List (ResponseMsg C D A n)} {rep : Report C D A n}
    {s' : System C D A n cfg} (hq : (w.sys.l1 c).responseToCache = m :: rest)
    (hs : Step w.sys (.response c v, some rep) s')
    (hk : 0 < Access.store.answers rep.result.callbacks) :
    rep.cache = c ∧ rep.address = m.address ∧ w.lineOfResponse c m = value m.address := by
  cases hs.carried with
  | response c v m' q x hq' hx =>
      cases hq.symm.trans hq'
      refine ⟨rfl, rfl, ?_⟩
      unfold responseNetworkIn at hx
      cases hev : responseEvent ((w.sys.l1 c).tbes m.address) m with
      | error f =>
          rw [hev] at hx
          cases hx
      | ok ev =>
          rw [hev] at hx
          rcases doTransition_store hx hk with ⟨-, hst⟩ | hdata | ⟨hst, hall⟩
          · subst hst
            have := (responseEvent_work hev 0).1
            cases this
          · -- the data comes with this message
            have ht : m.type = .DATA_FROM_DIR ∨ m.type = .DATA_FROM_OWNER :=
              type_of_data hev hdata
            have hline : w.lineOfResponse c m = m.dataBlk := by
              unfold Ruby.lineOfResponse
              rcases ht with e | e <;> rw [e]
            have hm : m ∈ (w.sys.l1 c).responseToCache := by
              rw [hq]
              exact List.mem_cons_self
            rw [hline]
            exact h.data_of_response hm ht
          · -- the data has come before, and this is the last acknowledgement
            have ht : m.type = .ACK := (type_of_responseEvent hev).1 hall
            have hline : w.lineOfResponse c m = w.line c m.address := by
              unfold Ruby.lineOfResponse
              rw [ht]
            rw [hline]
            refine h.line_of_copy ?_
            have hst : w.sys.state c m.address = .IM_A ∨ w.sys.state c m.address = .SM_A := hst
            rcases hst with e | e <;> rw [e] <;> decide

/-! ### Steps of the memory -/

omit [DecidableEq C] [DecidableEq D] in
/-- The values of all blocks after a store to one. -/
theorem overwrite_eq_update (value : A → DataBlock n) (rep : Report C D A n) :
    (fun a => (callbacksOf a (some rep)).foldl Callback.overwrite (value a)) =
      Function.update value rep.address
        (rep.result.callbacks.foldl Callback.overwrite (value rep.address)) := by
  funext a
  by_cases ha : a = rep.address
  · subst ha
    simp [callbacksOf, Option.filter]
  · simp [callbacksOf, Option.filter, ha, Ne.symm ha]

/-- The callbacks of a transition are a step of the memory, if a store finds the content of memory
and leaves there what the sequencer has made of it. -/
theorem Ruby.Called.applies (h : Coherent value w.sys) {mv : Move C D A n cfg}
    {rep : Report C D A n} {data : DataBlock n} {q : Sequencer A n} {locked : Bool}
    {done : List (Done C A n)} {s' : System C D A n cfg}
    (hok : (w.sequencer rep.cache).Ok w.sys.time) (hs : Step w.sys (mv, some rep) s')
    (hc : Called w rep data q locked done)
    (hdata : 0 < Access.store.answers rep.result.callbacks → data = value rep.address ∧
      mv.storeData = w.storeData rep.cache rep.address data) :
    ∃ value', Coherent value' s' ∧ Lts.Run (· = value) Done.Applies done value' := by
  obtain ⟨hreads, hcoh⟩ := h.step hs
  have hread : Reads (value rep.address) rep.result.callbacks := by
    have := hreads rep.address
    simpa [callbacksOf, Option.filter] using this
  simp only [overwrite_eq_update] at hcoh
  refine ⟨_, hcoh, ?_⟩
  have h₀ : Lts.Run (· = value) (Done.Applies (C := C)) [] value := .start rfl
  cases hc with
  | none hcb =>
      rcases hcb with hcb | hcb
      all_goals
        rw [hcb]
        simp only [List.foldl_cons, List.foldl_nil, Callback.overwrite, Function.update_eq_self]
        exact h₀
  | read d r pkt hcb hr hhit =>
      rw [hcb] at hread ⊢
      obtain rfl : d = value rep.address := hread [] d [] rfl
      exact h₀.snoc (hok.hitCallback_applies hr hhit)
  | write v r d' pkt success locked hcb hr hlock hhit =>
      obtain ⟨rfl, hv⟩ := hdata (by rw [hcb]; exact Nat.one_pos)
      obtain ⟨ev, x, f, htr, -, -⟩ := hs.transacts
      have hfrom : v = mv.storeData := by
        rcases doTransition_calls htr.valid htr.callbacks with e | ⟨b, e, hb⟩
        · cases hcb.symm.trans e
        · cases hcb.symm.trans e
          exact hb v rfl
      have hstore : w.storeData rep.cache rep.address (value rep.address) = d' := by
        have hr' : (w.sequencer rep.cache).writeRequestTable.lookup rep.address = some r := hr
        simp only [Ruby.storeData, hr', hhit]
      rw [hcb]
      simp only [List.foldl_cons, List.foldl_nil, Callback.overwrite]
      rw [hfrom, hv, hstore]
      exact h₀.snoc (hok.hitCallback_applies (k := .store) hr hhit)

/-- **A step is a step of the memory**, or none. -/
theorem Ruby.Sound.applies {max : ℤ} (hsound : w.Sound max) (h : Coherent value w.sys)
    {l : RubyLabel C D A n cfg} (hs : RubyStep max w l w') :
    ∃ value', Coherent value' w'.sys ∧ Lts.Run (· = value) Done.Applies l.done value' := by
  have h₀ : Lts.Run (· = value) (Done.Applies (C := C)) [] value := .start rfl
  -- a move of the protocol, if the data of a store is as it should be
  have hran : ∀ {mv data step done}, Ruby.Ran w mv data w' step done →
      (∀ rep s', Step w.sys (mv, some rep) s' →
        0 < Access.store.answers rep.result.callbacks → data = value rep.address ∧
          mv.storeData = w.storeData rep.cache rep.address data) →
      ∃ value', Coherent value' w'.sys ∧ Lts.Run (· = value) Done.Applies done value' := by
    intro mv data step done hr hdata
    cases hr with
    | quiet s' hs' => exact ⟨value, (h.step hs').2, h₀⟩
    | calls s' rep q locked done hs' hcalls =>
        obtain ⟨_, _, _, hy, hcalled⟩ := hsound.calls_ok hs' data
        cases hcalls.symm.trans hy
        exact hcalled.applies h (hsound.ok rep.cache) hs' (hdata rep s' hs')
  obtain ⟨mv, step, done⟩ := l
  cases hs.carried with
  | refused => exact ⟨value, h, h₀⟩
  | issued c pkt q status r s' hq hs' => exact ⟨value, (h.step hs').2, h₀⟩
  | mandatory c victim r rest w' l done hq hr =>
      refine hran hr fun rep s' hs hk => ?_
      obtain ⟨rfl, ha, hline⟩ := h.line_of_store hq hs hk
      rw [ha]
      exact ⟨hline, rfl⟩
  | response c m rest w' l done hq hr =>
      refine hran hr fun rep s' hs hk => ?_
      obtain ⟨rfl, ha, hline⟩ := h.lineOfResponse hq hs hk
      rw [ha]
      exact ⟨hline, rfl⟩
  | network mv w' l done hmv hr =>
      refine hran hr fun rep s' hs hk => ?_
      -- a forwarded request completes no store
      obtain ⟨c, rfl⟩ : ∃ c, mv = .forward c := by
        cases hs.carried with
        | forward c => exact ⟨c, rfl⟩
        | replacement | mandatory | response => cases hmv
      cases hs.carried with
      | forward c m q x hq hx =>
          unfold forwardRequestNetworkIn at hx
          cases hev : forwardEvent m with
          | error f =>
              rw [hev] at hx
              cases hx
          | ok ev =>
              rw [hev] at hx
              have hpop := (forwardEvent_work hev 0).1
              rcases doTransition_store hx hk with ⟨-, e⟩ | e | ⟨-, e⟩
              · subst e
                cases hpop
              · cases ev <;> first | exact absurd e (by decide) | cases hpop
              · subst e
                cases hpop

/-- All packets that come back are a run of the memory. -/
theorem RubyRun.applies {max : ℤ} (hmax : 0 < max) {mem : A → DataBlock n}
    {ls : List (RubyLabel C D A n cfg)} (h : RubyRun max mem ls w) :
    ∃ value, Coherent value w.sys ∧ Lts.Run (· = mem) Done.Applies (dones ls) value := by
  induction h with
  | start hw =>
      subst hw
      exact ⟨mem, Coherent.init mem, .start rfl⟩
  | snoc hr hs ih =>
      obtain ⟨value, hcoh, hrun⟩ := ih
      obtain ⟨value', hcoh', hstep⟩ := (RubyRun.sound hmax hr).applies hcoh hs.1
      refine ⟨value', hcoh', ?_⟩
      simp only [dones, List.flatMap_append, List.flatMap_cons, List.flatMap_nil, List.append_nil]
      exact hrun.append hstep

/-! ### The order of the answers -/

/-- The packets of a processor, for the blocks of a set, that a step accepts. -/
def RubyLabel.accepts (c : C) (view : A → Bool) (l : RubyLabel C D A n cfg) : List (Packet A n) :=
  match l.move, l.step with
  | .makeRequest c' pkt, some _ => if c' = c ∧ view pkt.lineAddress = true then [pkt] else []
  | _, _ => []

/-- The packets of a processor, for the blocks of a set, that are accepted along a run. -/
def accepted (c : C) (view : A → Bool) (ls : List (RubyLabel C D A n cfg)) : List (Packet A n) :=
  ls.flatMap (RubyLabel.accepts c view)

/-- Those that come back. -/
def served (c : C) (view : A → Bool) (ls : List (RubyLabel C D A n cfg)) : List (Done C A n) :=
  (dones ls).filter fun d => d.cache = c ∧ view d.address = true

/-- A packet that comes back is the answer to a packet that was accepted: the same command for the
same bytes, and for a store the packet itself. -/
structure Done.Answers (d : Done C A n) (pkt : Packet A n) : Prop where
  address : d.address = pkt.lineAddress
  type : ∃ secondary, pkt.requestTypes = .ok (d.type, secondary)
  offset : d.pkt.offset = pkt.offset
  length : d.pkt.data.length = pkt.data.length
  store : d.type ∉ loadTypes → d.pkt = pkt

omit [DecidableEq C] [DecidableEq A] in
theorem Sequencer.hitCallback_answers {r : SequencerRequest A n} {data : DataBlock n} {time : ℕ}
    {c : C} {a : A} {d' : DataBlock n} {pkt : Packet A n} {success : Bool}
    (h : hitCallback r data time = .ok (d', pkt)) (ha : r.pkt.lineAddress = a)
    (ht : ∃ secondary, r.pkt.requestTypes = .ok (r.type, secondary)) :
    Done.Answers (⟨c, a, r.type, pkt, success⟩ : Done C A n) r.pkt := by
  unfold hitCallback at h
  split at h
  · cases h
  split at h
  · next hload =>
      cases h
      exact ⟨ha.symm, ht, rfl, by simp, fun hn => absurd hload hn⟩
  · cases h
    exact ⟨ha.symm, ht, rfl, rfl, fun _ => rfl⟩

/-- The packets, for the blocks of a set, that wait in the tables of a sequencer: none, or one. -/
inductive Sequencer.Waiting (view : A → Bool) (q : Sequencer A n) : List (Packet A n) → Prop
  | none (h : ∀ k a, view a = true → q.has k a = 0) : Waiting view q []
  | one (k : Access) (a : A) (r : SequencerRequest A n) (ha : view a = true)
      (hr : (q.table k).lookup a = some r)
      (h : ∀ k' a', view a' = true → 0 < q.has k' a' → k' = k ∧ a' = a) : Waiting view q [r.pkt]

namespace Sequencer

variable {q q' : Sequencer A n} {view : A → Bool} {rest : List (Packet A n)} {time : ℕ}

theorem Waiting.length_le (h : q.Waiting view rest) : rest.length ≤ 1 := by
  cases h <;> simp

/-- Nothing changes for the blocks of the set. -/
theorem Waiting.congr (h : q.Waiting view rest)
    (hq : ∀ k a, view a = true → (q'.table k).lookup a = (q.table k).lookup a) :
    q'.Waiting view rest := by
  have hhas : ∀ k a, view a = true → q'.has k a = q.has k a := by
    intro k a ha
    have : a ∈ q'.table k ↔ a ∈ q.table k := by
      rw [← AList.lookup_isSome, ← AList.lookup_isSome, hq k a ha]
    unfold has
    simp only [this]
  cases h with
  | none h => exact .none fun k a ha => (hhas k a ha).trans (h k a ha)
  | one k a r ha hr h =>
      refine .one k a r ha ((hq k a ha).trans hr) fun k' a' ha' hpos => ?_
      exact h k' a' ha' ((hhas k' a' ha') ▸ hpos)

theorem Waiting.same (h : q.Waiting view rest) (hs : q.Same q') : q'.Waiting view rest :=
  h.congr fun k a _ => by rw [hs.1]

/-- The block of a request is in the set, and no other such request waits. -/
theorem Waiting.add {k : Access} {r : SequencerRequest A n} (hv : view r.pkt.lineAddress = true)
    (hnone : ∀ k a, view a = true → q.has k a = 0) : (q.add k r).Waiting view [r.pkt] := by
  refine .one k r.pkt.lineAddress r hv ?_ fun k' a' ha' hpos => ?_
  · rw [table_add, if_pos rfl, AList.lookup_insert]
  · rw [has_add] at hpos
    split at hpos
    · assumption
    · rw [hnone k' a' ha'] at hpos
      omega

/-- The block of a request is not in the set. -/
theorem Waiting.add_of_not {k : Access} {r : SequencerRequest A n} (h : q.Waiting view rest)
    (hv : ¬ view r.pkt.lineAddress = true) : (q.add k r).Waiting view rest := by
  refine h.congr fun k' a ha => ?_
  rw [table_add]
  split
  · next hk =>
      subst hk
      exact AList.lookup_insert_ne fun e => hv (e ▸ ha)
  · rfl

/-- A request for a block of the set is taken out of its table: it is the one that waits. -/
theorem Waiting.remove {k : Access} {a : A} {r : SequencerRequest A n} (h : q.Waiting view rest)
    (hv : view a = true) (hr : (q.table k).lookup a = some r) :
    rest = [r.pkt] ∧ (q.remove k a).Waiting view [] := by
  have hpos : 0 < q.has k a := by
    have hmem : a ∈ q.table k := AList.lookup_isSome.1 (by simp [hr])
    simp [has, hmem]
  cases h with
  | none h =>
      rw [h k a hv] at hpos
      omega
  | one k₀ a₀ r₀ ha₀ hr₀ h =>
      obtain ⟨rfl, rfl⟩ := h k a hv hpos
      cases hr.symm.trans hr₀
      refine ⟨rfl, .none fun k' a' ha' => ?_⟩
      rw [has_remove]
      split
      · rfl
      · next hne => exact Nat.eq_zero_of_not_pos fun hp => hne (h k' a' ha' hp)

theorem Waiting.remove_of_not {k : Access} {a : A} (h : q.Waiting view rest)
    (hv : ¬ view a = true) : (q.remove k a).Waiting view rest := by
  refine h.congr fun k' a' ha' => ?_
  rw [table_remove]
  split
  · next hk =>
      subst hk
      exact AList.lookup_erase_ne fun e => hv (e ▸ ha')
  · rfl

/-- While a packet for a block of the set waits, the sequencer refuses all others. -/
def Exclusive (max : ℤ) (view : A → Bool) : Prop :=
  ∀ (q : Sequencer A n) (time : ℕ) (a : A), q.Ok time → q.outstandingCount < max →
    (∀ k, q.has k a = 0) → view a = true → ∀ k a', view a' = true → q.has k a' = 0

/-- So it is for a single block, -/
theorem exclusive_block (max : ℤ) (a : A) : Exclusive (n := n) max (fun a' => decide (a' = a)) := by
  intro q time a₁ _ _ hfree h₁ k a₂ h₂
  obtain rfl := of_decide_eq_true h₁
  obtain rfl := of_decide_eq_true h₂
  exact hfree k

/-- and for all blocks, if one outstanding request is admitted. -/
theorem exclusive_one : Exclusive (A := A) (n := n) 1 (fun _ => true) := by
  intro q time a hok hcount _ _ k a' _
  have hw := RequestTable.size_nonneg q.writeRequestTable
  have hr := RequestTable.size_nonneg q.readRequestTable
  have hsum := hok.count
  have hsize : (q.table k).size = 0 := by
    cases k with
    | load =>
        change q.readRequestTable.size = 0
        omega
    | store =>
        change q.writeRequestTable.size = 0
        omega
  unfold has
  rw [if_neg]
  intro hmem
  have : 0 < (q.table k).keys.length := List.length_pos_of_mem (AList.mem_keys.1 hmem)
  unfold RequestTable.size at hsize
  omega

end Sequencer

/-- What was accepted is what has been answered, in the same order, and what waits. -/
def Answering (view : A → Bool) (pkts : List (Packet A n)) (ds : List (Done C A n))
    (q : Sequencer A n) : Prop :=
  ∃ old rest, pkts = old ++ rest ∧ List.Forall₂ Done.Answers ds old ∧ q.Waiting view rest

namespace Answering

variable {view : A → Bool} {pkts : List (Packet A n)} {ds : List (Done C A n)}
  {q q' : Sequencer A n} {time : ℕ}

omit [DecidableEq C] in
theorem same (h : Answering view pkts ds q) (hs : q.Same q') : Answering view pkts ds q' := by
  obtain ⟨old, rest, hp, ha, hw⟩ := h
  exact ⟨old, rest, hp, ha, hw.same hs⟩

omit [DecidableEq C] in
/-- A packet is accepted. -/
theorem accept (h : Answering view pkts ds q) {max : ℤ}
    (hview : Sequencer.Exclusive (n := n) max view) (hok : q.Ok time)
    (hcount : q.outstandingCount < max) {r : SequencerRequest A n}
    (hfree : ∀ k, q.has k r.pkt.lineAddress = 0) (k : Access) :
    Answering view (pkts ++ if view r.pkt.lineAddress = true then [r.pkt] else []) ds
      (q.add k r) := by
  obtain ⟨old, rest, hp, ha, hw⟩ := h
  by_cases hv : view r.pkt.lineAddress = true
  · have hnone := hview q time r.pkt.lineAddress hok hcount hfree hv
    obtain rfl : rest = [] := by
      cases hw with
      | none => rfl
      | one k' a r' ha' hr' =>
          have hmem : a ∈ q.table k' := AList.lookup_isSome.1 (by simp [hr'])
          have := hnone k' a ha'
          simp [Sequencer.has, hmem] at this
    refine ⟨old, [r.pkt], ?_, ha, Sequencer.Waiting.add hv hnone⟩
    rw [hp, if_pos hv, List.append_nil]
  · refine ⟨old, rest, ?_, ha, hw.add_of_not hv⟩
    rw [hp, if_neg hv, List.append_nil]

/-- A packet is answered. -/
theorem answer (h : Answering view pkts ds q) (hok : q.Ok time) {c : C} {k : Access} {a : A}
    {r : SequencerRequest A n} (hr : (q.table k).lookup a = some r) {d d' : DataBlock n}
    {pkt : Packet A n} {success : Bool}
    (hhit : Sequencer.hitCallback r d time = .ok (d', pkt)) :
    Answering view pkts (ds ++ ([⟨c, a, r.type, pkt, success⟩] : List (Done C A n)).filter
      fun d => d.cache = c ∧ view d.address = true) (q.remove k a) := by
  obtain ⟨old, rest, hp, ha, hw⟩ := h
  by_cases hv : view a = true
  · obtain ⟨rfl, hw'⟩ := hw.remove hv hr
    obtain ⟨hrec, htype⟩ := hok.record k a r hr
    have hanswer : Done.Answers (⟨c, a, r.type, pkt, success⟩ : Done C A n) r.pkt :=
      Sequencer.hitCallback_answers hhit hrec htype
    refine ⟨old ++ [r.pkt], [], by simp [hp], ?_, hw'⟩
    simpa [hv] using List.rel_append ha (.cons hanswer .nil)
  · refine ⟨old, rest, hp, ?_, hw.remove_of_not hv⟩
    simpa [hv] using ha

end Answering

/-- A move of the protocol answers a packet that waits, or none. -/
theorem Ruby.Ran.answering {max : ℤ} (hsound : w.Sound max) {mv : Move C D A n cfg}
    {data : DataBlock n} {step : Option (Label C D A n cfg)} {done : List (Done C A n)}
    (hr : Ran w mv data w' step done) {c : C} {view : A → Bool} {pkts : List (Packet A n)}
    {ds : List (Done C A n)} (h : Answering view pkts ds (w.sequencer c)) :
    Answering view pkts
      (ds ++ done.filter fun d => d.cache = c ∧ view d.address = true) (w'.sequencer c) := by
  cases hr with
  | quiet s' hs => simpa using h
  | calls s' rep q locked done hs hcalls =>
      obtain ⟨_, _, _, hy, hcalled⟩ := hsound.calls_ok hs data
      cases hcalls.symm.trans hy
      by_cases hc : rep.cache = c
      · subst hc
        simp only [Function.update_self]
        cases hcalled with
        | none hcb => simpa using h
        | read d r pkt hcb hr hhit => exact h.answer (hsound.ok rep.cache) hr hhit
        | write v r d' pkt success locked hcb hr hlock hhit =>
            exact h.answer (hsound.ok rep.cache) hr hhit
      · -- the packets of another processor
        simp only [Function.update_of_ne (Ne.symm hc)]
        cases hcalled <;> simpa [hc] using h

/-- **The answers come in order.**  The packets of a processor for the blocks of a set that have
been accepted are those that have been answered, in the same order, and at most one that waits. -/
theorem RubyRun.answering {max : ℤ} (hmax : 0 < max) {view : A → Bool}
    (hview : Sequencer.Exclusive (n := n) max view) {mem : A → DataBlock n}
    {ls : List (RubyLabel C D A n cfg)} (h : RubyRun max mem ls w) (c : C) :
    Answering view (accepted c view ls) (served c view ls) (w.sequencer c) := by
  induction h with
  | start hw =>
      subst hw
      refine ⟨[], [], rfl, .nil, .none fun k a _ => ?_⟩
      cases k <;> rfl
  | @snoc ls w₁ w₂ l hr hs ih =>
      have hsound := RubyRun.sound hmax hr
      obtain ⟨hstep, hsup⟩ := hs
      obtain ⟨mv, step, done⟩ := l
      have haccepted : accepted c view (ls ++ [⟨mv, step, done⟩]) =
          accepted c view ls ++ RubyLabel.accepts c view ⟨mv, step, done⟩ := by
        simp [accepted, List.flatMap_append]
      have hserved : served c view (ls ++ [⟨mv, step, done⟩]) =
          served c view ls ++ done.filter fun d => d.cache = c ∧ view d.address = true := by
        simp [served, dones, List.flatMap_append, List.filter_append]
      rw [haccepted, hserved]
      cases hstep.carried with
      | refused c' pkt q status hq =>
          simp only [RubyLabel.accepts, List.filter_nil, List.append_nil]
          by_cases hc : c = c'
          · subst hc
            simpa using ih.same ((hsound.ok c).refused hsup hq)
          · simpa [hc] using ih
      | issued c' pkt q status r s' hq hs' =>
          simp only [RubyLabel.accepts, List.filter_nil, List.append_nil]
          by_cases hc : c = c'
          · subst hc
            obtain ⟨hcount, hfree, k, type, rfl, -⟩ := (hsound.ok c).issued hsup hq
            have := ih.accept hview (hsound.ok c) hcount (r := ⟨pkt, type, w₁.sys.time⟩) hfree k
            simpa using this
          · simpa [hc, Ne.symm hc] using ih
      | mandatory c' victim r rest _ _ _ hq hr' =>
          simpa [RubyLabel.accepts] using hr'.answering hsound ih
      | response c' m rest _ _ _ hq hr' => simpa [RubyLabel.accepts] using hr'.answering hsound ih
      | network mv' _ _ _ hmv hr' => simpa [RubyLabel.accepts] using hr'.answering hsound ih

/-- **The processors see an atomic memory.**  Along every run on supported packets, the packets that
come back, in the order in which they come back, are a run of a memory that serves one packet at a
time; every line that is valid holds the content of this memory.  It serves them as it should, if
none of them is a swap or a store-conditional that has failed.  The packets of a processor for a
block are answered in the order in which they were accepted, and at most one of them waits. -/
theorem dones_atomic {max : ℤ} (hmax : 0 < max) {mem : A → DataBlock n}
    {ls : List (RubyLabel C D A n cfg)} (h : RubyRun max mem ls w) :
    ∃ value, Lts.Run (· = mem) Done.Applies (dones ls) value ∧
      ((∀ d ∈ dones ls, ¬d.Deviates) → Lts.Run (· = mem) Done.Serves (dones ls) value) ∧
      (∀ c a, w.sys.state c a ∈ [.S, .M, .SM_AD, .IM_A, .SM_A] → w.line c a = value a) ∧
      ∀ c a, ∃ old rest, accepted c (fun a' => decide (a' = a)) ls = old ++ rest ∧
        rest.length ≤ 1 ∧
        List.Forall₂ Done.Answers (served c (fun a' => decide (a' = a)) ls) old := by
  obtain ⟨value, hcoh, hrun⟩ := RubyRun.applies hmax h
  refine ⟨value, hrun, applies_serves hrun, fun c a hst => hcoh.line_of_copy hst, fun c a => ?_⟩
  obtain ⟨old, rest, hacc, hans, hwait⟩ :=
    RubyRun.answering hmax (Sequencer.exclusive_block max a) h c
  exact ⟨old, rest, hacc, hwait.length_le, hans⟩

end History

/-- A processor stores to a block, and another one loads it from its cache. -/
def rubyStoreThenLoad : List (RubyMove (Fin 4) (Fin 2) (Fin 2) 1 demo) :=
  rubyAsk 1 (bytePacket true false 0 7) ++ rubyFetch 1 0 ++
    rubyAsk 2 (bytePacket false false 0 0) ++
    [.network (.deliverForward 0 1), .network (.forward 1),
      .network (.deliverResponse (.L1Cache 1) (.L1Cache 2)), .response 2]

theorem rubyStoreThenLoad_supported : ∀ mv ∈ rubyStoreThenLoad, mv.Supported := by
  simp [rubyStoreThenLoad, rubyAsk, rubyFetch, RubyMove.Supported, Packet.Supported, bytePacket]

theorem dones_atomic_demo :
    (dones (rubyAfter 2 rubyStoreThenLoad).1).map (fun d => (d.cache, d.pkt.data)) =
        [(1, [7]), (2, [7])] ∧
      ∃ value, Lts.Run (· = fun _ => default) Done.Serves
        (dones (rubyAfter 2 rubyStoreThenLoad).1) value := by
  have hrun := run_rubyAfter 2 rubyStoreThenLoad rubyStoreThenLoad_supported (by decide +kernel)
  obtain ⟨value, -, h, -⟩ := dones_atomic (by decide) hrun
  exact ⟨by decide +kernel, value, h (by decide +kernel)⟩

section Sequential

variable {C D A : Type} [DecidableEq C] [DecidableEq D] [DecidableEq A] {n : ℕ} {cfg : Config D A}
  {w : Ruby C D A n cfg}

/-- **With one outstanding request the memory is sequentially consistent**: the packets that come
back are a run of a memory that serves one packet at a time, as it should if none of them is a swap
or a store-conditional that has failed, and those of each processor come back in the order in which
it made its requests. -/
theorem dones_sequential {mem : A → DataBlock n} {ls : List (RubyLabel C D A n cfg)}
    (h : RubyRun 1 mem ls w) :
    (∃ value, Lts.Run (· = mem) Done.Applies (dones ls) value ∧
      ((∀ d ∈ dones ls, ¬d.Deviates) → Lts.Run (· = mem) Done.Serves (dones ls) value)) ∧
      ∀ c, ∃ old rest, accepted c (fun _ => true) ls = old ++ rest ∧ rest.length ≤ 1 ∧
        List.Forall₂ Done.Answers (served c (fun _ => true) ls) old := by
  obtain ⟨value, -, hrun⟩ := RubyRun.applies Int.one_pos h
  refine ⟨⟨value, hrun, applies_serves hrun⟩, fun c => ?_⟩
  obtain ⟨old, rest, hacc, hans, hwait⟩ :=
    RubyRun.answering Int.one_pos Sequencer.exclusive_one h c
  exact ⟨old, rest, hacc, hwait.length_le, hans⟩

end Sequential

theorem dones_sequential_demo :
    accepted 2 (fun _ => true) (rubyAfter 1 rubyStoreThenLoad).1 = [bytePacket false false 0 0] ∧
      ∃ old rest, [bytePacket false false 0 0] = old ++ rest ∧ rest.length ≤ 1 ∧
        List.Forall₂ Done.Answers
          (served 2 (fun _ => true) (rubyAfter 1 rubyStoreThenLoad).1) old := by
  have hrun := run_rubyAfter 1 rubyStoreThenLoad rubyStoreThenLoad_supported (by decide +kernel)
  have hacc : accepted 2 (fun _ => true) (rubyAfter 1 rubyStoreThenLoad).1 =
      [bytePacket false false 0 0] := rfl
  have h := (dones_sequential hrun).2 2
  rw [hacc] at h
  exact ⟨hacc, h⟩

end Msi
