/-
**Outstanding requests.**

The sequencers keep their own account of the requests that are outstanding, in two tables and a
counter, and assert at every turn that the account is right: that a callback finds its request in
the table for its kind, that the counter is the number of requests in the tables, that the line of a
store is there when its lock is asked for.  The protocol keeps an account of its own, in its queues
and in the transient states of its lines.  This module shows that the two agree at any moment, so
that none of the assertions ever fails.

Main definitions:

* `Msi.Sequencer.Ok` — a sequencer in order;
* `Msi.Ruby.Sound` — the sequencers are in order, and agree with the protocol.

Main results:

* `Msi.Sequencer.Ok.makeRequest` — what becomes of a request;
* `Msi.Ruby.Sound.calls_ok` — **the callbacks of a transition never fail**;
* `Msi.Ruby.Sound.exec` — every step keeps the sequencers sound;
* `Msi.sequencer_sound` — **no assertion of a sequencer fails**, and a request is in a table exactly
  while the protocol has it in a queue or is working on it.
-/

import ArchLab.MsiSequencer

set_option relaxedAutoImplicit false
set_option autoImplicit false

namespace Msi

/-! ### Request tables -/

open L1Cache

section Tables

variable {A : Type} [DecidableEq A] {n : ℕ}

/-- The table for requests of a kind. -/
def Sequencer.table (q : Sequencer A n) : Access → RequestTable A n
  | .load => q.readRequestTable
  | .store => q.writeRequestTable

/-- The number of requests of a kind for a block in the tables. -/
def Sequencer.has (q : Sequencer A n) (k : Access) (a : A) : ℕ := if a ∈ q.table k then 1 else 0

/-- The types of the requests in a table. -/
def L1Cache.Access.types : Access → List RubyRequestType
  | .load => [.LD, .IFETCH]
  | .store => [.ST, .Load_Linked, .Store_Conditional]

omit [DecidableEq A] in
theorem RequestTable.size_nonneg (t : RequestTable A n) : 0 ≤ t.size := Int.natCast_nonneg _

theorem RequestTable.size_insert {t : RequestTable A n} {a : A} (r : SequencerRequest A n)
    (h : a ∉ t) : RequestTable.size (t.insert a r) = t.size + 1 := by
  unfold RequestTable.size
  rw [AList.keys_insert, List.erase_of_not_mem (fun hm => h (AList.mem_keys.2 hm))]
  simp

theorem RequestTable.size_erase {t : RequestTable A n} {a : A} (h : a ∈ t) :
    RequestTable.size (t.erase a) = t.size - 1 := by
  unfold RequestTable.size
  have hpos : 0 < t.keys.length := List.length_pos_of_mem (AList.mem_keys.1 h)
  rw [AList.keys_erase, List.length_erase_of_mem (AList.mem_keys.1 h)]
  omega

/-- **A sequencer in order**: the counter is the number of requests in the tables, no block is in
both, every request is in the table for its type, under the block of its packet, and no request is
from the future. -/
structure Sequencer.Ok (time : ℕ) (q : Sequencer A n) : Prop where
  count : q.outstandingCount = q.writeRequestTable.size + q.readRequestTable.size
  disjoint : ∀ a, a ∈ q.readRequestTable → a ∉ q.writeRequestTable
  type : ∀ k a r, (q.table k).lookup a = some r → r.type ∈ k.types
  record : ∀ k a r, (q.table k).lookup a = some r → r.pkt.lineAddress = a ∧
    ∃ secondary, r.pkt.requestTypes = .ok (r.type, secondary)
  issueTime : ∀ k a r, (q.table k).lookup a = some r → r.issueTime ≤ time

namespace Sequencer

variable {q q' : Sequencer A n} {time : ℕ}

theorem Ok.init : (Sequencer.init : Sequencer A n).Ok time where
  count := rfl
  disjoint a h := absurd h (AList.notMem_empty a)
  type k a r h := by cases k <;> cases h
  record k a r h := by cases k <;> cases h
  issueTime k a r h := by cases k <;> cases h

omit [DecidableEq A] in
theorem checkCount_ok
    (h : q.outstandingCount = q.writeRequestTable.size + q.readRequestTable.size) :
    q.checkCount = .ok q := if_pos h

theorem exists_of_has {k : Access} {a : A} (h : 0 < q.has k a) :
    ∃ r, (q.table k).lookup a = some r := by
  unfold has at h
  split at h
  · next hmem => exact Option.isSome_iff_exists.1 (AList.lookup_isSome.2 hmem)
  · omega

/-- Take a request out of its table. -/
def remove (q : Sequencer A n) (k : Access) (a : A) : Sequencer A n :=
  match k with
  | .load => { q with
      readRequestTable := q.readRequestTable.erase a
      outstandingCount := q.outstandingCount - 1 }
  | .store => { q with
      writeRequestTable := q.writeRequestTable.erase a
      outstandingCount := q.outstandingCount - 1 }

theorem table_remove (q : Sequencer A n) (k k' : Access) (a : A) :
    (q.remove k a).table k' = if k' = k then (q.table k).erase a else q.table k' := by
  cases k <;> cases k' <;> rfl

theorem has_remove (q : Sequencer A n) (k k' : Access) (a a' : A) :
    (q.remove k a).has k' a' = if k' = k ∧ a' = a then 0 else q.has k' a' := by
  unfold has
  rw [table_remove]
  by_cases hk : k' = k
  · subst hk
    by_cases ha : a' = a
    · subst ha
      simp [AList.mem_erase]
    · simp [AList.mem_erase, ha]
  · simp [hk]

theorem Ok.remove (h : q.Ok time) {k : Access} {a : A} (ha : 0 < q.has k a) :
    (q.remove k a).Ok time := by
  have hlookup : ∀ k' a' r, ((q.remove k a).table k').lookup a' = some r →
      (q.table k').lookup a' = some r := by
    intro k' a' r hr
    rw [table_remove] at hr
    split at hr
    · next hk =>
        subst hk
        by_cases ha' : a' = a
        · subst ha'
          rw [AList.lookup_erase] at hr
          cases hr
        · rwa [AList.lookup_erase_ne ha'] at hr
    · exact hr
  have hmem : a ∈ q.table k := by
    unfold has at ha
    split at ha
    · assumption
    · omega
  constructor
  · cases k with
    | load =>
        have := RequestTable.size_erase (t := q.readRequestTable) hmem
        have := h.count
        simp only [Sequencer.remove]
        omega
    | store =>
        have := RequestTable.size_erase (t := q.writeRequestTable) hmem
        have := h.count
        simp only [Sequencer.remove]
        omega
  · intro a' hr hw
    cases k with
    | load => exact h.disjoint a' (AList.mem_erase.1 hr).2 hw
    | store => exact h.disjoint a' hr (AList.mem_erase.1 hw).2
  · exact fun k' a' r hr => h.type k' a' r (hlookup k' a' r hr)
  · exact fun k' a' r hr => h.record k' a' r (hlookup k' a' r hr)
  · exact fun k' a' r hr => h.issueTime k' a' r (hlookup k' a' r hr)

/-- The callback for a request in the read table. -/
theorem Ok.readCallback {C : Type} (h : q.Ok time) {a : A} (ha : 0 < q.has .load a) (c : C)
    (d : DataBlock n) : ∃ r pkt, q.readRequestTable.lookup a = some r ∧
      hitCallback r d time = .ok (d, pkt) ∧
      q.readCallback c a d time = .ok (q.remove .load a, ⟨c, a, r.type, pkt, true⟩) := by
  obtain ⟨r, hr⟩ := exists_of_has ha
  have hcount := checkCount_ok (h.remove ha).count
  have htype := h.type .load a r hr
  have htime := h.issueTime .load a r hr
  simp only [Access.types, List.mem_cons, List.not_mem_nil, or_false] at htype
  have hhit : ∃ pkt, hitCallback r d time = .ok (d, pkt) := by
    unfold hitCallback
    rw [if_neg (by omega), if_pos (by rcases htype with e | e <;> rw [e] <;> decide)]
    exact ⟨_, rfl⟩
  obtain ⟨pkt, hpkt⟩ := hhit
  refine ⟨r, pkt, hr, hpkt, ?_⟩
  change q.readRequestTable.lookup a = some r at hr
  simp only [Sequencer.readCallback, hr, L1Cache.need, markRemoved]
  change (Except.ok r >>= fun r => (q.remove .load a).checkCount >>= _) = _
  rw [hcount]
  change (if r.type = .LD ∨ r.type = .IFETCH then _ else _) = _
  rw [if_pos htype, hpkt]
  rfl

/-- The callback for a request in the write table, if the line is there. -/
theorem Ok.writeCallback {C : Type} (h : q.Ok time) {a : A} (ha : 0 < q.has .store a) (c : C)
    (d : DataBlock n) (locked : Bool) : ∃ r success locked' d' pkt,
      q.writeRequestTable.lookup a = some r ∧
      handleLlsc r.type true locked = .ok (success, locked') ∧
      hitCallback r d time = .ok (d', pkt) ∧
      q.writeCallback c a d true locked time =
        .ok (q.remove .store a, locked', d', ⟨c, a, r.type, pkt, success⟩) := by
  obtain ⟨r, hr⟩ := exists_of_has ha
  have hcount := checkCount_ok (h.remove ha).count
  have htype := h.type .store a r hr
  have htime := h.issueTime .store a r hr
  simp only [Access.types, List.mem_cons, List.not_mem_nil, or_false] at htype
  have hhit : ∃ d' pkt, hitCallback r d time = .ok (d', pkt) := by
    unfold hitCallback
    rw [if_neg (by omega)]
    split <;> exact ⟨_, _, rfl⟩
  have hllsc : ∃ success locked', handleLlsc r.type true locked = .ok (success, locked') := by
    unfold handleLlsc
    rcases htype with e | e | e <;> rw [e] <;> exact ⟨_, _, rfl⟩
  obtain ⟨d', pkt, hpkt⟩ := hhit
  obtain ⟨success, locked', hlock⟩ := hllsc
  refine ⟨r, success, locked', d', pkt, hr, hlock, hpkt, ?_⟩
  change q.writeRequestTable.lookup a = some r at hr
  have hw : r.type ∈ writeTypes ∨ r.type = .ATOMIC := by
    left
    rcases htype with e | e | e <;> rw [e] <;> decide
  simp only [Sequencer.writeCallback, hr, L1Cache.need, markRemoved]
  change (Except.ok r >>= fun r => (q.remove .store a).checkCount >>= _) = _
  rw [hcount]
  change (if r.type ∈ writeTypes ∨ r.type = .ATOMIC then _ else _) = _
  rw [if_pos hw, hlock]
  change (hitCallback r d time >>= _) = _
  rw [hpkt]
  rfl

theorem Ok.mono (h : q.Ok time) {time' : ℕ} (ht : time ≤ time') : q.Ok time' :=
  ⟨h.count, h.disjoint, h.type, h.record, fun k a r hr => (h.issueTime k a r hr).trans ht⟩

/-- Note a request in its table. -/
def add (q : Sequencer A n) (k : Access) (r : SequencerRequest A n) : Sequencer A n :=
  match k with
  | .load => { q with
      readRequestTable := q.readRequestTable.insert r.pkt.lineAddress r
      outstandingCount := q.outstandingCount + 1 }
  | .store => { q with
      writeRequestTable := q.writeRequestTable.insert r.pkt.lineAddress r
      outstandingCount := q.outstandingCount + 1 }

theorem table_add (q : Sequencer A n) (k k' : Access) (r : SequencerRequest A n) :
    (q.add k r).table k' = if k' = k then (q.table k).insert r.pkt.lineAddress r
      else q.table k' := by
  cases k <;> cases k' <;> rfl

theorem has_add (q : Sequencer A n) (k k' : Access) (r : SequencerRequest A n) (a : A) :
    (q.add k r).has k' a = if k' = k ∧ a = r.pkt.lineAddress then 1 else q.has k' a := by
  unfold has
  rw [table_add]
  by_cases hk : k' = k
  · subst hk
    by_cases ha : a = r.pkt.lineAddress <;> simp [AList.mem_insert, ha]
  · simp [hk]

/-- A request for a block that is in no table can be noted. -/
theorem Ok.add (h : q.Ok time) {k : Access} {r : SequencerRequest A n}
    (hfree : ∀ k', q.has k' r.pkt.lineAddress = 0) (htype : r.type ∈ k.types)
    (hpkt : ∃ secondary, r.pkt.requestTypes = .ok (r.type, secondary))
    (htime : r.issueTime ≤ time) : (q.add k r).Ok time := by
  have hmem : ∀ k', r.pkt.lineAddress ∉ q.table k' := by
    intro k' hm
    have := hfree k'
    simp [has, hm] at this
  have hlookup : ∀ k' a' r', ((q.add k r).table k').lookup a' = some r' →
      (q.table k').lookup a' = some r' ∨ k' = k ∧ r' = r ∧ a' = r.pkt.lineAddress := by
    intro k' a' r' hr
    rw [table_add] at hr
    split at hr
    · next hk =>
        subst hk
        by_cases ha' : a' = r.pkt.lineAddress
        · subst ha'
          rw [AList.lookup_insert] at hr
          exact .inr ⟨rfl, (Option.some.inj hr).symm, rfl⟩
        · rw [AList.lookup_insert_ne ha'] at hr
          exact .inl hr
    · exact .inl hr
  constructor
  · have hcount := h.count
    cases k with
    | load =>
        have := RequestTable.size_insert r (hmem .load)
        simp only [Sequencer.add, table] at this ⊢
        omega
    | store =>
        have := RequestTable.size_insert r (hmem .store)
        simp only [Sequencer.add, table] at this ⊢
        omega
  · intro a' hr hw
    cases k with
    | load =>
        rcases (AList.mem_insert _).1 hr with rfl | hr
        · exact hmem .store hw
        · exact h.disjoint a' hr hw
    | store =>
        rcases (AList.mem_insert _).1 hw with rfl | hw
        · exact hmem .load hr
        · exact h.disjoint a' hr hw
  · intro k' a' r' hr
    rcases hlookup k' a' r' hr with hr | ⟨rfl, rfl, -⟩
    · exact h.type k' a' r' hr
    · exact htype
  · intro k' a' r' hr
    rcases hlookup k' a' r' hr with hr | ⟨rfl, rfl, rfl⟩
    · exact h.record k' a' r' hr
    · exact ⟨rfl, hpkt⟩
  · intro k' a' r' hr
    rcases hlookup k' a' r' hr with hr | ⟨rfl, rfl, -⟩
    · exact h.issueTime k' a' r' hr
    · exact htime

/-- The tables of two sequencers are the same. -/
def Same (q q' : Sequencer A n) : Prop :=
  (∀ k, q'.table k = q.table k) ∧ q'.outstandingCount = q.outstandingCount

omit [DecidableEq A] in
theorem Ok.same [DecidableEq A] (h : q.Ok time) (hs : q.Same q') : q'.Ok time := by
  obtain ⟨htable, hcount⟩ := hs
  have hr : q'.readRequestTable = q.readRequestTable := htable .load
  have hw : q'.writeRequestTable = q.writeRequestTable := htable .store
  refine ⟨?_, ?_, ?_, ?_, ?_⟩
  · rw [hr, hw, hcount]
    exact h.count
  · rw [hr, hw]
    exact h.disjoint
  · simp only [htable]
    exact h.type
  · simp only [htable]
    exact h.record
  · simp only [htable]
    exact h.issueTime

/-- What becomes of an attempt to note a request: it is noted, unless the block is in a table. -/
theorem Ok.insertRequest (h : q.Ok time) {pkt : Packet A n} {k : Access} {type : RubyRequestType}
    (htype : type ∈ k.types) (hpkt : ∃ secondary, pkt.requestTypes = .ok (type, secondary)) :
    (∀ k', q.has k' pkt.lineAddress = 0) ∧
        q.insertRequest pkt type time = .ok (q.add k ⟨pkt, type, time⟩, .Ready) ∨
      (∃ k', 0 < q.has k' pkt.lineAddress) ∧
        ∃ q', q.Same q' ∧ q.insertRequest pkt type time = .ok (q', .Aliased) := by
  have hcheck := checkCount_ok h.count
  have hsame : ∀ {q' : Sequencer A n}, q'.readRequestTable = q.readRequestTable →
      q'.writeRequestTable = q.writeRequestTable →
      q'.outstandingCount = q.outstandingCount → q.Same q' := by
    intro q' hr hw hc
    refine ⟨fun k => ?_, hc⟩
    cases k with
    | load => exact hr
    | store => exact hw
  have hwrite : type ∈ writeTypes ↔ k = .store := by
    cases k <;> cases type <;> first | decide | exact absurd htype (by decide)
  unfold Sequencer.insertRequest
  rw [hcheck]
  change _ ∧ (if type ∈ writeTypes then _ else _) = _ ∨ _ ∧ ∃ q', _ ∧
    (if type ∈ writeTypes then _ else _) = _
  by_cases hr : pkt.lineAddress ∈ q.readRequestTable
  · right
    refine ⟨⟨.load, by simp [has, table, hr]⟩, ?_⟩
    have hw : pkt.lineAddress ∉ q.writeRequestTable := h.disjoint _ hr
    split <;> refine ⟨_, ?_, rfl⟩ <;> exact hsame rfl rfl rfl
  by_cases hw : pkt.lineAddress ∈ q.writeRequestTable
  · right
    refine ⟨⟨.store, by simp [has, table, hw]⟩, ?_⟩
    split <;> refine ⟨_, ?_, rfl⟩ <;> exact hsame rfl rfl rfl
  · left
    have hfree : ∀ k', q.has k' pkt.lineAddress = 0 := by
      intro k'
      cases k' with
      | load => simp [has, table, hr]
      | store => simp [has, table, hw]
    have hadd := checkCount_ok (h.add (r := ⟨pkt, type, time⟩) hfree htype hpkt le_rfl).count
    refine ⟨hfree, ?_⟩
    cases k with
    | load =>
        rw [if_neg (by simp [hwrite]), if_neg hw, if_neg hr]
        change ((q.add .load ⟨pkt, type, time⟩).checkCount >>= _) = _
        rw [hadd]
        rfl
    | store =>
        rw [if_pos (by simp [hwrite]), if_neg hr, if_neg hw]
        change ((q.add .store ⟨pkt, type, time⟩).checkCount >>= _) = _
        rw [hadd]
        rfl

omit [DecidableEq A] in
/-- The types of a supported packet belong to one kind. -/
theorem requestTypes_ok {pkt : Packet A n} (h : pkt.Supported) :
    ∃ k primary secondary, pkt.requestTypes = .ok (primary, secondary) ∧ primary ∈ k.types ∧
      Access.ofType secondary = some k ∧
      ((secondary = .LD ∨ secondary = .IFETCH) ∨ secondary = .ST ∨ secondary = .ATOMIC) := by
  unfold Packet.requestTypes
  split
  · split
    · exact ⟨.store, _, _, rfl, by decide, rfl, by decide⟩
    · next hw =>
        rw [if_pos (h.resolve_right hw)]
        exact ⟨.store, _, _, rfl, by decide, rfl, by decide⟩
  · split
    · split <;> exact ⟨.load, _, _, rfl, by decide, rfl, by decide⟩
    · next hr =>
        rw [if_pos (h.resolve_left hr)]
        exact ⟨.store, _, _, rfl, by decide, rfl, by decide⟩

/-- **What becomes of a request**: it is refused if too many requests are outstanding or if one for
the same block is, and noted and passed on otherwise. -/
theorem Ok.makeRequest (h : q.Ok time) (max : ℤ) {pkt : Packet A n} (hp : pkt.Supported) :
    max ≤ q.outstandingCount ∧ q.makeRequest max pkt time = .ok (q, .BufferFull, none) ∨
      q.outstandingCount < max ∧ (∃ k, 0 < q.has k pkt.lineAddress) ∧
        (∃ q', q.Same q' ∧ q.makeRequest max pkt time = .ok (q', .Aliased, none)) ∨
      q.outstandingCount < max ∧ (∀ k, q.has k pkt.lineAddress = 0) ∧
        ∃ k primary secondary, primary ∈ k.types ∧ Access.ofType secondary = some k ∧
          pkt.requestTypes = .ok (primary, secondary) ∧
          ((secondary = .LD ∨ secondary = .IFETCH) ∨ secondary = .ST ∨ secondary = .ATOMIC) ∧
          q.makeRequest max pkt time =
            .ok (q.add k ⟨pkt, primary, time⟩, .Issued, some ⟨pkt.lineAddress, secondary⟩) := by
  unfold Sequencer.makeRequest
  by_cases hmax : max ≤ q.outstandingCount
  · left
    exact ⟨hmax, if_pos hmax⟩
  right
  rw [if_neg hmax]
  obtain ⟨k, primary, secondary, htypes, hprimary, hkind, hsec⟩ := requestTypes_ok hp
  rw [htypes]
  rcases h.insertRequest hprimary ⟨secondary, htypes⟩ with ⟨hfree, hins⟩ | ⟨hhas, q', hsame, hins⟩
  · right
    refine ⟨by omega, hfree, k, primary, secondary, hprimary, hkind, rfl, hsec, ?_⟩
    change (q.insertRequest pkt primary time >>= _) = _
    rw [hins]
    rfl
  · left
    refine ⟨by omega, hhas, q', hsame, ?_⟩
    change (q.insertRequest pkt primary time >>= _) = _
    rw [hins]
    rfl

/-- A request that is refused leaves the tables alone. -/
theorem Ok.refused (h : q.Ok time) {max : ℤ} {pkt : Packet A n} (hp : pkt.Supported)
    {status : RequestStatus} (hq : q.makeRequest max pkt time = .ok (q', status, none)) :
    q.Same q' := by
  rcases h.makeRequest max hp with ⟨-, e⟩ | ⟨-, -, q₁, hsame, e⟩ | ⟨-, -, k, _, _, -, -, -, -, e⟩
  · cases hq.symm.trans e
    exact ⟨fun _ => rfl, rfl⟩
  · cases hq.symm.trans e
    exact hsame
  · cases hq.symm.trans e

/-- A request that is passed on is noted in a table, and there was room for it. -/
theorem Ok.issued (h : q.Ok time) {max : ℤ} {pkt : Packet A n} (hp : pkt.Supported)
    {status : RequestStatus} {r : RubyRequest A}
    (hq : q.makeRequest max pkt time = .ok (q', status, some r)) :
    q.outstandingCount < max ∧ (∀ k, q.has k pkt.lineAddress = 0) ∧
      ∃ k type, q' = q.add k ⟨pkt, type, time⟩ ∧ (q.add k ⟨pkt, type, time⟩).Ok time ∧
        r.lineAddress = pkt.lineAddress ∧ Access.ofType r.type = some k ∧
        ((r.type = .LD ∨ r.type = .IFETCH) ∨ r.type = .ST ∨ r.type = .ATOMIC) := by
  rcases h.makeRequest max hp with ⟨-, e⟩ | ⟨-, -, q₁, -, e⟩ |
    ⟨hcount, hfree, k, primary, secondary, hprimary, hkind, htypes, hsec, e⟩
  · cases hq.symm.trans e
  · cases hq.symm.trans e
  · cases hq.symm.trans e
    exact ⟨hcount, hfree, k, primary, rfl,
      h.add (r := ⟨pkt, primary, time⟩) hfree hprimary ⟨secondary, htypes⟩ le_rfl, rfl, hkind, hsec⟩

end Sequencer

end Tables

/-! ### The tables and the protocol -/

section Agree

variable {C D A : Type} [DecidableEq C] [DecidableEq D] [DecidableEq A] {n : ℕ} {cfg : Config D A}

namespace Ruby

variable {w w' : Ruby C D A n cfg} {max : ℤ}

/-- **The sequencers are sound**: each is in order and within its bound, and a request is in a table
exactly while the protocol has it in a queue or is working on it. -/
structure Sound (max : ℤ) (w : Ruby C D A n cfg) : Prop where
  ok : ∀ c, (w.sequencer c).Ok w.sys.time
  bound : ∀ c, (w.sequencer c).outstandingCount ≤ max
  agree : ∀ k c a, (w.sequencer c).has k a = w.sys.queued k c a + w.sys.pending k c a

omit [DecidableEq C] [DecidableEq D] in
theorem Sound.init (hmax : 0 < max) (mem : A → DataBlock n) :
    (Ruby.init cfg mem : Ruby C D A n cfg).Sound max where
  ok _ := Sequencer.Ok.init
  bound _ := hmax.le
  agree k c a := by
    cases k <;>
      simp [Ruby.init, Sequencer.init, Sequencer.has, Sequencer.table, System.queued,
        System.pending, System.state, System.entry, System.init, getState, State.awaits, Access.one]

/-- The lock of the line of a report, before its callbacks: it is clear in a line that the
transition has added. -/
def lockOf (w : Ruby C D A n cfg) (rep : Report C D A n) : Bool :=
  (w.sys.entry rep.cache rep.address).isSome && w.locked rep.cache rep.address

/-- What the callbacks of a transition do: nothing, or they take one request out of its table and
hand its packet back. -/
inductive Called (w : Ruby C D A n cfg) (rep : Report C D A n) (data : DataBlock n) :
    Sequencer A n → Bool → List (Done C A n) → Prop
  | none (hcb : rep.result.callbacks = [] ∨ rep.result.callbacks = [.eviction]) :
      Called w rep data (w.sequencer rep.cache) (w.lockOf rep) []
  | read (d : DataBlock n) (r : SequencerRequest A n) (pkt : Packet A n)
      (hcb : rep.result.callbacks = [.read d])
      (hr : ((w.sequencer rep.cache).table .load).lookup rep.address = some r)
      (hhit : Sequencer.hitCallback r d w.sys.time = .ok (d, pkt)) :
      Called w rep data ((w.sequencer rep.cache).remove .load rep.address) (w.lockOf rep)
        [⟨rep.cache, rep.address, r.type, pkt, true⟩]
  | write (v : DataBlock n) (r : SequencerRequest A n) (d' : DataBlock n) (pkt : Packet A n)
      (success locked : Bool) (hcb : rep.result.callbacks = [.write v])
      (hr : ((w.sequencer rep.cache).table .store).lookup rep.address = some r)
      (hlock : Sequencer.handleLlsc r.type true (w.lockOf rep) = .ok (success, locked))
      (hhit : Sequencer.hitCallback r data w.sys.time = .ok (d', pkt)) :
      Called w rep data ((w.sequencer rep.cache).remove .store rep.address) locked
        [⟨rep.cache, rep.address, r.type, pkt, success⟩]

/-- A step that reports something is not an issue. -/
theorem issues_of_report {s s' : System C D A n cfg} {mv : Move C D A n cfg} {rep : Report C D A n}
    (hs : Step s (mv, some rep) s') (k : Access) (c : C) (a : A) :
    Label.issues k c a ((mv, some rep) : Label C D A n cfg) = 0 := by
  cases mv with
  | issue c r => cases hs
  | _ => rfl

/-- **The callbacks of a transition never fail.** -/
theorem Sound.calls_ok (h : w.Sound max) {mv : Move C D A n cfg} {rep : Report C D A n}
    {s' : System C D A n cfg} (hs : Step w.sys (mv, some rep) s') (data : DataBlock n) :
    ∃ q locked done,
      w.calls rep data = .ok (q, locked, done) ∧ Called w rep data q locked done := by
  obtain ⟨ev, x, f, htr, -, -⟩ := hs.transacts
  -- the request that a callback answers is in its table, and its line is there
  have hhas : ∀ k : Access, k.answers rep.result.callbacks ≤
      (w.sequencer rep.cache).has k rep.address := by
    intro k
    have hbal := hs.balance k rep.cache rep.address
    simp only [issues_of_report hs, Label.answers, and_self, if_true] at hbal
    rw [h.agree]
    omega
  have hline : ∀ k : Access, 0 < k.answers rep.result.callbacks →
      rep.result.cacheEntry.isSome := by
    intro k hk
    refine line_of_answer htr.valid (k := k) ?_
    rwa [htr.callbacks, Access.answers_nil]
  unfold Ruby.calls
  rcases doTransition_calls htr.valid htr.callbacks with hcb | ⟨b, hcb, -⟩
  · rw [hcb]
    exact ⟨_, _, _, rfl, .none (.inl hcb)⟩
  cases b with
  | eviction =>
      rw [hcb]
      exact ⟨_, _, _, rfl, .none (.inr hcb)⟩
  | read d =>
      have hone : 0 < Access.load.answers rep.result.callbacks := by
        rw [hcb]
        exact Nat.one_pos
      obtain ⟨r, pkt, hr, hhit, hcall⟩ :=
        (h.ok rep.cache).readCallback (hone.trans_le (hhas .load)) rep.cache d
      rw [hcb, List.foldlM_cons]
      simp only [Ruby.call, hcall]
      exact ⟨_, _, _, rfl, .read d r pkt hcb hr hhit⟩
  | write v =>
      have hone : 0 < Access.store.answers rep.result.callbacks := by
        rw [hcb]
        exact Nat.one_pos
      obtain ⟨r, success, locked, d', pkt, hr, hlock, hhit, hcall⟩ :=
        (h.ok rep.cache).writeCallback (hone.trans_le (hhas .store)) rep.cache data (w.lockOf rep)
      have hpresent := hline .store hone
      simp only [Ruby.lockOf] at hcall
      rw [hcb, List.foldlM_cons]
      simp only [Ruby.call, hpresent, hcall]
      exact ⟨_, _, _, rfl, .write v r d' pkt success locked hcb hr hlock hhit⟩

omit [DecidableEq C] [DecidableEq D] in
/-- What the callbacks leave in the tables. -/
theorem Called.has (h : w.Sound max) {rep : Report C D A n} {data : DataBlock n}
    {q : Sequencer A n} {locked : Bool} {done : List (Done C A n)}
    (hc : Called w rep data q locked done) :
    q.Ok w.sys.time ∧ q.outstandingCount ≤ (w.sequencer rep.cache).outstandingCount ∧
      ∀ (k : Access) a,
        q.has k a + (if rep.address = a then k.answers rep.result.callbacks else 0) =
          (w.sequencer rep.cache).has k a := by
  -- a callback of a kind takes one request of this kind out of the tables
  have hremove : ∀ {k r b}, ((w.sequencer rep.cache).table k).lookup rep.address = some r →
      rep.result.callbacks = [b] → b.access = some k →
      ((w.sequencer rep.cache).remove k rep.address).Ok w.sys.time ∧
        ((w.sequencer rep.cache).remove k rep.address).outstandingCount ≤
          (w.sequencer rep.cache).outstandingCount ∧
        ∀ (k' : Access) a, ((w.sequencer rep.cache).remove k rep.address).has k' a +
          (if rep.address = a then k'.answers rep.result.callbacks else 0) =
            (w.sequencer rep.cache).has k' a := by
    intro k r b hr hcb hb
    have hmem : rep.address ∈ (w.sequencer rep.cache).table k :=
      AList.lookup_isSome.1 (by simp [hr])
    have hone : (w.sequencer rep.cache).has k rep.address = 1 := if_pos hmem
    refine ⟨(h.ok rep.cache).remove (by omega), ?_, fun k' a => ?_⟩
    · cases k <;> simp [Sequencer.remove]
    · rw [Sequencer.has_remove, hcb]
      by_cases ha : rep.address = a
      · subst ha
        by_cases hk : k' = k
        · subst hk
          simp [Access.answers, hb, hone]
        · simp [Access.answers, hb, hk, Ne.symm hk]
      · simp [ha, Ne.symm ha]
  cases hc with
  | none hcb =>
      refine ⟨h.ok rep.cache, le_rfl, fun k a => ?_⟩
      rcases hcb with hcb | hcb <;> rw [hcb] <;> simp [Access.answers, Callback.access]
  | read d r pkt hcb hr hhit => exact hremove hr hcb rfl
  | write v r d' pkt success locked hcb hr hlock hhit => exact hremove hr hcb rfl

/-- A move of the protocol that issues nothing keeps the sequencers sound. -/
theorem Sound.ran (h : w.Sound max) {mv : Move C D A n cfg} {data : DataBlock n}
    {l : Option (Label C D A n cfg)} {done : List (Done C A n)}
    (hmv : ∀ c r, mv ≠ .issue c r) (hr : Ran w mv data w' l done) : w'.Sound max := by
  have hissue : ∀ k c a o, Label.issues k c a ((mv, o) : Label C D A n cfg) = 0 := by
    intro k c a o
    cases mv with
    | issue c r => exact absurd rfl (hmv c r)
    | _ => rfl
  cases hr with
  | quiet s' hs =>
      refine ⟨fun c => (h.ok c).mono (by rw [hs.time_eq]; omega), h.bound, fun k c a => ?_⟩
      have hbal := hs.balance k c a
      simp only [hissue, Label.answers] at hbal
      have := h.agree k c a
      simp only
      omega
  | calls s' rep q locked _ hs hcalls =>
      obtain ⟨_, _, _, hy, hcalled⟩ := h.calls_ok hs data
      cases hcalls.symm.trans hy
      obtain ⟨hok, hcount, hhas⟩ := hcalled.has h
      refine ⟨fun c => ?_, fun c => ?_, fun k c a => ?_⟩
      · have ht : w.sys.time ≤ s'.time := by
          rw [hs.time_eq]
          omega
        by_cases hc : c = rep.cache
        · subst hc
          simpa using hok.mono ht
        · simpa [hc] using (h.ok c).mono ht
      · by_cases hc : c = rep.cache
        · subst hc
          simpa using hcount.trans (h.bound rep.cache)
        · simpa [hc] using h.bound c
      · have hbal := hs.balance k c a
        have hag := h.agree k c a
        simp only [hissue, Label.answers] at hbal
        by_cases hc : c = rep.cache
        · subst hc
          have := hhas k a
          simp only [Function.update_self, true_and] at hbal ⊢
          omega
        · simp only [Function.update_of_ne hc, Ne.symm hc, false_and, if_false] at hbal ⊢
          omega

/-- **Every step keeps the sequencers sound.** -/
theorem Sound.exec (h : w.Sound max) {l : RubyLabel C D A n cfg} (hs : RubyStep max w l w')
    (hp : l.move.Supported) : w'.Sound max := by
  obtain ⟨mv, step, done⟩ := l
  cases hs.carried with
  | refused c pkt q status hq =>
      -- the sequencer notes that a request had to wait, but the tables stay as they are
      have hsame : (w.sequencer c).Same q := (h.ok c).refused hp hq
      refine ⟨fun c' => ?_, fun c' => ?_, fun k c' a => ?_⟩
      all_goals
        by_cases hc : c' = c
        · subst hc
          simp only [Function.update_self]
          first
          | exact (h.ok c').same hsame
          | exact hsame.2.trans_le (h.bound c')
          | rw [← h.agree, Sequencer.has, Sequencer.has, hsame.1]
        · simp only [Function.update_of_ne hc]
          first
          | exact h.ok c'
          | exact h.bound c'
          | exact h.agree k c' a
  | issued c pkt q status r s' hq hs' =>
      obtain ⟨hcount, hfree, k, type, rfl, hadd, hline, hkind, -⟩ := (h.ok c).issued hp hq
      have ht : w.sys.time ≤ s'.time := by
        rw [hs'.time_eq]
        omega
      refine ⟨fun c' => ?_, fun c' => ?_, fun k' c' a => ?_⟩
      · by_cases hc : c' = c
        · subst hc
          simpa using hadd.mono ht
        · simpa [hc] using (h.ok c').mono ht
      · by_cases hc : c' = c
        · subst hc
          cases k <;> simp [Sequencer.add] <;> omega
        · simpa [hc] using h.bound c'
      · have hbal := hs'.balance k' c' a
        have hag := h.agree k' c' a
        by_cases hc : c' = c
        · subst hc
          simp only [Function.update_self, Sequencer.has_add]
          by_cases ha : a = pkt.lineAddress
          · subst ha
            have := hfree k'
            by_cases hk : k' = k
            · subst hk
              simp only [Label.issues, Label.answers, hline, hkind, Access.one, and_self,
                if_true] at *
              omega
            · have hk' : k ≠ k' := Ne.symm hk
              simp [Label.issues, Label.answers, hline, hkind, Access.one, hk, hk'] at *
              omega
          · have ha' : pkt.lineAddress ≠ a := Ne.symm ha
            simp [Label.issues, Label.answers, hline, ha, ha'] at *
            omega
        · have hc' : c ≠ c' := Ne.symm hc
          simp [Label.issues, Label.answers, hc, hc'] at *
          omega
  | mandatory c victim r rest _ _ _ _ hr => exact h.ran (by simp) hr
  | response c m rest _ _ _ _ hr => exact h.ran (by simp) hr
  | network mv _ _ _ hmv hr =>
      refine h.ran ?_ hr
      rintro c r rfl
      cases hmv

/-- A fault of a move of the protocol with its callbacks is one of the protocol. -/
theorem Sound.run_fault (h : w.Sound max) {mv : Move C D A n cfg} {data : DataBlock n} {f : Fault}
    (hf : w.run mv data = .fault f) : w.sys.exec mv = .fault f := by
  unfold run at hf
  split at hf
  · cases hf
  · cases hf
  · next f' he =>
      cases hf
      exact he
  · cases hf
  · next s' rep hs =>
      obtain ⟨q, locked, done, hy, -⟩ := h.calls_ok hs data
      rw [hy] at hf
      cases hf

/-- A fault of a move is one of the protocol. -/
theorem Sound.exec_fault (h : w.Sound max) {mv : RubyMove C D A n cfg} (hp : mv.Supported)
    {f : Fault} (hf : w.exec max mv = .fault f) : ∃ mv', w.sys.exec mv' = .fault f := by
  cases mv with
  | makeRequest c pkt =>
      simp only [Ruby.exec] at hf
      rcases (h.ok c).makeRequest max hp with ⟨-, e⟩ | ⟨-, -, q', -, e⟩ |
        ⟨-, -, k, primary, secondary, -, -, -, -, e⟩
      all_goals
        rw [e] at hf
        cases hf
  | mandatory c victim =>
      simp only [Ruby.exec] at hf
      split at hf
      · cases hf
      · exact ⟨_, h.run_fault hf⟩
  | response c =>
      simp only [Ruby.exec] at hf
      split at hf
      · cases hf
      · exact ⟨_, h.run_fault hf⟩
  | network mv =>
      simp only [Ruby.exec] at hf
      split at hf
      · exact ⟨_, h.run_fault hf⟩
      · cases hf

omit [DecidableEq C] [DecidableEq D] in
/-- **How a packet is answered**, as the protocol has requests queued or pending. -/
theorem Sound.makeRequest_status (h : w.Sound max) (c : C) {pkt : Packet A n}
    (hp : pkt.Supported) :
    ∃ q status r, (w.sequencer c).makeRequest max pkt w.sys.time = .ok (q, status, r) ∧
      (status = .BufferFull ↔ (w.sequencer c).outstandingCount = max) ∧
      (status = .Aliased ↔ (w.sequencer c).outstandingCount ≠ max ∧
        ∃ k, 0 < w.sys.queued k c pkt.lineAddress + w.sys.pending k c pkt.lineAddress) ∧
      (status = .Issued ↔ (w.sequencer c).outstandingCount ≠ max ∧
        ∀ k, w.sys.queued k c pkt.lineAddress + w.sys.pending k c pkt.lineAddress = 0) ∧
      (status = .Issued ↔ r.isSome = true) := by
  have hbound := h.bound c
  -- what is queued or pending is in the tables, which the sequencer looks at
  simp only [← h.agree]
  rcases (h.ok c).makeRequest max hp with ⟨hmax', e⟩ | ⟨hcount, ⟨k, hk⟩, q', -, e⟩ |
    ⟨hcount, hfree, k, primary, secondary, -, -, -, -, e⟩
  · refine ⟨_, _, _, e, ?_, ?_, ?_, ?_⟩
    · simp only [true_iff]
      omega
    · simp only [reduceCtorEq, false_iff]
      omega
    · simp only [reduceCtorEq, false_iff]
      omega
    · simp
  · refine ⟨_, _, _, e, ?_, ?_, ?_, ?_⟩
    · simp only [reduceCtorEq, false_iff]
      omega
    · simp only [true_iff]
      exact ⟨by omega, k, hk⟩
    · simp only [reduceCtorEq, false_iff]
      exact fun hfree => hk.ne' (hfree.2 k)
    · simp
  · refine ⟨_, _, _, e, ?_, ?_, ?_, ?_⟩
    · simp only [reduceCtorEq, false_iff]
      omega
    · simp [hfree]
    · simp only [true_iff]
      exact ⟨by omega, hfree⟩
    · simp

end Ruby

theorem RubyRun.sound {max : ℤ} (hmax : 0 < max) {mem : A → DataBlock n}
    {ls : List (RubyLabel C D A n cfg)} {w : Ruby C D A n cfg} (h : RubyRun max mem ls w) :
    w.Sound max := by
  induction h with
  | start hw =>
      subst hw
      exact Ruby.Sound.init hmax mem
  | snoc _ hs ih => exact ih.exec hs.1 hs.2

/-- **The sequencers and the protocol agree**, in every state that the system with its sequencers
reaches on supported packets.  If a move fails, then because a controller fails: no assertion of a
sequencer is violated.  The counter of a sequencer is the number of requests in its tables, and
within its bound.  A request is in a table exactly while the protocol has it in a queue or is
working on it.  And a packet is refused exactly if as many requests are outstanding as may be, or
one of the same processor for the same block is in a queue or worked on; else it is issued, which
means that it is passed on to the protocol. -/
theorem sequencer_sound {max : ℤ} (hmax : 0 < max) {mem : A → DataBlock n}
    {ls : List (RubyLabel C D A n cfg)} {w : Ruby C D A n cfg} (h : RubyRun max mem ls w) :
    (∀ (mv : RubyMove C D A n cfg) f, mv.Supported → w.exec max mv = .fault f →
        ∃ mv', w.sys.exec mv' = .fault f) ∧
      (∀ c, (w.sequencer c).outstandingCount =
          (w.sequencer c).writeRequestTable.size + (w.sequencer c).readRequestTable.size ∧
        (w.sequencer c).outstandingCount ≤ max) ∧
      (∀ c a, (if a ∈ (w.sequencer c).readRequestTable then 1 else 0) =
          w.sys.queued .load c a + w.sys.pending .load c a ∧
        (if a ∈ (w.sequencer c).writeRequestTable then 1 else 0) =
          w.sys.queued .store c a + w.sys.pending .store c a) ∧
      ∀ c (pkt : Packet A n), pkt.Supported →
        ∃ q status r, (w.sequencer c).makeRequest max pkt w.sys.time = .ok (q, status, r) ∧
          (status = .BufferFull ↔ (w.sequencer c).outstandingCount = max) ∧
          (status = .Aliased ↔ (w.sequencer c).outstandingCount ≠ max ∧
            ∃ k, 0 < w.sys.queued k c pkt.lineAddress + w.sys.pending k c pkt.lineAddress) ∧
          (status = .Issued ↔ (w.sequencer c).outstandingCount ≠ max ∧
            ∀ k, w.sys.queued k c pkt.lineAddress + w.sys.pending k c pkt.lineAddress = 0) ∧
          (status = .Issued ↔ r.isSome = true) := by
  have hsound : w.Sound max := RubyRun.sound hmax h
  refine ⟨fun mv f hp hf => hsound.exec_fault hp hf, fun c => ?_, fun c a => ?_,
    fun c pkt hp => hsound.makeRequest_status c hp⟩
  · exact ⟨(hsound.ok c).count, hsound.bound c⟩
  · exact ⟨hsound.agree .load c a, hsound.agree .store c a⟩

end Agree

/-! ### A small system -/

/-- A packet for the byte of a block of the small system. -/
def bytePacket (isWrite isLLSC : Bool) (a : Fin 2) (byte : UInt8) : Packet (Fin 2) 1 where
  isRead := !isWrite
  isWrite := isWrite
  isInstFetch := false
  isLLSC := isLLSC
  isFlush := false
  lineAddress := a
  offset := 0
  data := [byte]
  fits := le_rfl

/-- The labels and the state that some moves of the small system with its sequencers lead to. -/
def rubyAfter (max : ℤ) (ms : List (RubyMove (Fin 4) (Fin 2) (Fin 2) 1 demo)) :
    List (RubyLabel (Fin 4) (Fin 2) (Fin 2) 1 demo) × Ruby (Fin 4) (Fin 2) (Fin 2) 1 demo :=
  ((Ruby.init demo fun _ => default).play max ms).getD ([], Ruby.init demo fun _ => default)

theorem run_rubyAfter (max : ℤ) (ms : List (RubyMove (Fin 4) (Fin 2) (Fin 2) 1 demo))
    (hP : ∀ mv ∈ ms, mv.Supported)
    (h : ((Ruby.init demo fun _ => default).play max ms).isSome = true) :
    RubyRun max (fun _ => default) (rubyAfter max ms).1 (rubyAfter max ms).2 := by
  obtain ⟨p, hp⟩ := Option.isSome_iff_exists.1 h
  have h₀ : RubyRun max (fun _ => default) []
      (Ruby.init demo fun _ => default : Ruby (Fin 4) (Fin 2) (Fin 2) 1 demo) := .start rfl
  rw [rubyAfter, hp]
  exact Ruby.play_run hP h₀ hp

/-- A processor asks for a block, and its request reaches the directory. -/
def rubyAsk (c : Fin 4) (pkt : Packet (Fin 2) 1) :
    List (RubyMove (Fin 4) (Fin 2) (Fin 2) 1 demo) :=
  [.makeRequest c pkt, .mandatory c (0 : Fin 2), .network (.deliverRequest c pkt.lineAddress),
    .network (.request pkt.lineAddress)]

/-- The directory fetches a block from memory, and the data reaches the cache that asked for it. -/
def rubyFetch (c : Fin 4) (a : Fin 2) : List (RubyMove (Fin 4) (Fin 2) (Fin 2) 1 demo) :=
  [.network (.memAnswer a 0), .network (.memory a),
    .network (.deliverResponse (.Directory a) (.L1Cache c)), .response c]

/-- While a store is pending, another packet of the same processor for its block is refused, and one
for another block is issued. -/
theorem sequencer_sound_demo :
    let w := (rubyAfter 2 (rubyAsk 1 (bytePacket true false 0 7))).2
    w.sys.pending .store 1 0 = 1 ∧
      (∃ q status r, (w.sequencer 1).makeRequest 2 (bytePacket false false 0 0) w.sys.time =
          .ok (q, status, r) ∧ status = .Aliased) ∧
      ∃ q status r, (w.sequencer 1).makeRequest 2 (bytePacket false false 1 0) w.sys.time =
          .ok (q, status, r) ∧ status = .Issued := by
  have hrun := run_rubyAfter 2 (rubyAsk 1 (bytePacket true false 0 7))
    (by simp [rubyAsk, RubyMove.Supported, Packet.Supported, bytePacket]) (by decide +kernel)
  have hpending :
      (rubyAfter 2 (rubyAsk 1 (bytePacket true false 0 7))).2.sys.pending .store 1 0 = 1 := by
    decide +kernel
  obtain ⟨q, status, r, hq, -, haliased, -⟩ := (sequencer_sound (by decide) hrun).2.2.2 1
    (bytePacket false false 0 0) (by decide)
  obtain ⟨q', status', r', hq', -, -, hissued, -⟩ := (sequencer_sound (by decide) hrun).2.2.2 1
    (bytePacket false false 1 0) (by decide)
  refine ⟨hpending, ⟨q, status, r, hq, haliased.2 ⟨by decide +kernel, .store, ?_⟩⟩,
    q', status', r', hq', hissued.2 ⟨by decide +kernel, ?_⟩⟩
  · change 0 < _ + (rubyAfter 2 (rubyAsk 1 (bytePacket true false 0 7))).2.sys.pending .store 1 0
    omega
  · rintro (_ | _) <;> decide +kernel

end Msi
