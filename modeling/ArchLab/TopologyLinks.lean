/-
**The links of a topology, and the routing tables of its switches.**

`Topology::createLinks` numbers the vertices: first the queues into the network, one for each node,
then the queues out of it, then the switches.  Each link of the configuration gets a set of nodes,
to which it is the first link of a shortest path, and connects ports of the switches
(`SimpleNetwork::makeInLink`, `makeOutLink`, `makeInternalLink`).  The number of a switch is checked
when a link is added, but one too many is let through; it is checked again by `makeOutLink` only.

An absent link has weight `INFINITE_LATENCY`, which is a number like any other.  So the tables are
right only if all distances that matter are below that; then a message that follows them comes
closer to its destination with every hop.

Main definitions:

* `Net.Topology`, `Net.Topology.create` — the links of a configuration;
* `Net.Topology.createLinks` — the ports of the switches, and their routing tables;
* `Net.Topology.Connected` — what is asked of the links.

Main results:

* `Net.Topology.create_ok` — links connect switches, and nodes with switches;
* `Net.createLinks_sound` — **the routing tables of a connected topology lead to all nodes**, as the
  network needs it.
-/

import ArchLab.NetworkRelay
import ArchLab.Topology

set_option relaxedAutoImplicit false
set_option autoImplicit false

namespace Net

open Refine

def INFINITE_LATENCY : ℕ := 10000

/-- A link of the configuration. -/
structure BasicLink where
  latency : ℕ
  weight : ℕ
  bwMultiplier : ℕ
  deriving DecidableEq, Repr

/-- A `Topology`: the numbers of nodes and switches, and the map of links with its keys. -/
structure Topology where
  nodes : ℕ
  numberOfSwitches : ℕ
  keys : List (ℕ × ℕ)
  linkMap : ℕ → ℕ → Option BasicLink

namespace Topology

def addLink (t : Topology) (src dest : ℕ) (link : BasicLink) : Except Fault Topology :=
  if src ≤ t.numberOfSwitches + t.nodes + t.nodes ∧
      dest ≤ t.numberOfSwitches + t.nodes + t.nodes then
    .ok { t with
      keys := t.keys ++ [(src, dest)]
      linkMap := Function.update t.linkMap src (Function.update (t.linkMap src) dest (some link)) }
  else .error .assertion

/-- A node is connected to a switch, in both directions. -/
def addExtLink (t : Topology) (x : ℕ × ℕ × BasicLink) : Except Fault Topology := do
  let (node, router, link) := x
  let t ← t.addLink node (router + 2 * t.nodes) link
  t.addLink (router + 2 * t.nodes) (node + t.nodes) link

/-- Two switches are connected, in both directions. -/
def addIntLink (t : Topology) (x : ℕ × ℕ × BasicLink) : Except Fault Topology := do
  let (a, b, link) := x
  let t ← t.addLink (a + 2 * t.nodes) (b + 2 * t.nodes) link
  t.addLink (b + 2 * t.nodes) (a + 2 * t.nodes) link

/-- The constructor, for the links between nodes and switches and those between switches. -/
def create (nodes switches : ℕ) (extLinks intLinks : List (ℕ × ℕ × BasicLink)) :
    Except Fault Topology := do
  if nodes ≤ 1 then .error .assertion
  else if nodes ≠ extLinks.length then .error .fatal
  else
    let t ← extLinks.foldlM addExtLink ⟨nodes, switches, [], fun _ _ => none⟩
    intLinks.foldlM addIntLink t

variable (t : Topology)

def maxSwitchId : ℕ := t.keys.foldl (fun x key => max (max x key.1) key.2) 0

/-- The vertices, up to the largest one of a link, index the matrices. -/
abbrev Matrix : Type := Fin (t.maxSwitchId + 1) → Fin (t.maxSwitchId + 1) → ℕ

/-- `topology_weights` -/
def weight (i j : ℕ) : ℕ :=
  match t.linkMap i j with
  | some link => link.weight
  | none => if i = j then 0 else INFINITE_LATENCY

/-- `m_component_latencies`, before the distances are computed. -/
def latency (i j : ℕ) : BitVec 32 :=
  match t.linkMap i j with
  | some link => .ofNat 32 link.latency
  | none => -1

/-- The matrices of `createLinks`, before the distances are computed. -/
def tables : Tables (t.maxSwitchId + 1) where
  currentDist i j := t.weight i j
  latencies i j := t.latency i j
  interSwitches _ _ := 0

/-- `shortest_path_to_node`: the nodes to which the link is the first one of a shortest path. -/
def shortestPathToNode {n : ℕ} (dist : Fin n → Fin n → ℕ) (src next : Fin n) :
    Except Fault (Finset ℕ) :=
  (List.range t.nodes).foldlM (fun result d =>
    if h : t.nodes + d < n then do
      let sum ← checkInt (t.weight src next + dist next ⟨t.nodes + d, h⟩)
      return if sum = dist src ⟨t.nodes + d, h⟩ then insert d result else result
    else .error .outOfBounds) ∅

end Topology

/-! ### The ports of the switches -/

/-- A switch gets an in port, and becomes the consumer of what arrives there. -/
def Wiring.addInPort (w : Wiring) (s : ℕ) (p : Port) : Wiring :=
  { w with
    inPorts := Function.update w.inPorts s (w.inPorts s ++ [p])
    consumer := Function.update w.consumer p (some s) }

/-- A switch gets an out port; the throttle behind it asserts that there is some bandwidth. -/
def Wiring.addOutPort (w : Wiring) (s : ℕ) (o : OutPort) : Except Fault Wiring :=
  if o.linkBandwidthMultiplier = 0 then .error .assertion
  else .ok { w with outPorts := Function.update w.outPorts s (w.outPorts s ++ [o]) }

/-- A link to be made. -/
structure NewLink where
  src : ℕ
  dest : ℕ
  routingTableEntry : Finset ℕ
  link : BasicLink

/-- The out port that leads to `p`. -/
def NewLink.outPort (l : NewLink) (p : Port) : OutPort :=
  ⟨p, l.routingTableEntry, l.link.latency, l.link.bwMultiplier⟩

/-- From a node to a switch. -/
def makeInLink (nodes switches : ℕ) (w : Wiring) (src dest : ℕ) : Except Fault Wiring :=
  if nodes ≤ src then .error .assertion
  else if switches ≤ dest then .error .outOfBounds
  else .ok (w.addInPort dest (.toNet src))

/-- From a switch to a node. -/
def makeOutLink (nodes switches : ℕ) (w : Wiring) (l : NewLink) (src dest : ℕ) :
    Except Fault Wiring :=
  if nodes ≤ dest ∨ switches ≤ src then .error .assertion
  else w.addOutPort src (l.outPort (.fromNet dest))

/-- From a switch to a switch. -/
def makeInternalLink (switches : ℕ) (w : Wiring) (l : NewLink) (src dest : ℕ) :
    Except Fault Wiring :=
  if switches ≤ dest ∨ switches ≤ src then .error .outOfBounds
  else (w.addInPort dest (.link src dest)).addOutPort src (l.outPort (.link src dest))

/-- `makeLink`: a link from a node, to a node, or between switches. -/
def makeLink (nodes switches : ℕ) (w : Wiring) (l : NewLink) : Except Fault Wiring :=
  if l.src < 2 * nodes ∧ l.dest < 2 * nodes then .error .assertion
  else if l.src < nodes then makeInLink nodes switches w l.src (l.dest - 2 * nodes)
  else if l.dest < 2 * nodes then
    if l.dest < nodes then .error .assertion
    else makeOutLink nodes switches w l (l.src - 2 * nodes) (l.dest - nodes)
  else if l.src < 2 * nodes then .error .assertion
  else makeInternalLink switches w l (l.src - 2 * nodes) (l.dest - 2 * nodes)

/-- The body of the loops of `createLinks`. -/
def Topology.connect (t : Topology) (dist : t.Matrix) (w : Wiring)
    (p : Fin (t.maxSwitchId + 1) × Fin (t.maxSwitchId + 1)) : Except Fault Wiring :=
  match t.linkMap p.1 p.2 with
  | none => .ok w
  | some link =>
      if 0 < t.weight p.1 p.2 ∧ t.weight p.1 p.2 ≠ INFINITE_LATENCY then do
        let routingTableEntry ← t.shortestPathToNode dist p.1 p.2
        makeLink t.nodes t.numberOfSwitches w ⟨p.1, p.2, routingTableEntry, link⟩
      else .ok w

def Topology.createLinks (t : Topology) (fuel : ℕ) : Except Fault Wiring := do
  let tables ← extendShortestPath fuel t.tables
  (pairs (t.maxSwitchId + 1)).foldlM (t.connect tables.currentDist)
    ⟨fun _ => [], fun _ => [], fun _ => none⟩

/-! ### What the links connect -/

/-- The link connects switch `s` with what comes in at port `p`. -/
def NewLink.Enters (nodes : ℕ) (l : NewLink) (s : ℕ) (p : Port) : Prop :=
  2 * nodes ≤ l.dest ∧ s = l.dest - 2 * nodes ∧ ((l.src < nodes ∧ p = .toNet l.src) ∨
    (2 * nodes ≤ l.src ∧ p = .link (l.src - 2 * nodes) (l.dest - 2 * nodes)))

/-- The link leaves switch `s` by out port `o`. -/
def NewLink.Leaves (nodes : ℕ) (l : NewLink) (s : ℕ) (o : OutPort) : Prop :=
  2 * nodes ≤ l.src ∧ s = l.src - 2 * nodes ∧
    ((l.dest < 2 * nodes ∧ o = l.outPort (.fromNet (l.dest - nodes))) ∨
      (2 * nodes ≤ l.dest ∧ o = l.outPort (.link (l.src - 2 * nodes) (l.dest - 2 * nodes))))

/-- The link leads from a node to a switch, or from a switch to a node or a switch. -/
def Proper (nodes switches src dest : ℕ) : Prop :=
  dest < 2 * nodes + switches ∧ ((src < nodes ∧ 2 * nodes ≤ dest) ∨
    (2 * nodes ≤ src ∧ src < 2 * nodes + switches ∧ nodes ≤ dest))

/-- What one link adds to the ports. -/
structure Adds (w w' : Wiring) (enters : ℕ → Port → Prop) (leaves : ℕ → OutPort → Prop) : Prop where
  inPorts : ∀ s p, p ∈ w'.inPorts s ↔ p ∈ w.inPorts s ∨ enters s p
  outPorts : ∀ s o, o ∈ w'.outPorts s ↔ o ∈ w.outPorts s ∨ leaves s o
  consumer : ∀ s p, w'.consumer p = some s → w.consumer p = some s ∨ enters s p
  consumed : ∀ p, ((∃ s, w.consumer p = some s) ∨ ∃ s, enters s p) → ∃ s, w'.consumer p = some s

theorem Adds.addInPort (w : Wiring) (s : ℕ) (p : Port) :
    Adds w (w.addInPort s p) (fun s' p' => s' = s ∧ p' = p) fun _ _ => False := by
  refine ⟨fun s' p' => ?_, fun _ _ => (or_false _).symm ▸ Iff.rfl, fun s' p' h => ?_,
    fun p' h => ?_⟩
  · by_cases hs : s' = s
    · subst hs
      simp [Wiring.addInPort]
    · simp [Wiring.addInPort, hs]
  · simp only [Wiring.addInPort, Function.update_apply] at h
    split at h
    · next hp => exact .inr ⟨(Option.some.inj h).symm, hp⟩
    · exact .inl h
  · simp only [Wiring.addInPort, Function.update_apply]
    split
    · exact ⟨s, rfl⟩
    · next hp =>
        rcases h with h | ⟨_, -, hp'⟩
        · exact h
        · exact absurd hp' hp

theorem Adds.addOutPort (w : Wiring) (s : ℕ) {o : OutPort} (h : 0 < o.linkBandwidthMultiplier) :
    ∃ w', w.addOutPort s o = .ok w' ∧
      Adds w w' (fun _ _ => False) fun s' o' => s' = s ∧ o' = o := by
  refine ⟨_, if_neg h.ne', fun _ _ => (or_false _).symm ▸ Iff.rfl, fun s' o' => ?_,
    fun _ _ h => .inl h, fun p h => ?_⟩
  · by_cases hs : s' = s
    · subst hs
      simp
    · simp [hs]
  · rcases h with h | ⟨_, h⟩
    · exact h
    · exact h.elim

theorem Adds.trans {w w₁ w₂ : Wiring} {e e' : ℕ → Port → Prop} {l l' : ℕ → OutPort → Prop}
    (h : Adds w w₁ e l) (h' : Adds w₁ w₂ e' l') :
    Adds w w₂ (fun s p => e s p ∨ e' s p) fun s o => l s o ∨ l' s o where
  inPorts s p := by rw [h'.inPorts, h.inPorts, or_assoc]
  outPorts s o := by rw [h'.outPorts, h.outPorts, or_assoc]
  consumer s p hc := by
    rcases h'.consumer s p hc with hc | hc
    · exact (h.consumer s p hc).imp_right .inl
    · exact .inr (.inr hc)
  consumed p hc := by
    refine h'.consumed p ?_
    rcases hc with hc | ⟨s, hc | hc⟩
    · exact .inl (h.consumed p (.inl hc))
    · exact .inl (h.consumed p (.inr ⟨s, hc⟩))
    · exact .inr ⟨s, hc⟩

theorem Adds.congr {w w' : Wiring} {e e' : ℕ → Port → Prop} {l l' : ℕ → OutPort → Prop}
    (h : Adds w w' e l) (he : ∀ s p, e s p ↔ e' s p) (hl : ∀ s o, l s o ↔ l' s o) :
    Adds w w' e' l' := by
  obtain rfl : e = e' := funext fun s => funext fun p => propext (he s p)
  obtain rfl : l = l' := funext fun s => funext fun o => propext (hl s o)
  exact h

/-- **A link is made.** -/
theorem makeLink_ok {nodes switches : ℕ} (w : Wiring) {l : NewLink}
    (hl : Proper nodes switches l.src l.dest) (hbw : 0 < l.link.bwMultiplier) :
    ∃ w', makeLink nodes switches w l = .ok w' ∧
      Adds w w' (l.Enters nodes) (l.Leaves nodes) := by
  unfold makeLink
  rw [if_neg (by unfold Proper at hl; omega)]
  obtain ⟨hswitch, ⟨hsrc, hdest⟩ | ⟨hsrc, hsrc', hdest⟩⟩ := hl
  · rw [if_pos hsrc, makeInLink, if_neg (by omega), if_neg (by omega)]
    have h₁ : ¬2 * nodes ≤ l.src := by omega
    refine ⟨_, rfl, (Adds.addInPort w _ _).congr (fun s p => ?_) fun s o => ?_⟩
    · simp [NewLink.Enters, hsrc, hdest, h₁]
    · simp [NewLink.Leaves, h₁]
  · rw [if_neg (by omega)]
    by_cases hout : l.dest < 2 * nodes
    · rw [if_pos hout, if_neg (by omega), makeOutLink, if_neg (by omega)]
      have h₁ : ¬2 * nodes ≤ l.dest := by omega
      obtain ⟨w', hw', h'⟩ := Adds.addOutPort w (l.src - 2 * nodes)
        (o := l.outPort (.fromNet (l.dest - nodes))) hbw
      refine ⟨w', hw', h'.congr (fun s p => ?_) fun s o => ?_⟩
      · simp [NewLink.Enters, h₁]
      · simp [NewLink.Leaves, hsrc, hout, h₁]
    · rw [if_neg hout, if_neg (by omega), makeInternalLink, if_neg (by omega)]
      have h₁ : ¬l.src < nodes := by omega
      obtain ⟨w', hw', h'⟩ := Adds.addOutPort
        (w.addInPort (l.dest - 2 * nodes) (.link (l.src - 2 * nodes) (l.dest - 2 * nodes)))
        (l.src - 2 * nodes)
        (o := l.outPort (.link (l.src - 2 * nodes) (l.dest - 2 * nodes))) hbw
      refine ⟨w', hw', ((Adds.addInPort w _ _).trans h').congr (fun s p => ?_) fun s o => ?_⟩
      · simp [NewLink.Enters, hsrc, Nat.le_of_not_lt hout, h₁]
      · simp [NewLink.Leaves, hsrc, Nat.le_of_not_lt hout, hout]

/-- **All links are made**, one after the other. -/
theorem foldlM_makeLink {nodes switches : ℕ} (w : Wiring) (ls : List NewLink)
    (hls : ∀ l ∈ ls, Proper nodes switches l.src l.dest ∧ 0 < l.link.bwMultiplier) :
    ∃ w', ls.foldlM (makeLink nodes switches) w = .ok w' ∧
      Adds w w' (fun s p => ∃ l ∈ ls, l.Enters nodes s p)
        fun s o => ∃ l ∈ ls, l.Leaves nodes s o := by
  induction ls generalizing w with
  | nil =>
      refine ⟨w, rfl, ?_, ?_, ?_, ?_⟩
      · simp
      · simp
      · exact fun _ _ => .inl
      · simp
  | cons l ls ih =>
      obtain ⟨hl, hls⟩ := List.forall_mem_cons.1 hls
      obtain ⟨w₁, hw₁, h₁⟩ := makeLink_ok w hl.1 hl.2
      obtain ⟨w₂, hw₂, h₂⟩ := ih w₁ hls
      refine ⟨w₂, ?_, (h₁.trans h₂).congr (fun s p => ?_) fun s o => ?_⟩
      · rw [List.foldlM_cons]
        exact bind_ok.2 ⟨w₁, hw₁, hw₂⟩
      · rw [List.exists_mem_cons_iff]
      · rw [List.exists_mem_cons_iff]

/-! ### The routing tables -/

namespace Topology

/-- All links are in the list of keys, and lead between switches, or between a node and a switch. -/
def Keyed (t : Topology) : Prop :=
  ∀ i j link, t.linkMap i j = some link →
    (i, j) ∈ t.keys ∧ Proper t.nodes t.numberOfSwitches i j

/-- The links of a topology with these numbers of nodes and switches have been made so far. -/
structure Made (nodes switches : ℕ) (t : Topology) : Prop where
  nodes : t.nodes = nodes
  numberOfSwitches : t.numberOfSwitches = switches
  keyed : t.Keyed

theorem Made.addLink {nodes switches : ℕ} {t : Topology} (h : t.Made nodes switches)
    (src dest : ℕ) (link : BasicLink) (hp : Proper nodes switches src dest) :
    ∃ t', t.addLink src dest link = .ok t' ∧ t'.Made nodes switches := by
  obtain ⟨rfl, rfl, hkeyed⟩ := h
  refine ⟨_, if_pos ?_, rfl, rfl, fun i j link' hl => ?_⟩
  · unfold Proper at hp
    omega
  · by_cases hij : (i, j) = (src, dest)
    · cases hij
      exact ⟨List.mem_append_right _ (List.mem_singleton_self _), hp⟩
    · have hold : t.linkMap i j = some link' := by
        by_cases hi : i = src
        · subst hi
          have hj : j ≠ dest := fun hj => hij (by rw [hj])
          simpa [Function.update_of_ne hj] using hl
        · simpa [Function.update_of_ne hi] using hl
      exact ⟨List.mem_append_left _ (hkeyed i j link' hold).1, (hkeyed i j link' hold).2⟩

theorem Made.addExtLink {nodes switches node router : ℕ} {t : Topology}
    (h : t.Made nodes switches) (hnode : node < nodes) (hrouter : router < switches)
    (link : BasicLink) :
    ∃ t', t.addExtLink (node, router, link) = .ok t' ∧ t'.Made nodes switches := by
  have hn := h.nodes
  obtain ⟨t₁, he₁, h₁⟩ := h.addLink node (router + 2 * t.nodes) link
    ⟨by omega, .inl ⟨by omega, by omega⟩⟩
  have hn₁ := h₁.nodes
  obtain ⟨t₂, he₂, h₂⟩ := h₁.addLink (router + 2 * t₁.nodes) (node + t₁.nodes) link
    ⟨by omega, .inr ⟨by omega, by omega, by omega⟩⟩
  exact ⟨t₂, bind_ok.2 ⟨t₁, he₁, he₂⟩, h₂⟩

theorem Made.addIntLink {nodes switches a b : ℕ} {t : Topology} (h : t.Made nodes switches)
    (ha : a < switches) (hb : b < switches) (link : BasicLink) :
    ∃ t', t.addIntLink (a, b, link) = .ok t' ∧ t'.Made nodes switches := by
  have hn := h.nodes
  obtain ⟨t₁, he₁, h₁⟩ := h.addLink (a + 2 * t.nodes) (b + 2 * t.nodes) link
    ⟨by omega, .inr ⟨by omega, by omega, by omega⟩⟩
  have hn₁ := h₁.nodes
  obtain ⟨t₂, he₂, h₂⟩ := h₁.addLink (b + 2 * t₁.nodes) (a + 2 * t₁.nodes) link
    ⟨by omega, .inr ⟨by omega, by omega, by omega⟩⟩
  exact ⟨t₂, bind_ok.2 ⟨t₁, he₁, he₂⟩, h₂⟩

/-- **The constructor** makes links between switches, and between nodes and switches, if there is a
link for each node and the numbers of the nodes and switches are in range. -/
theorem create_ok {nodes switches : ℕ} {extLinks intLinks : List (ℕ × ℕ × BasicLink)}
    (hnodes : 1 < nodes) (hlen : nodes = extLinks.length)
    (hext : ∀ x ∈ extLinks, x.1 < nodes ∧ x.2.1 < switches)
    (hint : ∀ x ∈ intLinks, x.1 < switches ∧ x.2.1 < switches) :
    ∃ t, create nodes switches extLinks intLinks = .ok t ∧ t.Made nodes switches := by
  unfold create
  rw [if_neg (by omega), if_neg (not_not.2 hlen)]
  obtain ⟨t₁, hfirst, h₁⟩ : ∃ t₁, extLinks.foldlM addExtLink
      ⟨nodes, switches, [], fun _ _ => none⟩ = .ok t₁ ∧ t₁.Made nodes switches := by
    refine foldlM_exists ?_ ⟨rfl, rfl, nofun⟩
    intro x hx t h
    exact h.addExtLink (hext x hx).1 (hext x hx).2 x.2.2
  obtain ⟨t₂, hsecond, h₂⟩ : ∃ t₂, intLinks.foldlM addIntLink t₁ = .ok t₂ ∧
      t₂.Made nodes switches := by
    refine foldlM_exists ?_ h₁
    intro x hx t h
    exact h.addIntLink (hint x hx).1 (hint x hx).2 x.2.2
  exact ⟨t₂, bind_ok.2 ⟨t₁, hfirst, hsecond⟩, h₂⟩

/-- What is asked of the links: they have positive weights below `INFINITE_LATENCY`, and positive
latencies and bandwidths, a switch has none to itself, every node is connected to one switch, in
both directions, and from every switch that has links there is a way to every node, shorter than
`INFINITE_LATENCY`. -/
structure Connected (t : Topology) : Prop where
  link : ∀ i j link, t.linkMap i j = some link → i ≠ j ∧ 0 < link.weight ∧
    link.weight < INFINITE_LATENCY ∧ 0 < link.latency ∧ 0 < link.bwMultiplier
  attached : ∀ a < t.nodes, ∃ s link, t.linkMap a (s + 2 * t.nodes) = some link
  inUnique : ∀ a < t.nodes, ∀ j j' link link', t.linkMap a j = some link →
    t.linkMap a j' = some link' → j = j'
  outUnique : ∀ j < 2 * t.nodes, ∀ i i' link link', t.linkMap i j = some link →
    t.linkMap i' j = some link' → i = i'
  way : ∀ i j : Fin (t.maxSwitchId + 1), 2 * t.nodes ≤ i.1 →
    (t.linkMap i j ≠ none ∨ t.linkMap j i ≠ none) → ∀ d < t.nodes,
    ∃ h : t.nodes + d < t.maxSwitchId + 1, ∃ vs, Walks.Goes i ⟨t.nodes + d, h⟩ vs ∧
      Walks.cost (fun i j : Fin (t.maxSwitchId + 1) => t.weight i j) i vs < INFINITE_LATENCY

/-- A topology that has been created, and is connected. -/
structure Usable (t : Topology) : Prop extends Connected t where
  key : t.Keyed

variable {t : Topology}

theorem le_foldl_max (keys : List (ℕ × ℕ)) (x : ℕ) :
    x ≤ keys.foldl (fun x key => max (max x key.1) key.2) x ∧ ∀ key ∈ keys,
      key.1 ≤ keys.foldl (fun x key => max (max x key.1) key.2) x ∧
      key.2 ≤ keys.foldl (fun x key => max (max x key.1) key.2) x := by
  induction keys generalizing x with
  | nil => simp
  | cons key keys ih =>
      obtain ⟨hx, hkeys⟩ := ih (max (max x key.1) key.2)
      rw [List.foldl_cons, List.forall_mem_cons]
      exact ⟨by omega, ⟨by omega, by omega⟩, hkeys⟩

/-- The ends of a link are vertices. -/
theorem Usable.lt (h : t.Usable) {i j : ℕ} {link : BasicLink}
    (hl : t.linkMap i j = some link) : i < t.maxSwitchId + 1 ∧ j < t.maxSwitchId + 1 := by
  have hkey := (le_foldl_max t.keys 0).2 _ (h.key i j link hl).1
  exact ⟨Nat.lt_succ_of_le hkey.1, Nat.lt_succ_of_le hkey.2⟩

theorem weight_of_link {i j : ℕ} {link : BasicLink} (hl : t.linkMap i j = some link) :
    t.weight i j = link.weight := by
  rw [weight, hl]

/-- Without a link, there is no way but to stay. -/
theorem weight_of_none {i j : ℕ} (hl : t.linkMap i j = none) :
    t.weight i j = if i = j then 0 else INFINITE_LATENCY := by
  rw [weight, hl]

theorem Usable.weight_eq_zero (h : t.Usable) (i j : ℕ) : t.weight i j = 0 ↔ i = j := by
  cases hl : t.linkMap i j with
  | none =>
      rw [weight_of_none hl]
      split
      · next hij => simp [hij]
      · next hij => simp [hij, INFINITE_LATENCY]
  | some link =>
      obtain ⟨hne, hpos, -⟩ := h.link i j link hl
      rw [weight_of_link hl]
      exact ⟨fun h0 => absurd h0 hpos.ne', fun hij => absurd hij hne⟩

/-- An edge that leads on and is not too long is a link. -/
theorem exists_link_of_weight {i j : ℕ} (hpos : 0 < t.weight i j)
    (hlt : t.weight i j < INFINITE_LATENCY) : ∃ link, t.linkMap i j = some link := by
  cases hl : t.linkMap i j with
  | some link => exact ⟨link, rfl⟩
  | none =>
      rw [weight_of_none hl] at hpos hlt
      split at hpos
      · exact absurd hpos (Nat.lt_irrefl 0)
      · next hij =>
          rw [if_neg hij] at hlt
          exact absurd hlt (Nat.lt_irrefl _)

theorem Usable.weight_le (h : t.Usable) (i j : ℕ) : t.weight i j ≤ INFINITE_LATENCY := by
  cases hl : t.linkMap i j with
  | none =>
      rw [weight_of_none hl]
      split
      · exact Nat.zero_le _
      · exact le_rfl
  | some link =>
      obtain ⟨-, -, hlt, -⟩ := h.link i j link hl
      rw [weight_of_link hl]
      exact hlt.le

/-- The distances that `shortest_path` computes. -/
structure Distances (t : Topology) (dist : t.Matrix) : Prop where
  closed : Walks.Closed dist
  le : ∀ i j, dist i j ≤ t.weight i j
  walk : ∀ i j, ∃ vs, Walks.Goes i j vs ∧
    Walks.cost (fun i j : Fin (t.maxSwitchId + 1) => t.weight i j) i vs = dist i j

variable {dist : t.Matrix} {i j : Fin (t.maxSwitchId + 1)}

/-- There is a first edge on the way to another vertex. -/
theorem Distances.exists_first (hd : t.Distances dist) (h : t.Usable) (hne : i ≠ j) :
    ∃ v : Fin (t.maxSwitchId + 1), 0 < t.weight i v ∧ t.weight i v + dist v j = dist i j := by
  obtain ⟨vs, hvs, hcost⟩ := hd.walk i j
  refine Walks.exists_first hd.closed hd.le (fun i j => ?_) hvs hne hcost
  rw [h.weight_eq_zero]
  exact Fin.val_inj

/-- All nodes are close to a switch that has links. -/
theorem Distances.lt (hd : t.Distances dist) (h : t.Usable) (hi : 2 * t.nodes ≤ i.1)
    (hlink : t.linkMap i j ≠ none ∨ t.linkMap j i ≠ none) {d : ℕ} (hdn : d < t.nodes) :
    ∃ hv : t.nodes + d < t.maxSwitchId + 1, dist i ⟨t.nodes + d, hv⟩ < INFINITE_LATENCY := by
  obtain ⟨hv, vs, hvs, hcost⟩ := h.way i j hi hlink d hdn
  exact ⟨hv, (Walks.le_cost hd.closed hd.le hvs).trans_lt hcost⟩

/-- The queue out of the network to a node leads nowhere else. -/
theorem Distances.le_of_out (hd : t.Distances dist) (h : t.Usable) (hi : t.nodes ≤ i.1)
    (hi' : i.1 < 2 * t.nodes) (hne : i ≠ j) : INFINITE_LATENCY ≤ dist i j := by
  obtain ⟨v, hpos, heq⟩ := hd.exists_first h hne
  by_contra hlt
  obtain ⟨link, hl⟩ := exists_link_of_weight (t := t) (i := i) (j := v) hpos (by omega)
  have hproper := (h.key _ _ _ hl).2
  unfold Proper at hproper
  omega

/-- The nodes to which the link from `src` to `next` is the first one of a shortest path. -/
def nearer (t : Topology) {n : ℕ} (dist : Fin n → Fin n → ℕ) (src next : Fin n) : Finset ℕ :=
  (Finset.range t.nodes).filter fun d =>
    ∃ h : t.nodes + d < n, t.weight src next + dist next ⟨t.nodes + d, h⟩ =
      dist src ⟨t.nodes + d, h⟩

/-- **The loop over the nodes**: all of them are vertices, and no sum is too large. -/
theorem Distances.shortestPathToNode_ok (hd : t.Distances dist) (h : t.Usable)
    (i j : Fin (t.maxSwitchId + 1)) :
    t.shortestPathToNode dist i j = .ok (t.nearer dist i j) := by
  -- after some rounds, the nodes so far have been looked at
  suffices hloop : ∀ m ≤ t.nodes, (List.range m).foldlM (fun (result : Finset ℕ) d =>
      if hv : t.nodes + d < t.maxSwitchId + 1 then do
        let sum ← checkInt (t.weight i j + dist j ⟨t.nodes + d, hv⟩)
        return if sum = dist i ⟨t.nodes + d, hv⟩ then insert d result else result
      else .error .outOfBounds) ∅ = .ok ((Finset.range m).filter fun d =>
        ∃ hv : t.nodes + d < t.maxSwitchId + 1, t.weight i j + dist j ⟨t.nodes + d, hv⟩ =
          dist i ⟨t.nodes + d, hv⟩) from hloop t.nodes le_rfl
  intro m hm
  induction m with
  | zero => rfl
  | succ m ih =>
      obtain ⟨s, link, hlink⟩ := h.attached m hm
      have hvertex := (h.lt hlink).2
      have hv : t.nodes + m < t.maxSwitchId + 1 := by omega
      have hsum : t.weight i j + dist j ⟨t.nodes + m, hv⟩ < 2 ^ 31 := by
        have h₁ := h.weight_le i j
        have h₂ := (hd.le j ⟨t.nodes + m, hv⟩).trans (h.weight_le _ _)
        unfold INFINITE_LATENCY at h₁ h₂
        omega
      rw [List.range_succ, List.foldlM_append, ih (Nat.le_of_succ_le hm)]
      refine bind_ok.2 ⟨_, rfl, ?_⟩
      rw [List.foldlM_cons]
      refine bind_ok.2 ⟨_, ?_, rfl⟩
      refine (dif_pos hv).trans (bind_ok.2 ⟨_, if_pos hsum, ?_⟩)
      rw [Finset.range_add_one, Finset.filter_insert]
      by_cases heq : t.weight i j + dist j ⟨t.nodes + m, hv⟩ = dist i ⟨t.nodes + m, hv⟩
      · rw [if_pos heq, if_pos ⟨hv, heq⟩]
        rfl
      · rw [if_neg heq, if_neg fun ⟨_, he⟩ => heq he]
        rfl

/-- The link that `createLinks` makes for a pair of vertices. -/
def newLink (t : Topology) (dist : t.Matrix)
    (p : Fin (t.maxSwitchId + 1) × Fin (t.maxSwitchId + 1)) : Option NewLink :=
  (t.linkMap p.1 p.2).bind fun link =>
    if 0 < t.weight p.1 p.2 ∧ t.weight p.1 p.2 ≠ INFINITE_LATENCY then
      some ⟨p.1, p.2, t.nearer dist p.1 p.2, link⟩
    else none

/-- The links that `createLinks` makes, in the order of its loops. -/
def newLinks (t : Topology) (dist : t.Matrix) : List NewLink :=
  (pairs (t.maxSwitchId + 1)).filterMap (t.newLink dist)

theorem Distances.foldlM_connect (hd : t.Distances dist) (h : t.Usable) (w : Wiring)
    (ps : List (Fin (t.maxSwitchId + 1) × Fin (t.maxSwitchId + 1))) :
    ps.foldlM (t.connect dist) w =
      (ps.filterMap (t.newLink dist)).foldlM (makeLink t.nodes t.numberOfSwitches) w := by
  induction ps generalizing w with
  | nil => rfl
  | cons p ps ih =>
      have hfun : (fun w => ps.foldlM (t.connect dist) w) = fun w =>
          (ps.filterMap (t.newLink dist)).foldlM (makeLink t.nodes t.numberOfSwitches) w :=
        funext ih
      rw [List.foldlM_cons, hfun]
      unfold connect
      cases hl : t.linkMap p.1 p.2 with
      | none =>
          have hnone : t.newLink dist p = none := by rw [newLink, hl, Option.bind_none]
          rw [List.filterMap_cons_none hnone]
          rfl
      | some link =>
          by_cases hw : 0 < t.weight p.1 p.2 ∧ t.weight p.1 p.2 ≠ INFINITE_LATENCY
          · have hsome : t.newLink dist p = some ⟨p.1, p.2, t.nearer dist p.1 p.2, link⟩ := by
              rw [newLink, hl, Option.bind_some, if_pos hw]
            rw [List.filterMap_cons_some hsome, List.foldlM_cons]
            simp only [if_pos hw, hd.shortestPathToNode_ok h]
            rfl
          · have hnone : t.newLink dist p = none := by
              rw [newLink, hl, Option.bind_some, if_neg hw]
            rw [List.filterMap_cons_none hnone]
            simp only [if_neg hw]
            rfl

theorem mem_newLinks {l : NewLink} : l ∈ t.newLinks dist ↔
    ∃ i j : Fin (t.maxSwitchId + 1), t.linkMap i j = some l.link ∧ 0 < t.weight i j ∧
      t.weight i j ≠ INFINITE_LATENCY ∧ l.src = i ∧ l.dest = j ∧
      l.routingTableEntry = t.nearer dist i j := by
  unfold newLinks newLink
  rw [List.mem_filterMap]
  constructor
  · rintro ⟨⟨i, j⟩, -, hl⟩
    obtain ⟨link, hlink, hl⟩ := Option.bind_eq_some_iff.1 hl
    split at hl
    · next hw =>
        cases hl
        exact ⟨i, j, hlink, hw.1, hw.2, rfl, rfl, rfl⟩
    · cases hl
  · rintro ⟨i, j, hlink, hpos, hne, hsrc, hdest, hentry⟩
    refine ⟨(i, j), mem_pairs _, Option.bind_eq_some_iff.2 ⟨l.link, hlink, ?_⟩⟩
    rw [if_pos ⟨hpos, hne⟩, ← hsrc, ← hdest, ← hentry]

/-- **A link for every node.** From a switch with links, one of them is on the way to a node. -/
theorem Distances.exists_link (hd : t.Distances dist) (h : t.Usable) (hi : 2 * t.nodes ≤ i.1)
    (hlink : t.linkMap i j ≠ none ∨ t.linkMap j i ≠ none) {d : ℕ} (hdn : d < t.nodes) :
    ∃ l ∈ t.newLinks dist, l.src = i ∧ d ∈ l.routingTableEntry := by
  obtain ⟨hv, hlt⟩ := hd.lt h hi hlink hdn
  have hne : i ≠ ⟨t.nodes + d, hv⟩ := by
    rintro rfl
    have hi : 2 * t.nodes ≤ t.nodes + d := hi
    omega
  obtain ⟨v, hpos, heq⟩ := hd.exists_first h hne
  obtain ⟨link, hl⟩ := exists_link_of_weight (t := t) (i := i) (j := v) hpos (by omega)
  refine ⟨⟨i, v, t.nearer dist i v, link⟩,
    mem_newLinks.2 ⟨i, v, hl, hpos, by omega, rfl, rfl, rfl⟩, rfl, ?_⟩
  exact Finset.mem_filter.2 ⟨Finset.mem_range.2 hdn, hv, heq⟩

/-- **A link leads closer** to the nodes of its table, or to the node itself. -/
theorem Distances.closer (hd : t.Distances dist) (h : t.Usable) (hi : 2 * t.nodes ≤ i.1)
    (hlink : t.linkMap i j ≠ none) (hpos : 0 < t.weight i j) {d : ℕ}
    (hmem : d ∈ t.nearer dist i j) :
    j.1 = t.nodes + d ∨ (2 * t.nodes ≤ j.1 ∧ ∃ hv : t.nodes + d < t.maxSwitchId + 1,
      dist j ⟨t.nodes + d, hv⟩ < dist i ⟨t.nodes + d, hv⟩) := by
  obtain ⟨hdn, hv, heq⟩ := Finset.mem_filter.1 hmem
  have hlt : dist i ⟨t.nodes + d, hv⟩ < INFINITE_LATENCY :=
    (hd.lt h hi (.inl hlink) (Finset.mem_range.1 hdn)).2
  by_cases hj : 2 * t.nodes ≤ j.1
  · exact .inr ⟨hj, hv, by omega⟩
  · left
    by_contra hne
    obtain ⟨link, hl⟩ := Option.ne_none_iff_exists'.1 hlink
    have hproper := (h.key _ _ _ hl).2
    unfold Proper at hproper
    have hfar := hd.le_of_out h (i := j) (j := ⟨t.nodes + d, hv⟩) (by omega) (by omega)
      fun he => hne (congrArg Fin.val he)
    omega

/-- What the links that have been made connect. -/
structure Wired (t : Topology) (dist : t.Matrix) (w : Wiring) : Prop where
  inPorts : ∀ s p, p ∈ w.inPorts s ↔ ∃ l ∈ t.newLinks dist, l.Enters t.nodes s p
  outPorts : ∀ s o, o ∈ w.outPorts s ↔ ∃ l ∈ t.newLinks dist, l.Leaves t.nodes s o
  consumer : ∀ s p, w.consumer p = some s ↔ ∃ l ∈ t.newLinks dist, l.Enters t.nodes s p

theorem Usable.proper (h : t.Usable) {l : NewLink} (hl : l ∈ t.newLinks dist) :
    Proper t.nodes t.numberOfSwitches l.src l.dest := by
  obtain ⟨i, j, hlink, -, -, hsrc, hdest, -⟩ := mem_newLinks.1 hl
  rw [hsrc, hdest]
  exact (h.key _ _ _ hlink).2

theorem Usable.exists_newLink (h : t.Usable) (dist : t.Matrix) {i j : ℕ}
    {link : BasicLink} (hlink : t.linkMap i j = some link) :
    ∃ l ∈ t.newLinks dist, l.src = i ∧ l.dest = j ∧ l.link = link := by
  obtain ⟨hi, hj⟩ := h.lt hlink
  obtain ⟨-, hpos, hlt, -⟩ := h.link i j link hlink
  have hw := weight_of_link hlink
  exact ⟨⟨i, j, t.nearer dist ⟨i, hi⟩ ⟨j, hj⟩, link⟩,
    mem_newLinks.2 ⟨⟨i, hi⟩, ⟨j, hj⟩, hlink, hw ▸ hpos, hw ▸ hlt.ne, rfl, rfl, rfl⟩, rfl, rfl, rfl⟩

/-- A port has one consumer. -/
theorem Usable.enters_unique (h : t.Usable) {l l' : NewLink} {s s' : ℕ} {p : Port}
    (hl : l ∈ t.newLinks dist) (hl' : l' ∈ t.newLinks dist) (he : l.Enters t.nodes s p)
    (he' : l'.Enters t.nodes s' p) : s = s' := by
  obtain ⟨-, rfl, he⟩ := he
  obtain ⟨-, rfl, he'⟩ := he'
  obtain ⟨i, j, hlink, -, -, hsrc, hdest, -⟩ := mem_newLinks.1 hl
  obtain ⟨i', j', hlink', -, -, hsrc', hdest', -⟩ := mem_newLinks.1 hl'
  rcases he with ⟨hnode, rfl⟩ | ⟨-, rfl⟩
  · rcases he' with ⟨-, hp⟩ | ⟨-, hp⟩
    · have hsame : l.src = l'.src := Port.toNet.inj hp
      rw [hsrc] at hnode
      rw [← hsrc', ← hsame, hsrc] at hlink'
      rw [hdest, hdest', h.inUnique _ hnode _ _ _ _ hlink hlink']
    · cases hp
  · rcases he' with ⟨-, hp⟩ | ⟨-, hp⟩
    · cases hp
    · exact (Port.link.inj hp).2

/-- **The links are made**, and connect what they should. -/
theorem Usable.wired (h : t.Usable) (dist : t.Matrix) :
    ∃ w, (t.newLinks dist).foldlM (makeLink t.nodes t.numberOfSwitches)
        ⟨fun _ => [], fun _ => [], fun _ => none⟩ = .ok w ∧ t.Wired dist w := by
  have hls : ∀ l ∈ t.newLinks dist,
      Proper t.nodes t.numberOfSwitches l.src l.dest ∧ 0 < l.link.bwMultiplier := by
    intro l hl
    obtain ⟨i, j, hlink, -⟩ := mem_newLinks.1 hl
    exact ⟨h.proper hl, (h.link _ _ _ hlink).2.2.2.2⟩
  obtain ⟨w, hw, hadds⟩ := foldlM_makeLink ⟨fun _ => [], fun _ => [], fun _ => none⟩ _ hls
  refine ⟨w, hw, fun s p => ?_, fun s o => ?_, fun s p => ⟨fun hc => ?_, ?_⟩⟩
  · rw [hadds.inPorts]
    simp
  · rw [hadds.outPorts]
    simp
  · rcases hadds.consumer s p hc with hc | hc
    · cases hc
    · exact hc
  · rintro ⟨l, hl, he⟩
    obtain ⟨s', hs'⟩ := hadds.consumed p (.inr ⟨s, l, hl, he⟩)
    rcases hadds.consumer s' p hs' with hc | ⟨l', hl', he'⟩
    · cases hc
    · rw [hs', h.enters_unique hl hl' he he']

/-- Out ports that lead to the same port have the same latency. -/
theorem Wired.linkLatency_eq {w : Wiring} (hw : t.Wired dist w) (h : t.Usable) {s s' : ℕ}
    {o o' : OutPort} (ho : o ∈ w.outPorts s) (ho' : o' ∈ w.outPorts s') (hout : o.out = o'.out) :
    o.linkLatency = o'.linkLatency := by
  obtain ⟨l, hl, hsw, -, hcases⟩ := (hw.outPorts s o).1 ho
  obtain ⟨l', hl', hsw', -, hcases'⟩ := (hw.outPorts s' o').1 ho'
  obtain ⟨i, j, hlink, -, -, hsrc, hdest, -⟩ := mem_newLinks.1 hl
  obtain ⟨i', j', hlink', -, -, hsrc', hdest', -⟩ := mem_newLinks.1 hl'
  have hp := h.proper hl
  have hp' := h.proper hl'
  rw [← hsrc, ← hdest] at hlink
  rw [← hsrc', ← hdest'] at hlink'
  -- the two are the same link
  have hsame : l.src = l'.src ∧ l.dest = l'.dest → l.link.latency = l'.link.latency := by
    rintro ⟨hs, hd⟩
    rw [← hs, ← hd, hlink] at hlink'
    rw [Option.some.inj hlink']
  unfold Proper at hp hp'
  rcases hcases with ⟨hnode, rfl⟩ | ⟨hnode, rfl⟩
  · rcases hcases' with ⟨hnode', rfl⟩ | ⟨hnode', rfl⟩
    · have hd := Port.fromNet.inj hout
      have hdest : l.dest = l'.dest := by omega
      rw [← hdest] at hlink'
      exact hsame ⟨h.outUnique _ hnode _ _ _ _ hlink hlink', hdest⟩
    · cases hout
  · rcases hcases' with ⟨hnode', rfl⟩ | ⟨hnode', rfl⟩
    · cases hout
    · obtain ⟨hs, hd⟩ := Port.link.inj hout
      exact hsame ⟨by omega, by omega⟩

/-- How far a node is from a switch. -/
def distance (t : Topology) (dist : t.Matrix) (s d : ℕ) : ℕ :=
  if h : s + 2 * t.nodes < t.maxSwitchId + 1 ∧ t.nodes + d < t.maxSwitchId + 1 then
    dist ⟨s + 2 * t.nodes, h.1⟩ ⟨t.nodes + d, h.2⟩
  else 0

theorem distance_switch (hi : 2 * t.nodes ≤ i.1) {d : ℕ}
    (hv : t.nodes + d < t.maxSwitchId + 1) :
    t.distance dist (i.1 - 2 * t.nodes) d = dist i ⟨t.nodes + d, hv⟩ := by
  have hsub : i.1 - 2 * t.nodes + 2 * t.nodes = i.1 := Nat.sub_add_cancel hi
  have hlt : i.1 - 2 * t.nodes + 2 * t.nodes < t.maxSwitchId + 1 := by
    rw [hsub]
    exact i.2
  have hi' : (⟨i.1 - 2 * t.nodes + 2 * t.nodes, hlt⟩ : Fin (t.maxSwitchId + 1)) = i :=
    Fin.ext hsub
  rw [distance, dif_pos ⟨hlt, hv⟩, hi']

/-- **The wiring of a connected topology is what the network needs.** -/
theorem Wired.sound {cfg : Config} (hw : t.Wired dist cfg.wiring) (h : t.Usable)
    (hd : t.Distances dist) (hnodes : cfg.nodes = t.nodes)
    (hwarm : cfg.env.warmupEnabled = false) (hord : ∀ v, cfg.ordering v ≠ some false)
    (hlat : ∀ node < cfg.nodes, ∀ v, cfg.ordering v = some true → 0 < cfg.latency node v)
    (hbw : 0 < cfg.endpointBandwidth) :
    cfg.Sound (t.distance dist)
      (Function.extend (fun o : {o // ∃ s, o ∈ cfg.wiring.outPorts s} => o.1.out)
        (fun o => o.1.linkLatency) 0) where
  warmupEnabled := hwarm
  ordering := hord
  latency := hlat
  endpointBandwidth := hbw
  toNet node hnode := by
    rw [hnodes] at hnode
    obtain ⟨s, link, hlink⟩ := h.attached node hnode
    obtain ⟨l, hl, hsrc, hdest, -⟩ := h.exists_newLink dist hlink
    refine ⟨s, (hw.consumer s _).2 ⟨l, hl, ?_, ?_, .inl ⟨hsrc ▸ hnode, by rw [hsrc]⟩⟩⟩
    · omega
    · omega
  inPort s p hp := by
    have he := (hw.inPorts s p).1 hp
    refine ⟨(hw.consumer s p).2 he, ?_⟩
    obtain ⟨l, -, -, -, ⟨-, rfl⟩ | ⟨-, rfl⟩⟩ := he
    · exact fun _ => Port.noConfusion
    · exact fun _ => Port.noConfusion
  outPort s o ho := by
    obtain ⟨l, hl, hsrc, hs, hcases⟩ := (hw.outPorts s o).1 ho
    obtain ⟨i, j, hlink, -⟩ := mem_newLinks.1 hl
    obtain ⟨-, -, -, hlatency, hmult⟩ := h.link _ _ _ hlink
    have hext := Function.FactorsThrough.extend_apply
      (f := fun o : {o // ∃ s, o ∈ cfg.wiring.outPorts s} => o.1.out)
      (g := fun o => o.1.linkLatency)
      (fun a b hab => hw.linkLatency_eq h a.2.choose_spec b.2.choose_spec hab) 0 ⟨o, s, ho⟩
    refine ⟨hext.symm, ?_⟩
    rcases hcases with ⟨-, rfl⟩ | ⟨hdest, rfl⟩
    · exact ⟨hlatency, hmult, .inl ⟨_, rfl⟩⟩
    · refine ⟨hlatency, hmult, .inr ⟨l.dest - 2 * t.nodes, by rw [hs]; rfl, ?_⟩⟩
      exact (hw.consumer _ _).2 ⟨l, hl, hdest, rfl, .inr ⟨hsrc, by rw [hs]⟩⟩
  cover p s hp d hdn := by
    rw [hnodes] at hdn
    obtain ⟨l, hl, hdest, hs, -⟩ := (hw.consumer s p).1 hp
    obtain ⟨i, j, hlink, -, -, hsrc', hdest', -⟩ := mem_newLinks.1 hl
    rw [hdest'] at hdest
    obtain ⟨l', hl', hsrc, hmem⟩ := hd.exists_link h hdest
      (.inr (by rw [hlink]; exact Option.some_ne_none _)) hdn
    have hs' : s = l'.src - 2 * t.nodes := by rw [hs, hdest', hsrc]
    have hsw : 2 * t.nodes ≤ l'.src := hsrc ▸ hdest
    by_cases hout : l'.dest < 2 * t.nodes
    · exact ⟨_, (hw.outPorts s _).2 ⟨l', hl', hsw, hs', .inl ⟨hout, rfl⟩⟩, hmem⟩
    · exact ⟨_, (hw.outPorts s _).2 ⟨l', hl', hsw, hs', .inr ⟨Nat.le_of_not_lt hout, rfl⟩⟩, hmem⟩
  closer s o ho d hmem := by
    obtain ⟨l, hl, hsw, hs, hcases⟩ := (hw.outPorts s o).1 ho
    obtain ⟨i, j, hlink, hpos, -, hsrc, hdest, hentry⟩ := mem_newLinks.1 hl
    have hmem : d ∈ t.nearer dist i j := by
      rw [← hentry]
      rcases hcases with ⟨-, rfl⟩ | ⟨-, rfl⟩
      · exact hmem
      · exact hmem
    have hdn := Finset.mem_range.1 (Finset.mem_filter.1 hmem).1
    rw [hsrc] at hsw
    rcases hd.closer h hsw (by rw [hlink]; exact Option.some_ne_none _) hpos hmem with
      hj | ⟨hj, hv, hlt⟩
    · left
      rcases hcases with ⟨-, rfl⟩ | ⟨hdest', -⟩
      · change Port.fromNet (l.dest - t.nodes) = _
        rw [hdest, hj, Nat.add_sub_cancel_left]
      · omega
    · right
      rcases hcases with ⟨hdest', -⟩ | ⟨-, rfl⟩
      · omega
      · refine ⟨l.dest - 2 * t.nodes, by rw [hs]; rfl, ?_⟩
        rw [hs, hdest, hsrc, distance_switch hj hv, distance_switch hsw hv]
        exact hlt

/-- **The links of a connected topology are made.** -/
theorem Usable.createLinks (h : t.Usable) :
    ∃ (dist : t.Matrix) (fuel : ℕ) (w : Wiring), t.Distances dist ∧ t.Wired dist w ∧
      ∀ k, fuel ≤ k → t.createLinks k = .ok w := by
  have h₀ : Described (fun i j => t.weight i j) (fun i j => t.latency i j) t.tables := .init _ _
  have hsmall : ∀ i j : Fin (t.maxSwitchId + 1), t.weight i j < 2 ^ 30 := fun i j =>
    (h.weight_le i j).trans_lt (by decide)
  obtain ⟨tables, hrun, hdesc, hclosed⟩ := extendShortestPath_ok hsmall h₀ (Nat.lt_succ_self _)
  have hd : t.Distances tables.currentDist := by
    refine ⟨hclosed, hdesc.le, fun i j => ?_⟩
    obtain ⟨vs, hvs, hcost, -⟩ := hdesc.walk i j
    exact ⟨vs, hvs, hcost⟩
  obtain ⟨w, hw, hwired⟩ := h.wired tables.currentDist
  refine ⟨tables.currentDist, t.tables.total + 1, w, hd, hwired, fun k hk => ?_⟩
  exact bind_ok.2 ⟨tables, extendShortestPath_mono hrun hk, (hd.foldlM_connect h _ _).trans hw⟩

end Topology

namespace Topology

/-- Two nodes at one switch. -/
def star : Topology where
  nodes := 2
  numberOfSwitches := 1
  keys := [(0, 4), (4, 2), (1, 4), (4, 3)]
  linkMap i j := if (i, j) ∈ [(0, 4), (4, 2), (1, 4), (4, 3)] then some ⟨1, 1, 16⟩ else none

theorem create_star : create 2 1 [(0, 0, ⟨1, 1, 16⟩), (1, 0, ⟨1, 1, 16⟩)] [] = .ok star := by
  have hmap : Function.update (Function.update (Function.update (Function.update
      (fun _ _ => none : ℕ → ℕ → Option BasicLink) 0 (Function.update (fun _ => none) 4
        (some ⟨1, 1, 16⟩))) 4 (Function.update (fun _ => none) 2 (some ⟨1, 1, 16⟩))) 1
          (Function.update (fun _ => none) 4 (some ⟨1, 1, 16⟩))) 4
            (Function.update (Function.update (fun _ => none) 2 (some ⟨1, 1, 16⟩)) 3
              (some ⟨1, 1, 16⟩)) = star.linkMap := by
    funext i j
    simp only [star, Function.update_apply, ite_apply, List.mem_cons, Prod.mk.injEq,
      List.not_mem_nil, or_false]
    grind
  exact congrArg (fun m => Except.ok (⟨2, 1, star.keys, m⟩ : Topology)) hmap

theorem star_linkMap {i j : ℕ} {link : BasicLink} (h : star.linkMap i j = some link) :
    (i, j) ∈ [(0, 4), (4, 2), (1, 4), (4, 3)] ∧ link = ⟨1, 1, 16⟩ := by
  unfold star at h
  simp only at h
  split at h
  · next hmem => exact ⟨hmem, (Option.some.inj h).symm⟩
  · cases h

theorem star_connected : star.Connected where
  link i j link h := by
    obtain ⟨hmem, rfl⟩ := star_linkMap h
    simp only [List.mem_cons, Prod.mk.injEq, List.not_mem_nil, or_false] at hmem
    exact ⟨by omega, by decide, by decide, by decide, by decide⟩
  attached a ha := by
    have ha : a < 2 := ha
    obtain rfl | rfl : a = 0 ∨ a = 1 := by omega
    · exact ⟨0, ⟨1, 1, 16⟩, rfl⟩
    · exact ⟨0, ⟨1, 1, 16⟩, rfl⟩
  inUnique a ha j j' link link' h h' := by
    have ha : a < 2 := ha
    have hmem := (star_linkMap h).1
    have hmem' := (star_linkMap h').1
    simp only [List.mem_cons, Prod.mk.injEq, List.not_mem_nil, or_false] at hmem hmem'
    omega
  outUnique j hj i i' link link' h h' := by
    have hj : j < 4 := hj
    have hmem := (star_linkMap h).1
    have hmem' := (star_linkMap h').1
    simp only [List.mem_cons, Prod.mk.injEq, List.not_mem_nil, or_false] at hmem hmem'
    omega
  way i j hi _ d hd := by
    have hi : 4 ≤ i.1 := hi
    have hd : d < 2 := hd
    obtain rfl : i = ⟨4, by decide⟩ := Fin.ext (Nat.le_antisymm (Nat.le_of_lt_succ i.2) hi)
    obtain rfl | rfl : d = 0 ∨ d = 1 := by omega
    · exact ⟨by decide, _, .edge _ _, by decide⟩
    · exact ⟨by decide, _, .edge _ _, by decide⟩

end Topology

-- without a switch, the links of the star are added, but cannot be made
example : (Topology.create 2 0 [(0, 0, ⟨1, 1, 16⟩), (1, 0, ⟨1, 1, 16⟩)] [] >>= fun t =>
    (t.createLinks 9).map fun _ => ()) = .error .outOfBounds := by
  rfl

end Net
