/-
**Linked lists in an array of nodes.**

A program that keeps the order of a fixed set of nodes in the nodes themselves has, in each node, a
pointer to the next one and perhaps one to the previous one.  This module says when such pointers
represent a list: `Links.Chain` for singly linked lists, which end with a null pointer, and
`Links.Linked` for doubly linked lists with a pointer to each end.  The nodes are named by the
elements of any type, and the pointers are functions on it.

The lemmas follow the edits a program makes.  A node is taken out of a list by changing a pointer of
its neighbours (`Links.Linked.unlink`), and put back at one of the ends (`Links.Linked.pushFront`,
`Links.Linked.pushBack`); in a chain the node before it has to be found first (`Links.before`).

Main definitions:

* `Links.Chain`, `Links.find`, `Links.before` — singly linked lists, and the two loops over them;
* `Links.Seg` — the nodes of a list, linked in both directions between two pointers;
* `Links.Linked` — a doubly linked list.

Main results:

* `Links.Chain.find_eq`, `Links.Chain.before_eq` — the loops come to an end, with the node they look
  for;
* `Links.Chain.remove` — a node is taken out of a chain;
* `Links.Linked.unlink`, `Links.Linked.pushFront`, `Links.Linked.pushBack` — the edits of a doubly
  linked list;
* `Links.Linked.forward`, `Links.Linked.backward` — reading it in both directions.
-/

import Mathlib.Data.List.Induction
import Mathlib.Data.List.Nodup
import Mathlib.Logic.Function.Basic

set_option relaxedAutoImplicit false
set_option autoImplicit false

namespace Links

variable {ι : Type} {next prev : ι → Option ι} {p n h : Option ι} {l l₁ l₂ : List ι} {x y : ι}

/-! ### Chains -/

/-- The nodes from a pointer on, up to the null pointer. -/
def Chain (next : ι → Option ι) : Option ι → List ι → Prop
  | h, [] => h = none
  | h, x :: l => h = some x ∧ Chain next (next x) l

/-- The loop that follows a chain until it finds a node.  `fuel` bounds the number of steps; without
fuel there is no result. -/
def find (next : ι → Option ι) (q : ι → Bool) : ℕ → Option ι → Option (Option ι)
  | _, none => some none
  | 0, some _ => none
  | fuel + 1, some x => if q x then some (some x) else find next q fuel (next x)

theorem Chain.find_eq {q : ι → Bool} {fuel : ℕ} (hc : Chain next h l) (hle : l.length ≤ fuel) :
    find next q fuel h = some (l.find? q) := by
  induction l generalizing h fuel with
  | nil =>
      cases hc
      cases fuel <;> rfl
  | cons x l ih =>
      obtain ⟨rfl, hc⟩ := hc
      cases fuel with
      | zero => exact absurd hle (Nat.not_succ_le_zero _)
      | succ fuel =>
          unfold find
          rw [List.find?_cons]
          cases hq : q x with
          | true => rfl
          | false => exact ih hc (Nat.le_of_succ_le_succ hle)

/-- The pointers of other nodes do not matter. -/
theorem Chain.congr {next' : ι → Option ι} (he : ∀ x ∈ l, next' x = next x) (hc : Chain next h l) :
    Chain next' h l := by
  induction l generalizing h with
  | nil => exact hc
  | cons x l ih =>
      refine ⟨hc.1, ?_⟩
      rw [he x List.mem_cons_self]
      exact ih (fun y hy => he y (List.mem_cons_of_mem x hy)) hc.2

/-- The loop that looks for the node before `x`: no result without fuel, `some none` if `x` is not
in the chain, and otherwise the pointer to the node before it. -/
def before [DecidableEq ι] (next : ι → Option ι) (x : ι) :
    ℕ → Option ι → Option ι → Option (Option (Option ι))
  | _, _, none => some none
  | 0, _, some _ => none
  | fuel + 1, p, some y => if y = x then some (some p) else before next x fuel (some y) (next y)

theorem Chain.before_eq [DecidableEq ι] {l₁ l₂ : List ι} {x : ι} {p : Option ι} {fuel : ℕ}
    (hc : Chain next h (l₁ ++ x :: l₂)) (hx : x ∉ l₁) (hlt : l₁.length < fuel) :
    before next x fuel p h = some (some (l₁.getLast?.or p)) := by
  induction l₁ generalizing h p fuel with
  | nil =>
      obtain ⟨fuel, rfl⟩ := Nat.exists_eq_succ_of_ne_zero (Nat.ne_of_gt hlt)
      obtain ⟨rfl, -⟩ := hc
      unfold before
      rw [if_pos rfl]
      rfl
  | cons y l₁ ih =>
      obtain ⟨fuel, rfl⟩ := Nat.exists_eq_succ_of_ne_zero (Nat.ne_of_gt (Nat.zero_lt_of_lt hlt))
      obtain ⟨rfl, hc⟩ := hc
      have hy : y ≠ x := fun e => hx (e ▸ List.mem_cons_self)
      unfold before
      rw [if_neg hy, ih hc (fun hm => hx (List.mem_cons_of_mem y hm)) (Nat.lt_of_succ_lt_succ hlt)]
      cases l₁ with
      | nil => rfl
      | cons z t =>
          rw [List.getLast?_cons_cons, List.getLast?_eq_some_getLast (List.cons_ne_nil z t)]
          rfl

/-- What is left of a chain without its first node. -/
theorem Chain.tail (hc : Chain next h (x :: l)) : Chain next (next x) l := hc.2

/-- **A node is taken out of a chain**: the node before it points to the node behind it. -/
theorem Chain.remove [DecidableEq ι] {l₁ l₂ : List ι} {x y : ι} (hc : Chain next h (l₁ ++ x :: l₂))
    (hn : (l₁ ++ x :: l₂).Nodup) (hy : l₁.getLast? = some y) :
    Chain (Function.update next y (next x)) h (l₁ ++ l₂) := by
  induction l₁ generalizing h with
  | nil => cases hy
  | cons z t ih =>
      obtain ⟨rfl, hc⟩ := hc
      refine ⟨rfl, ?_⟩
      cases t with
      | nil =>
          obtain rfl : z = y := Option.some.inj hy
          rw [Function.update_self]
          refine hc.2.congr fun w hw => Function.update_of_ne ?_ _ _
          rintro rfl
          simp only [List.singleton_append, List.nodup_cons, List.mem_cons] at hn
          exact hn.1 (.inr hw)
      | cons z' t =>
          rw [List.getLast?_cons_cons] at hy
          rw [List.cons_append, List.nodup_cons] at hn
          have hzy : z ≠ y := by
            rintro rfl
            exact hn.1 (List.mem_append_left _ (List.mem_of_getLast? hy))
          rw [Function.update_of_ne hzy]
          exact ih hc hn.2 hy

/-! ### Lists with two directions -/

/-- The nodes of a list are linked in both directions; `p` is before the first one, and `n` behind
the last one. -/
def Seg (next prev : ι → Option ι) : Option ι → List ι → Option ι → Prop
  | _, [], _ => True
  | p, x :: l, n => prev x = p ∧ next x = l.head?.or n ∧ Seg next prev (some x) l n

theorem seg_append {l₁ : List ι} {p : Option ι} : Seg next prev p (l₁ ++ l₂) n ↔
    Seg next prev p l₁ (l₂.head?.or n) ∧ Seg next prev (l₁.getLast?.or p) l₂ n := by
  induction l₁ generalizing p with
  | nil => simp [Seg]
  | cons x t ih =>
      cases t with
      | nil =>
          simp only [List.singleton_append, Seg, List.head?_nil, Option.none_or, and_true,
            List.getLast?_singleton, Option.some_or]
          exact (and_assoc).symm
      | cons y t =>
          rw [List.cons_append, Seg, Seg, ih, List.getLast?_cons_cons,
            List.getLast?_eq_some_getLast (List.cons_ne_nil y t)]
          simp only [List.cons_append, List.head?_cons, Option.some_or]
          tauto

/-- The pointers of other nodes do not matter. -/
theorem Seg.congr {next' prev' : ι → Option ι} {l : List ι} {p : Option ι}
    (he : ∀ x ∈ l, next' x = next x ∧ prev' x = prev x) (hs : Seg next prev p l n) :
    Seg next' prev' p l n := by
  induction l generalizing p with
  | nil => trivial
  | cons x l ih =>
      obtain ⟨hp, hn, hs⟩ := hs
      obtain ⟨hnx, hpx⟩ := he x List.mem_cons_self
      exact ⟨hpx.trans hp, hnx.trans hn, ih (fun y hy => he y (List.mem_cons_of_mem x hy)) hs⟩

section Edit

variable [DecidableEq ι]

/-- Other nodes change. -/
theorem Seg.updateNext (hs : Seg next prev p l n) (hx : x ∉ l) (v : Option ι) :
    Seg (Function.update next x v) prev p l n :=
  hs.congr fun y hy => ⟨Function.update_of_ne (fun (e : y = x) => hx (e ▸ hy)) _ _, rfl⟩

theorem Seg.updatePrev (hs : Seg next prev p l n) (hx : x ∉ l) (v : Option ι) :
    Seg next (Function.update prev x v) p l n :=
  hs.congr fun y hy => ⟨rfl, Function.update_of_ne (fun (e : y = x) => hx (e ▸ hy)) _ _⟩

/-- The last node gets a new successor. -/
theorem Seg.setNext (hs : Seg next prev p l n) (hn : l.Nodup) (hy : l.getLast? = some y)
    (v : Option ι) : Seg (Function.update next y v) prev p l v := by
  obtain ⟨t, rfl⟩ : ∃ t, l = t ++ [y] := by
    obtain ⟨t, ht⟩ := List.getLast?_eq_some_iff.1 hy
    exact ⟨t, ht⟩
  rw [seg_append] at hs ⊢
  have hyt : y ∉ t := fun hm => by
    rw [List.nodup_append] at hn
    exact hn.2.2 y hm y List.mem_cons_self rfl
  refine ⟨hs.1.updateNext hyt v, hs.2.1, ?_, trivial⟩
  rw [Function.update_self]
  rfl

/-- The first node gets a new predecessor. -/
theorem Seg.setPrev (hs : Seg next prev p l n) (hn : l.Nodup) (hx : l.head? = some x)
    (v : Option ι) : Seg next (Function.update prev x v) v l n := by
  cases l with
  | nil => trivial
  | cons z t =>
      cases hx
      obtain ⟨_, hnext, hs⟩ := hs
      exact ⟨Function.update_self .., hnext, hs.updatePrev (List.nodup_cons.1 hn).1 v⟩

end Edit

/-- **A doubly linked list**, with pointers to its two ends. -/
structure Linked (next prev : ι → Option ι) (head tail : Option ι) (l : List ι) : Prop where
  nodup : l.Nodup
  head : head = l.head?
  tail : tail = l.getLast?
  seg : Seg next prev none l none

namespace Linked

variable {head tail : Option ι}

/-- Reading a list from its head. -/
theorem forward (hl : Linked next prev head tail l) : Chain next head l := by
  have aux : ∀ {l : List ι} {p : Option ι}, Seg next prev p l none → Chain next l.head? l := by
    intro l
    induction l with
    | nil => exact fun _ => rfl
    | cons x l ih =>
        rintro p ⟨_, hn, hs⟩
        refine ⟨rfl, ?_⟩
        rw [hn, Option.or_none]
        exact ih hs
  rw [hl.head]
  exact aux hl.seg

/-- Reading a list from its tail. -/
theorem backward (hl : Linked next prev head tail l) : Chain prev tail l.reverse := by
  have aux : ∀ {l : List ι} {n : Option ι}, Seg next prev none l n →
      Chain prev l.getLast? l.reverse := by
    intro l
    induction l using List.reverseRecOn with
    | nil => exact fun _ => rfl
    | append_singleton l x ih =>
        intro n hs
        rw [seg_append] at hs
        rw [List.reverse_append, List.getLast?_append]
        refine ⟨rfl, ?_⟩
        obtain ⟨hs₁, hp, _⟩ := hs
        rw [hp, Option.or_none]
        exact ih hs₁
  rw [hl.tail]
  exact aux hl.seg

/-- The pointers of a node in the list. -/
theorem pointers (hl : Linked next prev head tail (l₁ ++ x :: l₂)) :
    prev x = l₁.getLast? ∧ next x = l₂.head? := by
  have hs := hl.seg
  rw [seg_append] at hs
  obtain ⟨_, hp, hn, _⟩ := hs
  rw [Option.or_none] at hp hn
  exact ⟨hp, hn⟩

variable [DecidableEq ι]

/-- The pointers to the next nodes after `x` has been taken out: its predecessor has its
successor. -/
def skipNext (next prev : ι → Option ι) (x : ι) : ι → Option ι :=
  match prev x with
  | none => next
  | some y => Function.update next y (next x)

/-- The pointers to the previous nodes after `x` has been taken out. -/
def skipPrev (next prev : ι → Option ι) (x : ι) : ι → Option ι :=
  match next x with
  | none => prev
  | some y => Function.update prev y (prev x)

/-- **A node is taken out of the list.** -/
theorem unlink (hl : Linked next prev head tail (l₁ ++ x :: l₂)) :
    Linked (skipNext next prev x) (skipPrev next prev x)
      (if l₁ = [] then l₂.head? else head) (if l₂ = [] then l₁.getLast? else tail) (l₁ ++ l₂) := by
  obtain ⟨hp, hn⟩ := hl.pointers
  obtain ⟨hn₁, hn₂', hdisj⟩ := List.nodup_append.1 hl.nodup
  obtain ⟨_, hn₂⟩ := List.nodup_cons.1 hn₂'
  have hd : ∀ a ∈ l₁, a ∉ l₂ := fun a h₁ h₂ => hdisj a h₁ a (List.mem_cons_of_mem x h₂) rfl
  have hs := hl.seg
  rw [seg_append] at hs
  obtain ⟨hs₁, _, _, hs₂⟩ := hs
  refine ⟨?_, ?_, ?_, ?_⟩
  · exact List.nodup_append.2 ⟨hn₁, hn₂, fun a h₁ b h₂ e => hd a h₁ (e ▸ h₂)⟩
  · cases l₁ with
    | nil => simp
    | cons a t => simp [hl.head]
  · cases l₂ with
    | nil => simp
    | cons b t =>
        rw [if_neg (List.cons_ne_nil b t), hl.tail]
        simp [List.getLast?_append, List.getLast?_cons]
  · rw [seg_append]
    unfold skipNext skipPrev
    rw [hp, hn]
    constructor
    · -- the first part keeps its predecessors; its last node gets a new successor
      have hs₁' : Seg (match l₁.getLast? with
          | none => next
          | some y => Function.update next y l₂.head?) prev none l₁ (l₂.head?.or none) := by
        rw [Option.or_none]
        cases hlast : l₁.getLast? with
        | none =>
            rw [List.getLast?_eq_none_iff] at hlast
            subst hlast
            trivial
        | some y => exact hs₁.setNext hn₁ hlast _
      cases hhead : l₂.head? with
      | none => rw [hhead] at hs₁'; exact hs₁'
      | some y =>
          rw [hhead] at hs₁'
          exact hs₁'.updatePrev (fun hm => hd y hm (List.mem_of_head? hhead)) _
    · have hs₂' : Seg next (match l₂.head? with
          | none => prev
          | some y => Function.update prev y l₁.getLast?) (l₁.getLast?.or none) l₂ none := by
        rw [Option.or_none]
        cases hhead : l₂.head? with
        | none =>
            rw [List.head?_eq_none_iff] at hhead
            subst hhead
            trivial
        | some y => exact hs₂.setPrev hn₂ hhead _
      cases hlast : l₁.getLast? with
      | none => rw [hlast] at hs₂'; exact hs₂'
      | some y =>
          rw [hlast] at hs₂'
          exact hs₂'.updateNext (hd y (List.mem_of_getLast? hlast)) _

/-- **A node is put in front of a list.** -/
theorem pushFront (hl : Linked next prev head tail (y :: l)) (hx : x ∉ y :: l) :
    Linked (Function.update next x head) (Function.update (Function.update prev x none) y (some x))
      (some x) tail (x :: y :: l) := by
  have hxy : x ≠ y := fun e => hx (e ▸ List.mem_cons_self)
  refine ⟨List.nodup_cons.2 ⟨hx, hl.nodup⟩, rfl, ?_, ?_, ?_, ?_⟩
  · rw [hl.tail, List.getLast?_cons_cons]
  · rw [Function.update_of_ne hxy, Function.update_self]
  · rw [Function.update_self, hl.head]
    rfl
  · exact ((hl.seg.updatePrev hx none).setPrev hl.nodup rfl (some x)).updateNext hx _

/-- **A node is put behind a list.** -/
theorem pushBack (hl : Linked next prev head tail l) (hy : l.getLast? = some y) (hx : x ∉ l) :
    Linked (Function.update (Function.update next x none) y (some x)) (Function.update prev x tail)
      head (some x) (l ++ [x]) := by
  have hym : y ∈ l := List.mem_of_getLast? hy
  have hxy : x ≠ y := fun e => hx (e ▸ hym)
  refine ⟨?_, ?_, ?_, ?_⟩
  · exact List.nodup_append.2 ⟨hl.nodup, List.nodup_singleton x, fun a ha b hb e => by
      rw [List.mem_singleton] at hb
      exact hx (hb ▸ e ▸ ha)⟩
  · cases l with
    | nil => cases hym
    | cons z t => simp [hl.head]
  · simp
  · rw [seg_append]
    refine ⟨((hl.seg.updateNext hx none).setNext hl.nodup hy (some x)).updatePrev hx _, ?_, ?_,
      trivial⟩
    · rw [Function.update_self, hl.tail, Option.or_none]
    · rw [Function.update_of_ne hxy, Function.update_self]
      rfl

end Linked

end Links
