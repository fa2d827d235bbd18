/-
**Channels that feed a queue in the order of sending.**

A receiver has one queue, which several FIFO channels feed.  If every message carries the time at
which it was sent, and the channels hand their messages over in the order of these times, then the
queue is sorted, and everything in it was sent before everything that is still in a channel.  This
is what a global ordering argument about waiting receivers needs: the oldest message for a receiver
is at the head of its queue.

Main definitions:

* `Fifo.Sorted` — queue and channels of one receiver are in the order of sending.

Main results:

* `Fifo.Sorted.head_le` — nothing is older than the head of the queue;
* `Fifo.Sorted.advance` — taking messages from the head of the queue and sending new ones keeps the
  order;
* `Fifo.Sorted.deliver` — so does handing over the oldest message of all channels.
-/

import Mathlib.Data.List.Basic
import Mathlib.Logic.Function.Basic
import Mathlib.Order.Nat

set_option relaxedAutoImplicit false
set_option autoImplicit false

namespace Fifo

variable {α ι : Type} {time : α → ℕ} {now now' : ℕ} {queue queue' : List α}
  {chan chan' : ι → List α}

/-- The queue of a receiver and the channels that feed it are in the order of sending, and nothing
was sent after `now`. -/
structure Sorted (time : α → ℕ) (now : ℕ) (queue : List α) (chan : ι → List α) : Prop where
  inQueue : queue.Pairwise fun m m' => time m ≤ time m'
  inChan : ∀ i, (chan i).Pairwise fun m m' => time m ≤ time m'
  across : ∀ m ∈ queue, ∀ i, ∀ m' ∈ chan i, time m ≤ time m'
  pastQueue : ∀ m ∈ queue, time m ≤ now
  pastChan : ∀ i, ∀ m ∈ chan i, time m ≤ now

namespace Sorted

theorem nil : Sorted time now ([] : List α) fun _ : ι => [] :=
  ⟨.nil, fun _ => .nil, by simp, by simp, by simp⟩

/-- Nothing in a sorted list is older than its head. -/
theorem le_of_cons {l q : List α} (h : l.Pairwise fun m m' => time m ≤ time m') {m m' : α}
    (hl : l = m :: q) (hm : m' ∈ l) : time m ≤ time m' := by
  subst hl
  rcases List.mem_cons.1 hm with rfl | hm
  · exact le_rfl
  · exact (List.pairwise_cons.1 h).1 m' hm

/-- Nothing is older than the head of the queue. -/
theorem head_le (h : Sorted time now queue chan) {m m' : α} {q : List α} (hq : queue = m :: q)
    (hm : m' ∈ queue ∨ ∃ i, m' ∈ chan i) : time m ≤ time m' := by
  rcases hm with hm | ⟨i, hm⟩
  · exact le_of_cons h.inQueue hq hm
  · exact h.across m (by simp [hq]) i m' hm

/-- Nothing in a channel is older than its head. -/
theorem chan_head_le (h : Sorted time now queue chan) {i : ι} {m m' : α} {q : List α}
    (hq : chan i = m :: q) (hm : m' ∈ chan i) : time m ≤ time m' :=
  le_of_cons (h.inChan i) hq hm

/-- Messages are taken from the head of the queue, and new ones are sent. -/
theorem advance (h : Sorted time now queue chan) (hq : queue' <:+ queue)
    (hc : ∀ i, ∃ ms, chan' i = chan i ++ ms ∧ ∀ m ∈ ms, time m = now) (hnow : now ≤ now') :
    Sorted time now' queue' chan' := by
  have hold : ∀ i, ∀ m ∈ chan' i, m ∈ chan i ∨ time m = now := by
    intro i m hm
    obtain ⟨ms, he, hms⟩ := hc i
    rw [he] at hm
    exact (List.mem_append.1 hm).imp_right (hms m)
  refine ⟨h.inQueue.sublist hq.sublist, fun i => ?_, fun m hm i m' hm' => ?_, fun m hm => ?_,
    fun i m hm => ?_⟩
  · obtain ⟨ms, he, hms⟩ := hc i
    rw [he, List.pairwise_append]
    refine ⟨h.inChan i, ?_, fun m hm m' hm' => ?_⟩
    · refine List.pairwise_of_forall_mem_list fun m hm m' hm' => ?_
      rw [hms m hm, hms m' hm']
    · rw [hms m' hm']
      exact h.pastChan i m hm
  · rcases hold i m' hm' with hm' | hm'
    · exact h.across m (hq.subset hm) i m' hm'
    · rw [hm']
      exact h.pastQueue m (hq.subset hm)
  · exact (h.pastQueue m (hq.subset hm)).trans hnow
  · rcases hold i m hm with hm | hm
    · exact (h.pastChan i m hm).trans hnow
    · rw [hm]
      exact hnow

/-- The oldest message of all channels is handed over. -/
theorem deliver [DecidableEq ι] (h : Sorted time now queue chan) {i : ι} {m : α} {q : List α}
    (hq : chan i = m :: q) (hold : ∀ j, ∀ m' ∈ chan j, time m ≤ time m') (hnow : now ≤ now') :
    Sorted time now' (queue ++ [m]) (Function.update chan i q) := by
  have hmem : ∀ j, ∀ m' ∈ Function.update chan i q j, m' ∈ chan j := by
    intro j m' hm'
    by_cases hj : j = i
    · subst hj
      rw [Function.update_self] at hm'
      rw [hq]
      exact List.mem_cons_of_mem m hm'
    · rwa [Function.update_of_ne hj] at hm'
  have hm : m ∈ chan i := by simp [hq]
  refine ⟨?_, fun j => ?_, fun x hx j m' hm' => ?_, fun x hx => ?_, fun j m' hm' => ?_⟩
  · rw [List.pairwise_append]
    refine ⟨h.inQueue, List.pairwise_singleton _ _, fun x hx y hy => ?_⟩
    rw [List.mem_singleton.1 hy]
    exact h.across x hx i m hm
  · by_cases hj : j = i
    · subst hj
      rw [Function.update_self]
      exact (hq ▸ h.inChan j).of_cons
    · rw [Function.update_of_ne hj]
      exact h.inChan j
  · rcases List.mem_append.1 hx with hx | hx
    · exact h.across x hx j m' (hmem j m' hm')
    · rw [List.mem_singleton.1 hx]
      exact hold j m' (hmem j m' hm')
  · rcases List.mem_append.1 hx with hx | hx
    · exact (h.pastQueue x hx).trans hnow
    · rw [List.mem_singleton.1 hx]
      exact (h.pastChan i m hm).trans hnow
  · exact (h.pastChan j m' (hmem j m' hm')).trans hnow

end Sorted

end Fifo
