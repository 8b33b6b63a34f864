import SpecSw.Library.CyclicWindow

/-!
# A ring of slots between a producer and a consumer

A ring of `n` slots, each empty or full, is shared by a producer and a consumer that both walk it
slot by slot. The producer fills the slot it is at if that is empty and moves on; the consumer
empties the slot it is at if that is full and moves on. No counter says how many slots are full: as
a full slot is marked as such, all `n` can be.

The slots then are a queue. `Holds slot p c q` says that the full slots are those from the
consumer's index `c` on and contain the list `q`, and that the producer's index `p` is behind them;
both moves keep it. `Delivers slot p c sent received` adds the logs of both sides: what has been
received is what has been sent, except for the last entries, which are in the slots.

The slots are a function and no data structure of their own, so they may be a view of something
else: registers and memory, of which a slot's entry is read.

## Main definitions

* `SlotRing.Holds`, `SlotRing.Delivers`.

## Main results

* `SlotRing.Holds.put`, `SlotRing.Holds.take`.
* `SlotRing.Delivers.put`, `SlotRing.Delivers.take`, `SlotRing.Delivers.isPrefix`.
-/

namespace SlotRing

open CyclicWindow

variable {n : ℕ} [NeZero n] {α : Type*}

/-! ### Walking a ring -/

theorem ringDist_iterate (c : Fin n) {j : ℕ} (hj : j < n) : ringDist c ((· + 1)^[j] c) = j := by
  induction j with
  | zero => exact ringDist_self c
  | succ j ih =>
    have hdist := ih (by omega)
    have hne : (· + 1)^[j] c + 1 ≠ c := fun heq => by
      have := ringDist_of_succ_eq heq
      omega
    rw [Function.iterate_succ_apply', ringDist_succ_head hne, hdist]

theorem iterate_ne {c : Fin n} {i j : ℕ} (hi : i < n) (hj : j < n) (hne : i ≠ j) :
    (· + 1)^[i] c ≠ (· + 1)^[j] c := by
  intro heq
  have hdist := ringDist_iterate c hi
  rw [heq, ringDist_iterate c hj] at hdist
  exact hne hdist.symm

/-- After `n` steps the walk is back. -/
theorem iterate_card (c : Fin n) : (· + 1)^[n] c = c := by
  have hpos : 0 < n := Nat.pos_of_ne_zero (NeZero.ne n)
  have hlast (k : ℕ) (hk : n = k) : (· + 1)^[k] c = (· + 1)^[n - 1] c + 1 := by
    rw [← Function.iterate_succ_apply' (· + 1), Nat.succ_eq_add_one]
    congr 2
    omega
  have hdist := ringDist_iterate c (show n - 1 < n by omega)
  by_contra hne
  rw [hlast n rfl] at hne
  have hlt := ringDist_lt c ((· + 1)^[n - 1] c + 1)
  rw [ringDist_succ_head hne] at hlt
  omega

/-! ### The queue in the slots -/

/-- The slots from the consumer's index on contain the list `q`, the oldest entry first, the others
are empty, and the producer is at the first empty one. -/
structure Holds (slot : Fin n → Option α) (p c : Fin n) (q : List α) : Prop where
  length_le : q.length ≤ n
  producer : p = (· + 1)^[q.length] c
  slots : ∀ j < n, slot ((· + 1)^[j] c) = q[j]?

theorem holds_nil {slot : Fin n → Option α} (h : ∀ i, slot i = none) (i : Fin n) :
    Holds slot i i [] :=
  ⟨Nat.zero_le n, rfl, fun j _ => by rw [h, List.getElem?_nil]⟩

namespace Holds

variable {slot slot' : Fin n → Option α} {p c : Fin n} {q : List α}

theorem congr (h : Holds slot p c q) (heq : ∀ i, slot' i = slot i) : Holds slot' p c q :=
  ⟨h.length_le, h.producer, fun j hj => (heq _).trans (h.slots j hj)⟩

/-- The consumer is at the oldest entry. -/
theorem head?_eq (h : Holds slot p c q) : slot c = q[0]? :=
  h.slots 0 (Nat.pos_of_ne_zero (NeZero.ne n))

theorem eq_nil (h : Holds slot p c q) (hempty : slot c = none) : q = [] := by
  have hhead := h.head?_eq
  rw [hempty] at hhead
  exact List.length_eq_zero_iff.mp (Nat.le_zero.mp (List.getElem?_eq_none_iff.mp hhead.symm))

/-- The producer finds its slot empty exactly if there is room. -/
theorem length_lt (h : Holds slot p c q) (hfree : slot p = none) : q.length < n := by
  refine lt_of_le_of_ne h.length_le fun hfull => ?_
  rw [h.producer, hfull, iterate_card] at hfree
  have := h.eq_nil hfree
  subst this
  exact NeZero.ne n hfull.symm

/-- The producer appends an entry. -/
theorem put (h : Holds slot p c q) (hfree : slot p = none) {x : α}
    (hself : slot' p = some x) (hother : ∀ i, i ≠ p → slot' i = slot i) :
    Holds slot' (p + 1) c (q ++ [x]) := by
  have hlt := h.length_lt hfree
  refine ⟨?_, ?_, fun j hj => ?_⟩
  · rw [List.length_append, List.length_singleton]
    exact hlt
  · rw [List.length_append, List.length_singleton, Function.iterate_succ_apply', ← h.producer]
  · by_cases hjq : j = q.length
    · subst hjq
      rw [← h.producer, hself, List.getElem?_concat_length]
    · rw [hother _ (by rw [h.producer]; exact iterate_ne hj hlt hjq), h.slots j hj]
      rcases Nat.lt_or_gt_of_ne hjq with hlt' | hgt
      · rw [List.getElem?_append_left hlt']
      · rw [List.getElem?_eq_none (by omega), List.getElem?_eq_none]
        rw [List.length_append, List.length_singleton]
        omega

/-- The consumer removes the oldest entry. -/
theorem take (h : Holds slot p c q) {x : α} (hx : slot c = some x)
    (hself : slot' c = none) (hother : ∀ i, i ≠ c → slot' i = slot i) :
    ∃ q', q = x :: q' ∧ Holds slot' p (c + 1) q' := by
  cases q with
  | nil => exact absurd (hx.symm.trans h.head?_eq) (by simp)
  | cons y q' =>
    obtain rfl : x = y := Option.some.inj (hx.symm.trans h.head?_eq)
    have hlen : q'.length + 1 ≤ n := h.length_le
    refine ⟨q', rfl, ⟨by omega, ?_, fun j hj => ?_⟩⟩
    · rw [h.producer, List.length_cons, Function.iterate_succ_apply]
    · rw [← Function.iterate_succ_apply (· + 1) j c]
      by_cases hlast : j + 1 = n
      · rw [Nat.succ_eq_add_one, hlast, iterate_card, hself, List.getElem?_eq_none (by omega)]
      · have hne : (· + 1)^[j + 1] c ≠ (· + 1)^[0] c :=
          iterate_ne (by omega) (by omega) (Nat.succ_ne_zero j)
        rw [hother _ hne, h.slots (j + 1) (by omega), List.getElem?_cons_succ]

end Holds

/-! ### What both sides have seen -/

/-- What the producer has sent is what the consumer has received, followed by what is in the
slots. -/
def Delivers (slot : Fin n → Option α) (p c : Fin n) (sent received : List α) : Prop :=
  ∃ q, sent = received ++ q ∧ Holds slot p c q

theorem delivers_nil {slot : Fin n → Option α} (h : ∀ i, slot i = none) (i : Fin n) :
    Delivers slot i i [] [] := ⟨[], rfl, holds_nil h i⟩

namespace Delivers

variable {slot slot' : Fin n → Option α} {p c : Fin n} {sent received : List α}

theorem congr (h : Delivers slot p c sent received) (heq : ∀ i, slot' i = slot i) :
    Delivers slot' p c sent received := by
  obtain ⟨q, hsent, hholds⟩ := h
  exact ⟨q, hsent, hholds.congr heq⟩

theorem put (h : Delivers slot p c sent received) (hfree : slot p = none) {x : α}
    (hself : slot' p = some x) (hother : ∀ i, i ≠ p → slot' i = slot i) :
    Delivers slot' (p + 1) c (sent ++ [x]) received := by
  obtain ⟨q, rfl, hholds⟩ := h
  exact ⟨q ++ [x], List.append_assoc _ _ _, hholds.put hfree hself hother⟩

theorem take (h : Delivers slot p c sent received) {x : α} (hx : slot c = some x)
    (hself : slot' c = none) (hother : ∀ i, i ≠ c → slot' i = slot i) :
    Delivers slot' p (c + 1) sent (received ++ [x]) := by
  obtain ⟨q, rfl, hholds⟩ := h
  obtain ⟨q', rfl, hholds'⟩ := hholds.take hx hself hother
  exact ⟨q', by rw [List.append_assoc, List.singleton_append], hholds'⟩

/-- Everything is received in the order in which it was sent, nothing twice. -/
theorem isPrefix (h : Delivers slot p c sent received) : received <+: sent := by
  obtain ⟨q, rfl, -⟩ := h
  exact List.prefix_append _ _

end Delivers

end SlotRing
