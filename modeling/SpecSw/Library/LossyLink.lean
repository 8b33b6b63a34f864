import Mathlib.Data.List.Basic

/-!
# Links that keep the order and may lose messages

A link has one sender. What it has sent is received in order, unless it is lost on the way; messages
of others may be on the link too, and whether a message is the sender's *own* is recorded with it,
where the receiver cannot see it.

Of the sender's messages, those that have been received and those on their way are a subsequence of
those that have been sent (`InOrder`), and all of them if nothing is lost (`Complete`).

## Main definitions

* `LossyLink.Message`, `LossyLink.Link`, with `send`, `inject`, `lose` and `receive`.
* `LossyLink.Link.InOrder`, `LossyLink.Link.Complete`.

## Main results

* `LossyLink.Link.InOrder.sublist`, `LossyLink.Link.InOrder.complete_lose_iff`,
  `LossyLink.Link.Complete.received_eq`.
-/

namespace LossyLink

open List

variable {α : Type*}

/-- A message on a link, and whether it is of the sender of the link. -/
structure Message (α : Type*) where
  payload : α
  own : Bool

/-- What the sender has sent, what is on its way and what has been received, the oldest first. -/
structure Link (α : Type*) where
  sent : List α
  wire : List (Message α)
  received : List (Message α)

/-- The messages of the sender. -/
def ownPayloads (ms : List (Message α)) : List α := (ms.filter Message.own).map Message.payload

@[simp] theorem ownPayloads_nil : ownPayloads ([] : List (Message α)) = [] := rfl

@[simp] theorem ownPayloads_append (ms ms' : List (Message α)) :
    ownPayloads (ms ++ ms') = ownPayloads ms ++ ownPayloads ms' := by
  simp [ownPayloads]

theorem ownPayloads_cons (m : Message α) (ms : List (Message α)) :
    ownPayloads (m :: ms) = (if m.own then [m.payload] else []) ++ ownPayloads ms := by
  cases hown : m.own <;> simp [ownPayloads, hown]

theorem ownPayloads_singleton (m : Message α) :
    ownPayloads [m] = if m.own then [m.payload] else [] := by
  rw [ownPayloads_cons, ownPayloads_nil, append_nil]

@[simp] theorem ownPayloads_map_own (as : List α) :
    ownPayloads (as.map fun a => ⟨a, true⟩) = as := by
  induction as with
  | nil => rfl
  | cons a as ih => rw [map_cons, ownPayloads_cons, ih]; rfl

/-- A message of the sender that is taken out is missing. -/
theorem length_ownPayloads_eraseIdx {ms : List (Message α)} {i : ℕ} {m : Message α}
    (hm : ms[i]? = some m) (hown : m.own = true) :
    (ownPayloads (ms.eraseIdx i)).length + 1 = (ownPayloads ms).length := by
  induction ms generalizing i with
  | nil => simp at hm
  | cons m' ms ih =>
    cases i with
    | zero =>
      obtain rfl : m' = m := by simpa using hm
      rw [eraseIdx_cons_zero, ownPayloads_cons, hown, if_pos rfl, length_append, length_singleton,
        Nat.add_comm]
    | succ i =>
      rw [eraseIdx_cons_succ, ownPayloads_cons, ownPayloads_cons m' ms, length_append,
        length_append, Nat.add_assoc, ih (by simpa using hm)]

namespace Link

/-- Nothing has been sent. -/
def empty : Link α := ⟨[], [], []⟩

/-- The sender sends messages. -/
def send (l : Link α) (as : List α) : Link α :=
  { l with sent := l.sent ++ as, wire := l.wire ++ as.map fun a => ⟨a, true⟩ }

/-- Somebody else sends one. -/
def inject (l : Link α) (a : α) : Link α := { l with wire := l.wire ++ [⟨a, false⟩] }

/-- A message on its way is lost. -/
def lose (l : Link α) (i : ℕ) : Link α := { l with wire := l.wire.eraseIdx i }

/-- The first message on its way is received. -/
def receive (l : Link α) (m : Message α) (rest : List (Message α)) : Link α :=
  { l with wire := rest, received := l.received ++ [m] }

/-- The sender's messages, in the order in which they are or will be received. -/
def arrivals (l : Link α) : List α := ownPayloads l.received ++ ownPayloads l.wire

/-- Nothing is duplicated, invented or overtaken. -/
def InOrder (l : Link α) : Prop := l.arrivals <+ l.sent

/-- And nothing is lost. -/
def Complete (l : Link α) : Prop := l.arrivals = l.sent

variable {l : Link α}

theorem arrivals_send (l : Link α) (as : List α) : (l.send as).arrivals = l.arrivals ++ as := by
  simp [arrivals, send]

theorem arrivals_inject (l : Link α) (a : α) : (l.inject a).arrivals = l.arrivals := by
  simp [arrivals, inject, ownPayloads_singleton]

theorem arrivals_receive {m : Message α} {rest : List (Message α)} (h : l.wire = m :: rest) :
    (l.receive m rest).arrivals = l.arrivals := by
  rw [arrivals, arrivals, h, receive, ownPayloads_append, ownPayloads_singleton, ownPayloads_cons,
    append_assoc]

theorem arrivals_lose (l : Link α) (i : ℕ) : (l.lose i).arrivals <+ l.arrivals :=
  ((((eraseIdx_sublist l.wire i).filter _).map _).append_left _)

theorem InOrder.send (h : l.InOrder) (as : List α) : (l.send as).InOrder := by
  rw [InOrder, arrivals_send]
  exact h.append_right as

theorem InOrder.inject (h : l.InOrder) (a : α) : (l.inject a).InOrder := by
  rw [InOrder, arrivals_inject]
  exact h

theorem InOrder.lose (h : l.InOrder) (i : ℕ) : (l.lose i).InOrder :=
  (arrivals_lose l i).trans h

theorem InOrder.receive (h : l.InOrder) {m : Message α} {rest : List (Message α)}
    (hwire : l.wire = m :: rest) : (l.receive m rest).InOrder := by
  rw [InOrder, arrivals_receive hwire]
  exact h

/-- What has been received is a subsequence of what has been sent. -/
theorem InOrder.sublist (h : l.InOrder) : ownPayloads l.received <+ l.sent :=
  (sublist_append_left _ _).trans h

theorem Complete.send (h : l.Complete) (as : List α) : (l.send as).Complete := by
  rw [Complete, arrivals_send, h]
  rfl

theorem Complete.inject (h : l.Complete) (a : α) : (l.inject a).Complete := by
  rw [Complete, arrivals_inject]
  exact h

theorem Complete.receive (h : l.Complete) {m : Message α} {rest : List (Message α)}
    (hwire : l.wire = m :: rest) : (l.receive m rest).Complete := by
  rw [Complete, arrivals_receive hwire]
  exact h

theorem complete_send_iff (as : List α) : (l.send as).Complete ↔ l.Complete := by
  rw [Complete, arrivals_send]
  exact append_left_inj as

theorem complete_receive_iff {m : Message α} {rest : List (Message α)} (h : l.wire = m :: rest) :
    (l.receive m rest).Complete ↔ l.Complete := by
  rw [Complete, arrivals_receive h]
  rfl

/-- A message that is lost is missing for ever. -/
theorem InOrder.complete_lose_iff (h : l.InOrder) (hown : ∀ m ∈ l.wire, m.own = true) (i : ℕ) :
    (l.lose i).Complete ↔ l.Complete ∧ l.wire.length ≤ i := by
  constructor
  · intro hc
    have heq : (l.lose i).arrivals = l.sent := hc
    refine ⟨h.antisymm (heq ▸ arrivals_lose l i), ?_⟩
    by_contra hi
    have hm : l.wire[i]? = some l.wire[i] := getElem?_eq_getElem (Nat.lt_of_not_le hi)
    have hlen := length_ownPayloads_eraseIdx hm (hown _ (getElem_mem _))
    have hle := h.length_le
    rw [← heq, arrivals, arrivals, length_append, length_append] at hle
    simp only [Link.lose] at hle
    omega
  · rintro ⟨hc, hi⟩
    rw [Link.lose, eraseIdx_of_length_le hi]
    exact hc

/-- When nothing is lost and nothing is on its way, everything has been received. -/
theorem Complete.received_eq (h : l.Complete) (hwire : ownPayloads l.wire = []) :
    ownPayloads l.received = l.sent := by
  rw [← h, arrivals, hwire, append_nil]

end Link

end LossyLink
