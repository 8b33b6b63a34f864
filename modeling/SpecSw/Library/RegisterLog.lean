import Mathlib.Data.List.Induction

/-!
# Device registers with a log

A program reads and writes registers of a device, and the device may return any values: the value
of each read is given in advance, by the number of accesses before it, so all sequences of values
are covered. The accesses are logged in order, and what a program has done to one register is the
list of the values it has written there.

## Main definitions

* `RegisterLog.Regs`, `RegisterLog.Regs.read`, `RegisterLog.Regs.write`.
* `RegisterLog.writesTo`: the values written to a register.
* `RegisterLog.Writes`: between two states, these values have been written to a register.
* `RegisterLog.Paced`: values are written to a FIFO only where its status has shown room for them.

## Main results

* `RegisterLog.Writes.trans`, `RegisterLog.Writes.read`, `RegisterLog.Writes.write_self`,
  `RegisterLog.Writes.write_of_ne`.
* `RegisterLog.Paced.snoc`, `RegisterLog.Paced.length_writesTo_le`.
-/

namespace RegisterLog

variable {α β : Type*}

/-- An access to a register, with the value read or written. -/
inductive Access (α β : Type*)
  | read (addr : α) (val : β)
  | write (addr : α) (val : β)
  deriving DecidableEq, Repr

/-- The registers: what each read will return, and the accesses so far, the oldest first. -/
structure Regs (α β : Type*) where
  input : ℕ → β
  log : List (Access α β)

/-- Read a register. -/
def Regs.read (addr : α) (r : Regs α β) : β × Regs α β :=
  (r.input r.log.length, { r with log := r.log ++ [.read addr (r.input r.log.length)] })

/-- Write a register. -/
def Regs.write (addr : α) (val : β) (r : Regs α β) : Regs α β :=
  { r with log := r.log ++ [.write addr val] }

@[simp] theorem Regs.length_read (addr : α) (r : Regs α β) :
    (r.read addr).2.log.length = r.log.length + 1 := by
  rw [Regs.read, List.length_append, List.length_singleton]

@[simp] theorem Regs.length_write (addr : α) (val : β) (r : Regs α β) :
    (r.write addr val).log.length = r.log.length + 1 := by
  rw [Regs.write, List.length_append, List.length_singleton]

section Writes

variable [DecidableEq α]

/-- The value that an access writes to a register. -/
def Access.writeTo (addr : α) : Access α β → Option β
  | .read _ _ => none
  | .write a val => if a = addr then some val else none

/-- The values written to a register, in order. -/
def writesTo (addr : α) (log : List (Access α β)) : List β := log.filterMap (Access.writeTo addr)

@[simp] theorem writesTo_append (addr : α) (log log' : List (Access α β)) :
    writesTo addr (log ++ log') = writesTo addr log ++ writesTo addr log' :=
  List.filterMap_append

@[simp] theorem writesTo_singleton (addr : α) (x : Access α β) :
    writesTo addr [x] = (x.writeTo addr).toList := by
  cases h : x.writeTo addr with
  | none => simp [writesTo, h]
  | some val => simp [writesTo, h]

/-- `r'` comes after `r`, and the values written to a register in between are `vals`. -/
def Writes (addr : α) (vals : List β) (r r' : Regs α β) : Prop :=
  ∃ log, r'.log = r.log ++ log ∧ writesTo addr log = vals

variable {addr : α} {vals vals' : List β} {r r' r'' : Regs α β}

theorem Writes.refl (addr : α) (r : Regs α β) : Writes addr [] r r :=
  ⟨[], (List.append_nil r.log).symm, rfl⟩

theorem Writes.trans (h : Writes addr vals r r') (h' : Writes addr vals' r' r'') :
    Writes addr (vals ++ vals') r r'' := by
  obtain ⟨log, hlog, rfl⟩ := h
  obtain ⟨log', hlog', rfl⟩ := h'
  exact ⟨log ++ log', by rw [hlog', hlog, List.append_assoc], writesTo_append addr log log'⟩

/-- One access more. -/
theorem Writes.access (h : Writes addr vals r r') {x : Access α β}
    (hr : r''.log = r'.log ++ [x]) : Writes addr (vals ++ (x.writeTo addr).toList) r r'' :=
  h.trans ⟨[x], hr, writesTo_singleton addr x⟩

theorem Writes.read (h : Writes addr vals r r') (a : α) : Writes addr vals r (r'.read a).2 := by
  have := @Writes.access _ _ _ _ _ _ _ (r'.read a).2 h _ rfl
  rwa [Access.writeTo, Option.toList_none, List.append_nil] at this

theorem Writes.write_self (h : Writes addr vals r r') (val : β) :
    Writes addr (vals ++ [val]) r (r'.write addr val) := by
  have := @Writes.access _ _ _ _ _ _ _ (r'.write addr val) h _ rfl
  rwa [Access.writeTo, if_pos rfl] at this

theorem Writes.write_of_ne (h : Writes addr vals r r') {a : α} (ha : a ≠ addr) (val : β) :
    Writes addr vals r (r'.write a val) := by
  have := @Writes.access _ _ _ _ _ _ _ (r'.write a val) h _ rfl
  rwa [Access.writeTo, if_neg ha, Option.toList_none, List.append_nil] at this

/-- What has been written since the log was empty. -/
theorem Writes.of_start (h : Writes addr vals r r') (hr : r.log = []) :
    writesTo addr r'.log = vals := by
  obtain ⟨log, hlog, rfl⟩ := h
  rw [hlog, hr, List.nil_append]

end Writes

section Paced

variable [DecidableEq α]

/-- How many values may still be written to a FIFO after an access: a read of its status sets this
to `cap` or, when the status does not say that the FIFO is free, to 0. -/
def Access.room (status fifo : α) (free : β → Prop) [DecidablePred free] (cap room : ℕ) :
    Access α β → ℕ
  | .read a val => if a = status then if free val then cap else 0 else room
  | .write a _ => if a = fifo then room - 1 else room

variable (status fifo : α) (free : β → Prop) [DecidablePred free] (cap : ℕ)

/-- How many values may still be written after a log. -/
def roomAfter (log : List (Access α β)) : ℕ := log.foldl (Access.room status fifo free cap) 0

/-- Values are written to the FIFO only where there is room for them. -/
def Paced (log : List (Access α β)) : Prop :=
  ∀ before val after, log = before ++ .write fifo val :: after →
    0 < roomAfter status fifo free cap before

variable {status fifo free cap} {log log' : List (Access α β)}

@[simp] theorem roomAfter_nil : roomAfter status fifo free cap [] = 0 := rfl

@[simp] theorem roomAfter_snoc (log : List (Access α β)) (x : Access α β) :
    roomAfter status fifo free cap (log ++ [x]) =
      x.room status fifo free cap (roomAfter status fifo free cap log) := by
  rw [roomAfter, List.foldl_append]
  rfl

theorem Paced.nil : Paced status fifo free cap [] := by
  intro before val after h
  cases before with
  | nil => cases h
  | cons => cases h

theorem Paced.of_append (h : Paced status fifo free cap (log ++ log')) :
    Paced status fifo free cap log := by
  intro before val after hlog
  exact h before val (after ++ log') (by rw [hlog, List.append_assoc, List.cons_append])

/-- One access more: a value written to the FIFO needs room. -/
theorem Paced.snoc (h : Paced status fifo free cap log) {x : Access α β}
    (hx : ∀ val, x = .write fifo val → 0 < roomAfter status fifo free cap log) :
    Paced status fifo free cap (log ++ [x]) := by
  intro before val after hlog
  rcases after.eq_nil_or_concat with rfl | ⟨after, y, rfl⟩
  · obtain ⟨rfl, hxy⟩ := List.append_inj' hlog rfl
    exact hx val (List.singleton_inj.mp hxy)
  · rw [List.concat_eq_append, ← List.cons_append, ← List.append_assoc] at hlog
    exact h before val after (List.append_inj' hlog rfl).1

/-- Accesses that write nothing to the FIFO. -/
theorem Paced.append (h : Paced status fifo free cap log) (hw : writesTo fifo log' = []) :
    Paced status fifo free cap (log ++ log') := by
  induction log' using List.reverseRecOn with
  | nil => rwa [List.append_nil]
  | append_singleton log' x ih =>
    rw [writesTo_append, List.append_eq_nil_iff] at hw
    rw [← List.append_assoc]
    refine (ih hw.1).snoc fun val hx => ?_
    subst hx
    simp [Access.writeTo] at hw

/-- Between two reads of the status no more values are written than there was room for. -/
theorem Paced.length_writesTo_le (hpaced : Paced status fifo free cap (log ++ log'))
    (hread : ∀ val, .read status val ∉ log') :
    (writesTo fifo log').length + roomAfter status fifo free cap (log ++ log') ≤
      roomAfter status fifo free cap log := by
  induction log' using List.reverseRecOn with
  | nil => simp [writesTo]
  | append_singleton log' x ih =>
    rw [← List.append_assoc] at hpaced ⊢
    have hle := ih hpaced.of_append fun val hmem => hread val (List.mem_append_left _ hmem)
    rw [writesTo_append, List.length_append, roomAfter_snoc]
    cases x with
    | read a val =>
      have hne : a ≠ status := by
        rintro rfl
        exact hread val (List.mem_append_right _ List.mem_cons_self)
      simpa [Access.room, hne, Access.writeTo] using hle
    | write a val =>
      by_cases ha : a = fifo
      · subst ha
        have hroom := hpaced (log ++ log') val [] rfl
        simp only [Access.room, writesTo_singleton, Access.writeTo, if_true, Option.toList_some,
          List.length_singleton]
        omega
      · simpa [Access.room, ha, Access.writeTo] using hle

end Paced

end RegisterLog
