import SpecSw.Library.I2cBus

/-!
# An I2C EEPROM of 8 KiB

The standard device with two address bytes. After a START it takes its own address. To write, it
takes two address bytes and then bytes, which go to a page of 32 bytes; a STOP stores them, and for
a number of address bytes after that the device does not answer. To read, it sends from where its
pointer is, which the two address bytes have set, and goes on to the next byte.

How long the device does not answer is a parameter, a function of the number of writes before.

## Main definitions

* `I2cBus.Eeprom`, `I2cBus.eepromTarget`.

## Main results

* `I2cBus.Eeprom.receive_write`, `I2cBus.Eeprom.receive_read`, `I2cBus.Eeprom.receive_busy`: the
  address byte.
* `I2cBus.Eeprom.stop_pending`: a STOP after a byte to write.
-/

namespace I2cBus

/-! ### The device -/

/-- What an EEPROM does with the next byte. -/
inductive Stage
  | standby
  | address
  | addrHigh
  | addrLow (hi : BitVec 8)
  | writing
  | reading
  deriving DecidableEq, Repr

/-- The state of an EEPROM: `pending` are the bytes to store at the next STOP, `busy` is the number
of address bytes it will not answer, and `writes` counts what it has stored. -/
@[ext] structure Eeprom where
  devAddr : BitVec 7
  mem : BitVec 13 → BitVec 8
  ptr : BitVec 13
  stage : Stage
  pending : List (BitVec 13 × BitVec 8)
  busy : ℕ
  writes : ℕ

namespace Eeprom

/-- The next location of a page of 32 bytes, around its end. -/
def pageNext (a : BitVec 13) : BitVec 13 := (a &&& ~~~31) ||| ((a + 1) &&& 31)

/-- A START drops what has not been stored. -/
def start (e : Eeprom) : Eeprom := { e with stage := .address, pending := [] }

/-- A STOP stores what is pending, in the order it came. -/
def stop (busyTime : ℕ → ℕ) (e : Eeprom) : Eeprom :=
  match e.pending with
  | [] => { e with stage := .standby }
  | p :: ps =>
    { e with
      mem := (p :: ps).foldl (fun m q => Function.update m q.1 q.2) e.mem
      stage := .standby
      pending := []
      busy := busyTime e.writes
      writes := e.writes + 1 }

/-- A byte received: the seven bits of the address come first, and then a set bit to read. -/
def receive (e : Eeprom) (b : BitVec 8) : Bool × Eeprom :=
  match e.stage with
  | .address =>
    if b.extractLsb' 1 7 ≠ e.devAddr then (false, { e with stage := .standby })
    else if e.busy ≠ 0 then (false, { e with stage := .standby, busy := e.busy - 1 })
    else if b.getLsbD 0 then (true, { e with stage := .reading })
    else (true, { e with stage := .addrHigh })
  | .addrHigh => (true, { e with stage := .addrLow b })
  | .addrLow hi => (true, { e with stage := .writing, ptr := (hi ++ b).setWidth 13 })
  | .writing => (true, { e with pending := e.pending ++ [(e.ptr, b)], ptr := pageNext e.ptr })
  | .standby => (false, e)
  | .reading => (false, e)

/-- A byte sent. -/
def sent (e : Eeprom) : Eeprom := { e with ptr := e.ptr + 1 }

end Eeprom

/-- The EEPROM as a device on the bus. -/
def eepromTarget (busyTime : ℕ → ℕ) : Target Eeprom where
  start := Eeprom.start
  stop := Eeprom.stop busyTime
  receive := Eeprom.receive
  sends e := e.stage == .reading
  byte e := e.mem e.ptr
  sent := Eeprom.sent

namespace Eeprom

variable {e : Eeprom} {b : BitVec 8}

/-! ### The address byte -/

/-- The address of a device with a clear bit below it starts a write. -/
theorem receive_write (haddr : b.extractLsb' 1 7 = e.devAddr) (hbit : b.getLsbD 0 = false)
    (hbusy : e.busy = 0) :
    e.start.receive b = (true, { e with stage := .addrHigh, pending := [] }) := by
  simp only [start, receive, haddr, hbit, hbusy, ne_eq, not_true_eq_false, Bool.false_eq_true,
    if_false]

/-- The address of a device with a set bit below it starts a read. -/
theorem receive_read (haddr : b.extractLsb' 1 7 = e.devAddr) (hbit : b.getLsbD 0 = true)
    (hbusy : e.busy = 0) :
    e.start.receive b = (true, { e with stage := .reading, pending := [] }) := by
  simp only [start, receive, haddr, hbit, hbusy, ne_eq, not_true_eq_false, if_false, if_true]

/-- A busy device does not answer. -/
theorem receive_busy (haddr : b.extractLsb' 1 7 = e.devAddr) (hbusy : e.busy ≠ 0) :
    e.start.receive b =
      (false, { e with stage := .standby, pending := [], busy := e.busy - 1 }) := by
  simp only [start, receive, haddr, hbusy, ne_eq, not_true_eq_false, not_false_eq_true, if_false,
    if_true]

/-! ### STOP, and a run of bytes -/

theorem stop_empty (busyTime : ℕ → ℕ) (h : e.pending = []) :
    e.stop busyTime = { e with stage := .standby } := by
  rw [stop, h]

/-- A STOP after one byte stores it. -/
theorem stop_pending (busyTime : ℕ → ℕ) {a : BitVec 13} (h : e.pending = [(a, b)]) :
    e.stop busyTime =
      { e with
        mem := Function.update e.mem a b
        stage := .standby
        pending := []
        busy := busyTime e.writes
        writes := e.writes + 1 } := by
  rw [stop, h]
  rfl

/-- After `n` bytes the pointer is `n` further on. -/
theorem sent_iterate (e : Eeprom) (n : ℕ) :
    sent^[n] e = { e with ptr := e.ptr + BitVec.ofNat 13 n } := by
  induction n with
  | zero => ext1 <;> simp
  | succ n ih =>
    have hsum : e.ptr + BitVec.ofNat 13 n + 1 = e.ptr + BitVec.ofNat 13 (n + 1) := by
      rw [BitVec.add_assoc, BitVec.ofNat_add]
      rfl
    rw [Function.iterate_succ_apply', ih, sent, hsum]

end Eeprom

end I2cBus
