import SpecSw.Kernel
import SpecSw.Library.I2cBus

/-!
# The bit-banged I2C master

`spec-i2c.c` drives the two lines of the bus through a register of the system controller, and reads
SDA back. Each definition is the function of that name. Their results are stated for whole bytes: a
byte put on the bus is received by the device (`mi2cPutByte_receiving`), and a byte that the device
sends is read (`mi2cGetByte_sending`), without a START or a STOP.

## Main definitions

* `Carrier.setSda`, `Carrier.setScl`, `Carrier.getSda`.
* `Carrier.mi2cStart`, `Carrier.mi2cStop`, `Carrier.mi2cPutByte`, `Carrier.mi2cGetByte`.

## Main results

* `Carrier.mi2cStart_of_idle`, `Carrier.mi2cStop_released`, `Carrier.mi2cPutByte_receiving`,
  `Carrier.mi2cGetByte_sending`.
-/

namespace SpecSw.Carrier

open I2cBus Errno

variable {σ : Type*} (T : Target σ)

/-- `set_sda`. -/
def setSda (val : BitVec 32) (b : Bus σ) : Bus σ := b.setSda T (val != 0)

/-- `set_scl`. -/
def setScl (val : BitVec 32) (b : Bus σ) : Bus σ := b.setScl T (val != 0)

/-- `get_sda`. -/
def getSda (b : Bus σ) : BitVec 32 := if b.line then 1 else 0

/-- `mi2c_start`. -/
def mi2cStart (b : Bus σ) : Bus σ := setScl T 0 (setSda T 0 b)

/-- `mi2c_stop`. -/
def mi2cStop (b : Bus σ) : Bus σ := setSda T 1 (setScl T 1 (setSda T 0 b))

/-- The loop of `mi2c_put_byte` over the bits, `left` of them to go. -/
def putBits : ℕ → BitVec 32 → Bus σ → Bus σ
  | 0, _, b => b
  | left + 1, data, b =>
    putBits left (data <<< 1) (setScl T 0 (setScl T 1 (setSda T (data &&& 0x80) b)))

/-- `mi2c_put_byte`: ack low is success. -/
def mi2cPutByte (data : BitVec 32) (b : Bus σ) : ℤ × Bus σ :=
  let b := putBits T 8 data b
  let b := setScl T 1 (setSda T 1 b)
  let ack := getSda b
  let b := setSda T 0 (setScl T 0 b)
  (if ack ≠ 0 then -eio else 0, b)

/-- The loop of `mi2c_get_byte` over the bits, `left` of them to go. -/
def getBits : ℕ → BitVec 32 → Bus σ → BitVec 32 × Bus σ
  | 0, indata, b => (indata, b)
  | left + 1, indata, b =>
    let b := setScl T 1 b
    let indata := indata <<< 1
    let indata := if getSda b ≠ 0 then indata ||| 0x01 else indata
    getBits left indata (setScl T 0 b)

/-- `mi2c_get_byte`: the byte it stores in `*data`; it always returns 0. -/
def mi2cGetByte (ack : Bool) (b : Bus σ) : BitVec 8 × Bus σ :=
  let b := setSda T 1 (setScl T 0 b)
  let (indata, b) := getBits T 8 0 b
  let b := setSda T (if ack then 0 else 1) b
  let b := setSda T 0 (setScl T 0 (setScl T 1 b))
  (indata.setWidth 8, b)

@[simp] theorem setSda_one (b : Bus σ) : setSda T 1#32 b = b.setSda T true := rfl

@[simp] theorem setSda_zero (b : Bus σ) : setSda T 0#32 b = b.setSda T false := rfl

@[simp] theorem setScl_one (b : Bus σ) : setScl T 1#32 b = b.setScl T true := rfl

@[simp] theorem setScl_zero (b : Bus σ) : setScl T 0#32 b = b.setScl T false := rfl

/-! ### START and STOP -/

variable {T} {d : Node σ} {cs : List Cond}

/-- On an idle bus, `mi2c_start` is one START. -/
theorem mi2cStart_of_idle {b : Bus σ} (h : b.Idle) :
    mi2cStart T b = ⟨false, false, b.node.start T, b.conds ++ [.start]⟩ := by
  obtain ⟨scl, sda, node, conds⟩ := b
  obtain ⟨rfl, hline⟩ := h
  obtain ⟨rfl, hnode⟩ := Bool.and_eq_true_iff.mp hline
  change Bus.setScl T false (Bus.setSda T false ⟨true, true, node, conds⟩) = _
  rw [Bus.setSda_start hnode, Bus.setScl_fall]
  rfl

/-- When the device has released SDA, `mi2c_stop` is one STOP, and leaves the bus idle. -/
theorem mi2cStop_released {s : Bool} (hd : d.sda = true) :
    mi2cStop T ⟨false, s, d, cs⟩ = ⟨true, true, d.stop T, cs ++ [.stop]⟩ := by
  have hrise : (d.rise false).stop T = d.stop T := by
    unfold Node.rise
    split <;> rfl
  change Bus.setSda T true (Bus.setScl T true (Bus.setSda T false ⟨false, s, d, cs⟩)) = _
  rw [Bus.setSda_low, Bus.setScl_rise, Bool.false_and, Bus.setSda_stop (by rw [Bus.rise_sda, hd]),
    hrise]

/-! ### Putting a byte -/

/-- The test of the code reads bit 7. -/
theorem and_0x80_ne_zero (x : BitVec 32) : (x &&& 0x80 != 0) = x.getLsbD 7 := by
  rw [show (0x80 : BitVec 32) = BitVec.twoPow 32 7 from rfl, BitVec.and_twoPow]
  cases x.getLsbD 7 <;> decide

/-- Shifting in the bit below those of `x >>> (k + 1)`. -/
theorem shiftIn_bit {w : ℕ} (x : BitVec w) (k : ℕ) :
    x >>> (k + 1) <<< 1 ||| (BitVec.ofBool (x.getLsbD k)).setWidth w = x >>> k := by
  refine BitVec.eq_of_getLsbD_eq fun i hi => ?_
  rw [BitVec.getLsbD_or, BitVec.getLsbD_shiftLeft, BitVec.getLsbD_ushiftRight,
    BitVec.getLsbD_setWidth, BitVec.getLsbD_ushiftRight, BitVec.getLsbD_ofBool]
  cases i with
  | zero => simp [hi]
  | succ i =>
    rw [show k + 1 + (i + 1 - 1) = k + (i + 1) by omega]
    simp [hi]

/-- The bus when the bits of `data` above the last `left` have gone to the device. -/
def putting (dev : σ) (data : BitVec 32) (cs : List Cond) (left : ℕ) (s : Bool) : Bus σ :=
  ⟨false, s, ⟨dev, .receiving (8 - left) (data.setWidth 8 >>> left), true⟩, cs⟩

/-- One turn of the loop. -/
theorem putBits_succ (dev : σ) (data : BitVec 32) (cs : List Cond) {left : ℕ} (s : Bool)
    (hleft : left < 8) :
    setScl T 1 (setSda T (data <<< (7 - left) &&& 0x80) (putting dev data cs (left + 1) s)) =
      ⟨true, (data.setWidth 8).getLsbD left,
        ⟨dev, .receiving (8 - left) (data.setWidth 8 >>> left), true⟩, cs⟩ := by
  have hbit : (data <<< (7 - left) &&& 0x80 != 0) = (data.setWidth 8).getLsbD left := by
    have hle : ¬ 7 < 7 - left := by omega
    rw [and_0x80_ne_zero, BitVec.getLsbD_shiftLeft, BitVec.getLsbD_setWidth,
      show 7 - (7 - left) = left by omega]
    simp [hle, hleft]
  have hclock := Bus.clock_receiving T ((data.setWidth 8).getLsbD left) dev (8 - (left + 1))
    (data.setWidth 8 >>> (left + 1)) cs
  rw [shiftIn_bit, show 8 - (left + 1) + 1 = 8 - left by omega] at hclock
  rw [setScl, setSda, hbit, putting, Bus.setSda_low]
  exact hclock

/-- The bits of a byte go to the device, the most significant first. -/
theorem putBits_receiving (dev : σ) (data : BitVec 32) (cs : List Cond) (left : ℕ) (s : Bool)
    (hleft : left < 8) :
    ∃ s', putBits T (left + 1) (data <<< (7 - left)) (putting dev data cs (left + 1) s) =
      ⟨false, s',
        Node.take T ⟨dev, .receiving 8 (data.setWidth 8), true⟩ (data.setWidth 8), cs⟩ := by
  induction left generalizing s with
  | zero =>
    rw [putBits, putBits_succ dev data cs s hleft]
    exact ⟨_, Bus.setScl_fall⟩
  | succ left ih =>
    obtain ⟨s', hs'⟩ := ih ((data.setWidth 8).getLsbD (left + 1)) (by omega)
    refine ⟨s', ?_⟩
    have hfall : setScl T 0 ⟨true, (data.setWidth 8).getLsbD (left + 1),
        ⟨dev, .receiving (8 - (left + 1)) (data.setWidth 8 >>> (left + 1)), true⟩, cs⟩ =
        putting dev data cs (left + 1) ((data.setWidth 8).getLsbD (left + 1)) :=
      Bus.setScl_fall.trans (by rw [Node.fall_receiving_of_ne T (by omega), putting])
    rw [putBits, putBits_succ dev data cs s hleft, hfall, ← BitVec.shiftLeft_add,
      show 7 - (left + 1) + 1 = 7 - left by omega]
    exact hs'

/-- A byte put on the bus is received by a device that listens, and the result says whether the
device has acknowledged it. The device then sends if it is to, or waits for the next byte, or
ignores the bus. -/
theorem mi2cPutByte_receiving (dev : σ) (data : BitVec 32) (cs : List Cond) (s : Bool) :
    mi2cPutByte T data ⟨false, s, ⟨dev, .receiving 0 0, true⟩, cs⟩ =
      if (T.receive dev (data.setWidth 8)).1 then
        (0, ⟨false, false,
          Node.fall T ⟨(T.receive dev (data.setWidth 8)).2, .acking, false⟩, cs⟩)
      else (-eio, ⟨false, false, ⟨(T.receive dev (data.setWidth 8)).2, .idle, true⟩, cs⟩) := by
  obtain ⟨s', hbits⟩ := putBits_receiving (T := T) dev data cs 7 s (by decide)
  have hzero : data.setWidth 8 >>> 8 = (0 : BitVec 8) := by
    refine BitVec.eq_of_getLsbD_eq fun i hi => ?_
    rw [BitVec.getLsbD_ushiftRight, BitVec.getLsbD_of_ge _ _ (by omega)]
    simp
  have hstart : putting dev data cs 8 s = ⟨false, s, ⟨dev, .receiving 0 0, true⟩, cs⟩ := by
    rw [putting, hzero]
  rw [hstart, show data <<< (7 - 7) = data by simp] at hbits
  rw [mi2cPutByte, hbits, Node.take]
  cases hack : (T.receive dev (data.setWidth 8)).1 with
  | true => simp [getSda, Bus.line, Node.rise]
  | false => simp [getSda, Bus.line, Node.rise, Node.fall]

/-- The device acknowledges the byte and waits for the next one. -/
theorem mi2cPutByte_acked {dev dev' : σ} {data : BitVec 32} {s : Bool}
    (hack : T.receive dev (data.setWidth 8) = (true, dev')) (hsends : T.sends dev' = false) :
    mi2cPutByte T data ⟨false, s, ⟨dev, .receiving 0 0, true⟩, cs⟩ =
      (0, ⟨false, false, ⟨dev', .receiving 0 0, true⟩, cs⟩) := by
  rw [mi2cPutByte_receiving, hack]
  simp [Node.fall, hsends]

/-- The device acknowledges the byte and puts the first bit of its own on the line. -/
theorem mi2cPutByte_acked_sends {dev dev' : σ} {data : BitVec 32} {s : Bool}
    (hack : T.receive dev (data.setWidth 8) = (true, dev')) (hsends : T.sends dev' = true) :
    mi2cPutByte T data ⟨false, s, ⟨dev, .receiving 0 0, true⟩, cs⟩ =
      (0, ⟨false, false, Node.load T dev', cs⟩) := by
  rw [mi2cPutByte_receiving, hack]
  simp [Node.fall, hsends]

/-- The device does not acknowledge the byte. -/
theorem mi2cPutByte_refused {dev : σ} {data : BitVec 32} {s : Bool}
    (hack : (T.receive dev (data.setWidth 8)).1 = false) :
    mi2cPutByte T data ⟨false, s, ⟨dev, .receiving 0 0, true⟩, cs⟩ =
      (-eio, ⟨false, false, ⟨(T.receive dev (data.setWidth 8)).2, .idle, true⟩, cs⟩) := by
  rw [mi2cPutByte_receiving, hack, if_neg Bool.false_ne_true]

/-! ### Getting a byte -/

/-- One turn of the loop adds the bit on the line. -/
theorem shiftIn_sda (x : BitVec 32) (b : Bus σ) (k : ℕ) (hline : b.line = x.getLsbD k) :
    (if getSda b ≠ 0 then x >>> (k + 1) <<< 1 ||| 0x01 else x >>> (k + 1) <<< 1) = x >>> k := by
  have hshift := shiftIn_bit x k
  rw [← hline] at hshift
  rw [getSda]
  cases hv : b.line with
  | true => simpa [hv] using hshift
  | false => simpa [hv] using hshift

/-- The bus when the device has put the bit `left` of its byte on the line. -/
def getting (dev : σ) (byte : BitVec 8) (cs : List Cond) (left : ℕ) : Bus σ :=
  ⟨false, true, ⟨dev, .sending (8 - left) byte, byte.getMsbD (7 - left)⟩, cs⟩

/-- One turn of the loop. -/
theorem getBits_succ (dev : σ) (byte : BitVec 8) (cs : List Cond) {left : ℕ} (hleft : left < 8) :
    getBits T (left + 1) (byte.setWidth 32 >>> (left + 1)) (getting dev byte cs left) =
      getBits T left (byte.setWidth 32 >>> left)
        ⟨false, true,
          if 8 - left < 8 then ⟨dev, .sending (8 - left + 1) byte, byte.getMsbD (8 - left)⟩
          else ⟨T.sent dev, .listening, true⟩, cs⟩ := by
  have hbit : byte.getMsbD (7 - left) = (byte.setWidth 32).getLsbD left := by
    have hlt : 7 - left < 8 := by omega
    rw [BitVec.getMsbD, BitVec.getLsbD_setWidth, show 8 - 1 - (7 - left) = left by omega]
    simp [hlt, show left < 32 by omega]
  obtain ⟨hrise, hfall⟩ := Bus.clock_sending (v := byte.getMsbD (7 - left)) T dev (8 - left) byte cs
  have hindata := shiftIn_sda (byte.setWidth 32)
    (⟨true, true, ⟨dev, .sending (8 - left) byte, byte.getMsbD (7 - left)⟩, cs⟩ : Bus σ) left
    ((Bool.true_and _).trans hbit)
  have hone : setScl T 1 (getting dev byte cs left) =
      ⟨true, true, ⟨dev, .sending (8 - left) byte, byte.getMsbD (7 - left)⟩, cs⟩ := hrise
  rw [getBits, hone, hindata]
  exact congrArg (getBits T left _) hfall

/-- The bits of a byte come from the device, the most significant first. -/
theorem getBits_sending (dev : σ) (byte : BitVec 8) (cs : List Cond) {left : ℕ} (hleft : left < 8) :
    getBits T (left + 1) (byte.setWidth 32 >>> (left + 1)) (getting dev byte cs left) =
      (byte.setWidth 32, ⟨false, true, ⟨T.sent dev, .listening, true⟩, cs⟩) := by
  induction left with
  | zero =>
    rw [getBits_succ dev byte cs hleft]
    simp [getBits]
  | succ left ih =>
    have hlt : 8 - (left + 1) < 8 := by omega
    rw [getBits_succ dev byte cs hleft, if_pos hlt, show 8 - (left + 1) + 1 = 8 - left by omega,
      show 8 - (left + 1) = 7 - left by omega]
    exact ih (by omega)

/-- A byte that the device sends is read. With an acknowledgement the device goes on to its next
byte, without one it ignores the bus. -/
theorem mi2cGetByte_sending (dev : σ) (ack s : Bool) (cs : List Cond) :
    mi2cGetByte T ack ⟨false, s, Node.load T dev, cs⟩ =
      (T.byte dev, ⟨false, false,
        if ack then Node.load T (T.sent dev) else ⟨T.sent dev, .idle, true⟩, cs⟩) := by
  have hbits := getBits_sending (T := T) dev (T.byte dev) cs (show 7 < 8 by decide)
  have hzero : (T.byte dev).setWidth 32 >>> 8 = (0 : BitVec 32) := by
    refine BitVec.eq_of_getLsbD_eq fun i hi => ?_
    rw [BitVec.getLsbD_ushiftRight, BitVec.getLsbD_setWidth, BitVec.getLsbD_of_ge _ _ (by omega)]
    simp
  have hstart : Bus.setSda T true (Bus.setScl T false ⟨false, s, Node.load T dev, cs⟩) =
      getting dev (T.byte dev) cs 7 := by
    rw [Bus.setScl_low, Bus.setSda_low]
    rfl
  rw [hzero] at hbits
  have hone : setSda T 1 (setScl T 0 ⟨false, s, Node.load T dev, cs⟩) =
      getting dev (T.byte dev) cs 7 := hstart
  rw [mi2cGetByte, hone]
  simp only [hbits]
  cases ack with
  | true => simp [Node.rise, Node.fall]
  | false => simp [Node.rise, Node.fall]

end SpecSw.Carrier
