import Mathlib.Data.BitVec

/-!
# An I2C bus with one target

The bus has a clock line SCL, driven by the master, and an open-drain data line SDA: it is low when
the master or the target pulls it low. A change of SDA while SCL is high is a START (falling) or
a STOP (rising); otherwise SDA is sampled when SCL rises and changes after SCL has fallen. A byte is
eight bits, the most significant first, with an acknowledge bit after it, low for yes.

A device is given by what it does with whole bytes (`Target`). `Node` is the automaton that makes a
bus participant of it, bit by bit: it acknowledges the bytes it takes, and when it has acknowledged
a byte that makes it send, it sends until the master does not acknowledge. A byte it does not
acknowledge makes it ignore the bus until the next START.

## Main definitions

* `I2cBus.Target`, `I2cBus.Node`, `I2cBus.Bus`.
* `I2cBus.Bus.setSda`, `I2cBus.Bus.setScl`: the master drives a line.
* `I2cBus.Bus.Idle`, `I2cBus.Bus.transactions`.

## Main results

* `I2cBus.Bus.clock_receiving`, `I2cBus.Bus.clock_sending`: one clock of a byte.
-/

namespace I2cBus

variable {σ : Type*}

/-! ### Targets -/

/-- A device: what a START, a STOP and a byte received do, and whether it acknowledges the byte;
whether it then sends, what it sends, and what having sent it does. -/
structure Target (σ : Type*) where
  start : σ → σ
  stop : σ → σ
  receive : σ → BitVec 8 → Bool × σ
  sends : σ → Bool
  byte : σ → BitVec 8
  sent : σ → σ

/-- Where a device is on the bus: it ignores the bus, has sampled `n` bits of a byte, acknowledges,
has put `n` bits of a byte on the line, waits for an acknowledgement, or has got one. -/
inductive Phase
  | idle
  | receiving (n : ℕ) (acc : BitVec 8)
  | acking
  | sending (n : ℕ) (byte : BitVec 8)
  | listening
  | acked
  deriving DecidableEq, Repr

/-- A device on the bus; `sda` is false when it pulls SDA low. -/
structure Node (σ : Type*) where
  dev : σ
  phase : Phase
  sda : Bool

namespace Node

variable (T : Target σ) (d : Node σ)

/-- A device that has put the first bit of its next byte on the line. -/
def load (dev : σ) : Node σ := ⟨dev, .sending 1 (T.byte dev), (T.byte dev).getMsbD 0⟩

/-- A START. -/
def start : Node σ := ⟨T.start d.dev, .receiving 0 0, true⟩

/-- A STOP. -/
def stop : Node σ := ⟨T.stop d.dev, .idle, true⟩

/-- SCL rises with SDA at the level `v`. -/
def rise (v : Bool) : Node σ :=
  match d.phase with
  | .receiving n acc =>
    { d with phase := .receiving (n + 1) (acc <<< 1 ||| (BitVec.ofBool v).setWidth 8) }
  | .listening => { d with phase := if v then .idle else .acked }
  | .idle => d
  | .acking => d
  | .sending _ _ => d
  | .acked => d

/-- The eighth bit of a byte has been sampled. -/
def take (acc : BitVec 8) : Node σ :=
  if (T.receive d.dev acc).1 then ⟨(T.receive d.dev acc).2, .acking, false⟩
  else ⟨(T.receive d.dev acc).2, .idle, true⟩

/-- SCL falls. -/
def fall : Node σ :=
  match d.phase with
  | .receiving n acc => if n = 8 then d.take T acc else d
  | .acking => if T.sends d.dev then load T d.dev else ⟨d.dev, .receiving 0 0, true⟩
  | .sending n byte =>
    if n < 8 then ⟨d.dev, .sending (n + 1) byte, byte.getMsbD n⟩
    else ⟨T.sent d.dev, .listening, true⟩
  | .acked => load T d.dev
  | .idle => d
  | .listening => d

theorem fall_receiving_of_ne {dev : σ} {n : ℕ} (hn : n ≠ 8) (acc : BitVec 8) (s : Bool) :
    fall T ⟨dev, .receiving n acc, s⟩ = ⟨dev, .receiving n acc, s⟩ := if_neg hn

end Node

/-! ### The bus -/

/-- A change of SDA while SCL is high. -/
inductive Cond
  | start
  | stop
  deriving DecidableEq, Repr

/-- The lines as the master drives them, the device, and the changes of SDA while SCL was high, the
oldest first. -/
structure Bus (σ : Type*) where
  scl : Bool
  sda : Bool
  node : Node σ
  conds : List Cond

namespace Bus

/-- The level of SDA. -/
def line (b : Bus σ) : Bool := b.sda && b.node.sda

/-- Note a change of SDA from the level `before`, if SCL is high. -/
def note (before : Bool) (b : Bus σ) : Bus σ :=
  if b.scl && before != b.line then
    { b with conds := b.conds ++ [if b.line then .stop else .start] }
  else b

variable (T : Target σ)

/-- The master drives SDA; the device takes a change while SCL is high for a START or a STOP. -/
def setSda (v : Bool) (b : Bus σ) : Bus σ :=
  let b' := note b.line { b with sda := v }
  let node :=
    if b.scl && b.line && !b'.line then b.node.start T
    else if b.scl && !b.line && b'.line then b.node.stop T
    else b.node
  note b'.line { b' with node := node }

/-- The master drives SCL; the device reacts to the edge. -/
def setScl (v : Bool) (b : Bus σ) : Bus σ :=
  let node :=
    if !b.scl && v then b.node.rise b.line
    else if b.scl && !v then b.node.fall T
    else b.node
  note b.line { b with scl := v, node := node }

/-- Both lines are high. -/
def Idle (b : Bus σ) : Prop := b.scl = true ∧ b.line = true

/-! ### Transactions -/

/-- The changes of SDA while SCL is high in `n` transactions: a START and a STOP each. -/
def transactions : ℕ → List Cond
  | 0 => []
  | n + 1 => .start :: .stop :: transactions n

theorem transactions_add (m n : ℕ) :
    transactions (m + n) = transactions m ++ transactions n := by
  induction m with
  | zero => simp [transactions]
  | succ m ih =>
    rw [Nat.succ_add, transactions, transactions, ih]
    rfl

/-! ### Single changes -/

variable {T} {v s : Bool} {d : Node σ} {cs : List Cond}

/-- While SCL is low, the master may change SDA. -/
@[simp] theorem setSda_low : setSda T v ⟨false, s, d, cs⟩ = ⟨false, v, d, cs⟩ := by
  simp [setSda, note]

/-- When SCL falls, the device may change SDA. -/
@[simp] theorem setScl_fall : setScl T false ⟨true, s, d, cs⟩ = ⟨false, s, d.fall T, cs⟩ := by
  simp [setScl, note]

@[simp] theorem setScl_low : setScl T false ⟨false, s, d, cs⟩ = ⟨false, s, d, cs⟩ := by
  simp [setScl, note]

/-- A device does not change SDA when SCL rises. -/
@[simp] theorem rise_sda : (d.rise v).sda = d.sda := by
  unfold Node.rise
  split <;> rfl

@[simp] theorem setScl_rise :
    setScl T true ⟨false, s, d, cs⟩ = ⟨true, s, d.rise (s && d.sda), cs⟩ := by
  simp [setScl, note, line]

/-- SDA falls while SCL is high. -/
theorem setSda_start (hd : d.sda = true) :
    setSda T false ⟨true, true, d, cs⟩ = ⟨true, false, d.start T, cs ++ [.start]⟩ := by
  simp [setSda, note, line, hd]

/-- SDA rises while SCL is high. -/
theorem setSda_stop (hd : d.sda = true) :
    setSda T true ⟨true, false, d, cs⟩ = ⟨true, true, d.stop T, cs ++ [.stop]⟩ := by
  simp [setSda, note, line, hd, Node.stop]

/-! ### One clock -/

/-- A clock with SDA at the level `v` is one more bit of the byte received. -/
theorem clock_receiving (T : Target σ) (v : Bool) (dev : σ) (n : ℕ) (acc : BitVec 8)
    (cs : List Cond) :
    setScl T true ⟨false, v, ⟨dev, .receiving n acc, true⟩, cs⟩ =
      ⟨true, v,
        ⟨dev, .receiving (n + 1) (acc <<< 1 ||| (BitVec.ofBool v).setWidth 8), true⟩, cs⟩ := by
  rw [setScl_rise, Bool.and_true]
  rfl

/-- A clock takes the next bit of a byte that is sent, and the last one leaves the line to the
master. -/
theorem clock_sending (T : Target σ) (dev : σ) (n : ℕ) (byte : BitVec 8) (cs : List Cond) :
    setScl T true ⟨false, true, ⟨dev, .sending n byte, v⟩, cs⟩ =
        ⟨true, true, ⟨dev, .sending n byte, v⟩, cs⟩ ∧
      setScl T false ⟨true, true, ⟨dev, .sending n byte, v⟩, cs⟩ =
        ⟨false, true, if n < 8 then ⟨dev, .sending (n + 1) byte, byte.getMsbD n⟩
          else ⟨T.sent dev, .listening, true⟩, cs⟩ :=
  ⟨setScl_rise, setScl_fall⟩

end Bus

end I2cBus
