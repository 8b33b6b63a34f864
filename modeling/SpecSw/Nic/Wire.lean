import SpecSw.Library.SlotRing
import SpecSw.Library.Run
import SpecSw.Nic.PacketMemory
import SpecSw.Nic.TxSystem

/-!
# The NIC between the driver and the wire

The hardware walks the descriptors of each direction in a circle, from 0 on. When the transmit
descriptor it is at is `READY`, it sends `LEN` bytes from two bytes behind `OFFSET` of the packet
memory and clears `READY`. When a frame of at most 2000 bytes arrives and the receive descriptor it
is at is `EMPTY`, it stores the frame two bytes behind `OFFSET`, writes its length and its status
and clears `EMPTY`; else the frame is dropped.

`NicSystem` runs the driver with this hardware, both directions on the same packet memory: calls of
`wrn_start_xmit`, the interrupts and the rounds of `wrn_rx_interrupt`, in any order with what the
hardware does. Its state records the accepted and the sent frames, and the stored ones.

## Main definitions

* `Nic.SentFrame`, `Nic.nicFrame`, `Nic.RxFrame`, `Nic.nicStore`.
* `Nic.NicEvent`, `Nic.NicSystem`, `Nic.NicSystem.step`, `Nic.NicSystem.start`.
* `Nic.InBuffer`: the 2 kB of a descriptor.
-/

namespace SpecSw.Nic

/-! ### What the hardware sends -/

/-- `NIC_TX1_D2_OFFSET_R`. -/
def WrnTxd.offset (tx : WrnTxd) : ℕ := (tx.tx2 &&& 0xffff).toNat

/-- `NIC_TX1_D2_LEN_R`. -/
def WrnTxd.len (tx : WrnTxd) : ℕ := (tx.tx2 >>> 16).toNat

/-- `tx1 & NIC_TX1_D1_TS_E`. -/
def WrnTxd.stampEnabled (tx : WrnTxd) : Bool := tx.tx1 &&& nicTx1TsE != 0

/-- A frame on the wire, and whether the hardware is to report its time stamp. -/
@[ext] structure SentFrame where
  bytes : List Byte
  stamp : Bool

/-- The frame that the hardware sends from a transmit descriptor. -/
def nicFrame (wrn : WrnDev) (i : Desc) : SentFrame where
  bytes := (List.range (wrn.txd i).len).map fun k => wrn.databuf ((wrn.txd i).offset + 2 + k)
  stamp := (wrn.txd i).stampEnabled

/-- The frame that `wrn_start_xmit` is asked to send. -/
def Frame.wire (frame : Frame) : SentFrame where
  bytes := (List.range frame.len).map fun k : ℕ => frame.data k
  stamp := frame.txFlags &&& skbtxHwTstamp != 0

/-! ### What the hardware receives -/

/-- A frame that arrives, with what the hardware reports of it: an error, OOB data, a time stamp
that may be incorrect. The port is that of the only endpoint, 0. -/
structure RxFrame where
  len : ℕ
  len_le : len ≤ 2000
  data : ℕ → Byte
  error : Bool
  oob : Bool
  tsIncorrect : Bool
  ts : BitVec 32

namespace RxFrame

variable (frame : RxFrame)

/-- The bytes of the frame. -/
def bytes : List Byte := (List.range frame.len).map frame.data

/-- The driver counts the frame as an error. -/
def errored : Bool := frame.error || !frame.oob

/-- Register 1 of a descriptor with the frame. -/
def status : BitVec 32 :=
  (if frame.error then nicRx1Error else 0) ||| (if frame.oob then nicRx1GotTs else 0) |||
    (if frame.tsIncorrect then nicRx1TsIncorrect else 0)

end RxFrame

/-- The hardware stores a frame in a receive descriptor. -/
def nicStore (i : Desc) (frame : RxFrame) (nic : NicDev) : NicDev :=
  let rx := nic.rxd i
  { nic with
    databuf := fun a =>
      if rx.offset + 2 ≤ a ∧ a < rx.offset + 2 + frame.len then frame.data (a - (rx.offset + 2))
      else nic.databuf a
    rxd := Function.update nic.rxd i
      { rx1 := frame.status
        rx2 := frame.ts
        rx3 := BitVec.ofNat 32 frame.len <<< 16 ||| (rx.rx3 &&& 0xffff) } }

/-! ### The system -/

/-- What can happen between the network stack and the wire. -/
inductive NicEvent
  | startXmit (skb : SkBuff)
  | transmit
  | txInterrupt (r : Desc → PpsgReads)
  | tstampInterrupt (r : PpsgReads) (r0 r1 r2 : BitVec 32)
  | receive (frame : RxFrame)
  | rxRound (r : PpsgReads) (fresh : ℤ → Byte)

/-- The device; where the hardware is among the transmit descriptors, the frames for which
`wrn_start_xmit` has returned 0 and the frames sent; where it is among the receive descriptors and
the frames stored. All lists have the oldest entry first. -/
structure NicSystem where
  nic : NicDev
  txPtr : Desc
  accepted : List Frame
  sent : List SentFrame
  rxPtr : Desc
  stored : List RxFrame

namespace NicSystem

/-- Each event. -/
def step (s : NicSystem) : NicEvent → NicSystem
  | .startXmit skb =>
    let (ret, wrn) := wrnStartXmit skb s.nic.toWrnDev
    { s with
      nic := { s.nic with toWrnDev := wrn }
      accepted := if ret = 0 then s.accepted ++ [skb.toFrame] else s.accepted }
  | .transmit =>
    if (s.nic.txd s.txPtr).ready then
      { s with
        nic := { s.nic with toWrnDev := hwTxDone s.txPtr s.nic.toWrnDev }
        txPtr := s.txPtr + 1
        sent := s.sent ++ [nicFrame s.nic.toWrnDev s.txPtr] }
    else s
  | .txInterrupt r => { s with nic := { s.nic with toWrnDev := wrnTxInterrupt r s.nic.toWrnDev } }
  | .tstampInterrupt r r0 r1 r2 =>
    { s with nic := { s.nic with toWrnDev := wrnTstampInterrupt r r0 r1 r2 s.nic.toWrnDev } }
  | .receive frame =>
    if (s.nic.rxd s.rxPtr).empty then
      { s with
        nic := nicStore s.rxPtr frame s.nic
        rxPtr := s.rxPtr + 1
        stored := s.stored ++ [frame] }
    else s
  | .rxRound r fresh =>
    match wrnRxRound r fresh s.nic with
    | none => s
    | some nic => { s with nic := nic }

/-- The system once the driver is probed. -/
def start (hw : PowerOn) (rx2 : Desc → BitVec 32) : NicSystem :=
  ⟨wrnProbeNic hw rx2, 0, [], [], 0, []⟩

end NicSystem

/-! ### Registers with an offset and a length -/

/-- The lower half is the offset, the upper half the length. -/
theorem toNat_lenOffset {len offset : ℕ} (hlen : len < 65536) (hoffset : offset < 65536) :
    (BitVec.ofNat 32 len <<< 16 ||| BitVec.ofNat 32 offset).toNat = len * 65536 + offset := by
  rw [BitVec.toNat_or, BitVec.toNat_shiftLeft, BitVec.toNat_ofNat, BitVec.toNat_ofNat,
    Nat.mod_eq_of_lt (show len < 2 ^ 32 by omega), Nat.mod_eq_of_lt (show offset < 2 ^ 32 by omega),
    Nat.shiftLeft_eq, Nat.mod_eq_of_lt (by omega), ← Nat.shiftLeft_eq,
    ← Nat.shiftLeft_add_eq_or_of_lt (by simpa using hoffset), Nat.shiftLeft_eq]

theorem lenOffset_fields {len offset : ℕ} (hlen : len < 65536) (hoffset : offset < 65536) :
    ((BitVec.ofNat 32 len <<< 16 ||| BitVec.ofNat 32 offset) &&& 0xffff) = BitVec.ofNat 32 offset ∧
      ((BitVec.ofNat 32 len <<< 16 ||| BitVec.ofNat 32 offset) >>> 16).toNat = len := by
  have hpacked := toNat_lenOffset hlen hoffset
  constructor
  · rw [← BitVec.toNat_inj, BitVec.toNat_and, hpacked, BitVec.toNat_ofNat]
    have hmask := Nat.and_two_pow_sub_one_eq_mod (len * 65536 + offset) 16
    exact hmask.trans (by omega)
  · rw [BitVec.toNat_ushiftRight, hpacked, Nat.shiftRight_eq_div_pow]
    omega

/-! ### The buffers of the descriptors -/

/-- An address is in the 2 kB of a descriptor. -/
def InBuffer (dir : WrnDdir) (i : Desc) (a : ℕ) : Prop :=
  wrnDescOffset dir i ≤ a ∧ a < wrnDescOffset dir i + 0x800

/-- No two descriptors share memory. -/
theorem inBuffer_inj {dir dir' : WrnDdir} {i j : Desc} {a : ℕ} (h : InBuffer dir i a)
    (h' : InBuffer dir' j a) : dir = dir' ∧ i = j := by
  have hi : i.val < 8 := i.isLt
  have hj : j.val < 8 := j.isLt
  have hw : wrnNrDesc = 8 := rfl
  simp only [InBuffer, wrnDescOffset] at h h'
  rw [Fin.ext_iff]
  cases dir <;> cases dir' <;>
    simp only [reduceCtorEq, if_true, if_false, true_and, false_and] at h h' ⊢ <;> omega

theorem wrnDescOffset_lt (dir : WrnDdir) (i : Desc) : wrnDescOffset dir i < 65536 := by
  have hi : i.val < 8 := i.isLt
  have hw : wrnNrDesc = 8 := rfl
  simp only [wrnDescOffset]
  split_ifs <;> omega

end SpecSw.Nic
