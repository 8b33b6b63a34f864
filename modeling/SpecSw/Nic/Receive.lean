import SpecSw.Nic.Tstamp

/-!
# Reception: `__wrn_rx_descriptor` and `wrn_rx_interrupt`

The receive side has `WRN_NR_DESC` descriptors of its own. A descriptor whose `EMPTY` bit is set
belongs to the hardware. `wrn_rx_interrupt`, which runs as a tasklet, takes the descriptors from
`next_rx` on until it meets an empty one: it copies the frame to a fresh buffer, gives the
descriptor back with its full length, completes the time stamp and passes the buffer to
`netif_receive_skb`. A frame with an error, or without its OOB data, is counted and its descriptor
given back.

There is one endpoint, so `dev[]` has one entry. A frame of another port makes the code read behind
that array; `faulted` records it.

## Main definitions

* `Nic.WrnRxd`, `Nic.RxSkb`, `Nic.NicDev`, `Nic.wrnProbeNic`.
* `Nic.wrnCopyIn`, `Nic.rxTime`, `Nic.wrnRxDescriptor`, `Nic.wrnRxRound`.
-/

namespace SpecSw.Nic

/-! ### Registers of a receive descriptor -/

/-- `NIC_RX1_D1_EMPTY`. -/
def nicRx1Empty : BitVec 32 := 1

/-- `NIC_RX1_D1_ERROR`. -/
def nicRx1Error : BitVec 32 := 2

/-- `NIC_RX1_D1_GOT_TS`; it says that the frame has OOB data. -/
def nicRx1GotTs : BitVec 32 := 1 <<< 14

/-- `NIC_RX1_D1_TS_INCORRECT`. -/
def nicRx1TsIncorrect : BitVec 32 := 1 <<< 15

/-- `struct wrn_rxd`: the registers of a receive descriptor. -/
structure WrnRxd where
  rx1 : BitVec 32
  rx2 : BitVec 32
  rx3 : BitVec 32

namespace WrnRxd

variable (rx : WrnRxd)

/-- `rx1 & NIC_RX1_D1_EMPTY`. -/
def empty : Bool := rx.rx1 &&& nicRx1Empty != 0

/-- The conditions of both `goto err_out`: an error, or no OOB data. -/
def errored : Bool := rx.rx1 &&& nicRx1Error != 0 || rx.rx1 &&& nicRx1GotTs == 0

/-- `NIC_RX1_D1_PORT_R`. -/
def port : ℕ := (rx.rx1 >>> 8 &&& 0x3f).toNat

/-- `NIC_RX1_D2_TS_R_R`: the cycle of the rising-edge counter. -/
def tsR : BitVec 32 := rx.rx2 &&& 0x0fffffff

/-- `NIC_RX1_D2_TS_F_R`: the low bits of the falling-edge counter. -/
def tsF : BitVec 32 := rx.rx2 >>> 28

/-- `NIC_RX1_D3_OFFSET_R`. -/
def offset : ℕ := (rx.rx3 &&& 0xffff).toNat

/-- `NIC_RX1_D3_LEN_R`. -/
def len : ℕ := (rx.rx3 >>> 16).toNat

end WrnRxd

/-! ### The device -/

/-- A buffer passed to `netif_receive_skb`: the bytes of the frame and the hardware time stamp, if
one has been given. -/
structure RxSkb where
  bytes : List Byte
  hwtstamp : Option Timespec

/-- `struct wrn_dev` with its receive side: the receive descriptors, `next_rx`, the receive
statistics of the only endpoint, and the buffers passed to `netif_receive_skb`, the oldest first.
`faulted` records a read behind `dev[]`. -/
structure NicDev extends WrnDev where
  rxd : Desc → WrnRxd
  nextRx : Desc
  rxErrors : ℕ
  rxPackets : ℕ
  rxBytes : ℕ
  received : List RxSkb
  faulted : Bool

/-- `(2000 << 16) | offset`: the full length and the place of a receive descriptor. -/
def rxArmed (desc : Desc) : BitVec 32 := 2000 <<< 16 ||| BitVec.ofNat 32 (wrnDescOffset .rx desc)

/-- The device, with its receive side, once `wrn_probe` has returned 0: all receive descriptors are
empty and have their full length. -/
def wrnProbeNic (hw : PowerOn) (rx2 : Desc → BitVec 32) : NicDev where
  toWrnDev := wrnProbe hw
  rxd i := ⟨nicRx1Empty, rx2 i, rxArmed i⟩
  nextRx := 0
  rxErrors := 0
  rxPackets := 0
  rxBytes := 0
  received := []
  faulted := false

/-! ### Copying a frame from the packet memory -/

/-- `readl` from the packet memory, little endian. -/
def readlMem (ram : ℕ → Byte) (addr : ℕ) : BitVec 32 :=
  ram (addr + 3) ++ ram (addr + 2) ++ ram (addr + 1) ++ ram addr

/-- `put_unaligned_le32`. -/
def putUnalignedLe32 (mem : ℤ → Byte) (v : BitVec 32) (p : ℤ) : ℤ → Byte := fun a =>
  if a = p then v.extractLsb' 0 8
  else if a = p + 1 then v.extractLsb' 8 8
  else if a = p + 2 then v.extractLsb' 16 8
  else if a = p + 3 then v.extractLsb' 24 8
  else mem a

/-- The `while (size > 0)` loop of `__wrn_copy_in`. -/
def wrnCopyInLoop (mem : ℤ → Byte) (dst : ℤ) (ram : ℕ → Byte) (src : ℕ) (size : ℤ) : ℤ → Byte :=
  if 0 < size then
    wrnCopyInLoop (putUnalignedLe32 mem (readlMem ram src) dst) (dst + 4) ram (src + 4) (size - 4)
  else mem
termination_by size.toNat

/-- `__wrn_copy_in`: copy `size` bytes from the packet memory at `src`, where the data are
`WRN_DDATA_OFFSET` bytes further on, to a buffer whose first byte is `mem 0`. -/
def wrnCopyIn (mem : ℤ → Byte) (ram : ℕ → Byte) (src : ℕ) (size : ℤ) : ℤ → Byte :=
  wrnCopyInLoop mem (0 - wrnDdataOffset) ram src (size + wrnDdataOffset)

/-! ### One descriptor -/

/-- The time stamp of a received frame: like `txTime`, with bit 31 of the seconds set when the
rising-edge counter is one tick ahead, and then both fields cut to 31 bits. -/
def rxTime (r : PpsgReads) (tsR tsF : BitVec 32) : Timespec :=
  let (counterPpsg, utc) := wrnPpsgReadTime r
  let utc := if counterPpsg < tsR then utc - 1 else utc
  let tvSec := utc &&& 0x7fffffff
  let cntrDiff := (tsR &&& 0xf) - tsF
  let tvSec := if cntrDiff = 1 ∨ cntrDiff = -0xf then tvSec ||| 0x80000000 else tvSec
  -- SPEC: don't do the strange stuff for wr-ptp
  { tvSec := (tvSec &&& ~~~0x80000000).toNat, tvNsec := (tsR.toNat * 8 % 2 ^ 31 : ℕ) }

/-- Rewrite the length of a descriptor, which the reception has modified, and mark it free. -/
def NicDev.rearm (nic : NicDev) (desc : Desc) : NicDev :=
  { nic with
    rxd := Function.update nic.rxd desc
      { nic.rxd desc with rx3 := rxArmed desc, rx1 := nicRx1Empty } }

/-- `__wrn_rx_descriptor`. `fresh` is what the memory of the new buffer holds. -/
def wrnRxDescriptor (r : PpsgReads) (fresh : ℤ → Byte) (nic : NicDev) (desc : Desc) : NicDev :=
  let rx := nic.rxd desc
  if rx.errored then
    -- err_out: account the error to endpoint 0
    { nic.rearm desc with rxErrors := nic.rxErrors + 1 }
  else if rx.port ≠ 0 then { nic with faulted := true }
  else
    let data := wrnCopyIn fresh nic.databuf rx.offset rx.len
    let bytes := (List.range rx.len).map fun k : ℕ => data k
    let hwtstamp :=
      if rx.rx1 &&& nicRx1TsIncorrect = 0 then some (rxTime r rx.tsR rx.tsF) else none
    { nic.rearm desc with
      rxPackets := nic.rxPackets + 1
      rxBytes := nic.rxBytes + rx.len
      received := nic.received ++ [⟨bytes, hwtstamp⟩] }

/-- One round of the `while (1)` loop of `wrn_rx_interrupt`; `none` when it leaves the loop. -/
def wrnRxRound (r : PpsgReads) (fresh : ℤ → Byte) (nic : NicDev) : Option NicDev :=
  let desc := nic.nextRx
  if (nic.rxd desc).empty then none
  else some { wrnRxDescriptor r fresh nic desc with nextRx := wrnNextDesc desc }

end SpecSw.Nic
