import Mathlib.Data.BitVec
import Mathlib.Data.Fin.Basic
import Mathlib.Logic.Function.Basic
import SpecSw.Kernel

/-!
# The NIC: descriptors, packet memory and the driver's device structure

The gateware has `WRN_NR_DESC = 8` transmit descriptors of three registers and a packet memory in
which every descriptor owns 2 kB at a fixed place. The driver keeps a head and a tail index into
the descriptors and, for each of them, what it must remember until the frame is sent and its time
stamp is collected (`struct wrn_desc_pending`). An index is always reduced modulo the number of
descriptors, so it is an element of `Fin WRN_NR_DESC`.

The buffers that reach `dev_kfree_skb_irq` and the time stamps that reach `skb_tstamp_tx` leave the
driver; `WrnDev` lists them, the latest first.

## Main definitions

* `Nic.SkBuff`, `Nic.WrnTxd`, `Nic.WrnDescPending`, `Nic.WrnDev`.
* `Nic.wrnDescOffset`, `Nic.wrnCopyOut`: the packet memory (`nic-mem.h`).
-/

namespace SpecSw.Nic

abbrev Byte := BitVec 8

/-! ### Constants of `nic-hardware.h` and the register map -/

/-- `WRN_NR_DESC`: 8 tx and 8 rx descriptors. -/
abbrev wrnNrDesc : ℕ := 8

instance : NeZero wrnNrDesc := ⟨Nat.succ_ne_zero 7⟩

/-- An index into the transmit descriptors. -/
abbrev Desc := Fin wrnNrDesc

/-- `WRN_MTU`. -/
def wrnMtu : ℕ := 1540

/-- `WRN_DDATA_OFFSET`: data in descriptors is offset by that much. -/
def wrnDdataOffset : ℤ := 2

/-- `NIC_TX1_D1_READY`. -/
def nicTx1Ready : BitVec 32 := 1

/-- `NIC_TX1_D1_TS_E`. -/
def nicTx1TsE : BitVec 32 := 4

/-- `NIC_TX1_D1_PAD_E`. -/
def nicTx1PadE : BitVec 32 := 8

/-- `TS_INVALID`, as reported by the hardware. -/
def tsInvalid : BitVec 8 := 2

/-- `SKBTX_HW_TSTAMP`. -/
def skbtxHwTstamp : BitVec 8 := 1

/-- `SKBTX_IN_PROGRESS`. -/
def skbtxInProgress : BitVec 8 := 4

/-! ### Data structures -/

/-- What the network stack asks to transmit: the length, the memory around the first data byte
(`data 0`, as `skb->data` points into a larger buffer) and the time stamping flags of the
`skb_shared_info`. -/
structure Frame where
  len : ℕ
  data : ℤ → Byte
  txFlags : BitVec 8

/-- `struct sk_buff`: a frame in a buffer of its own, named by `handle`. -/
structure SkBuff extends Frame where
  handle : ℕ

/-- `struct wrn_txd`: the registers of a transmit descriptor. -/
structure WrnTxd where
  tx1 : BitVec 32
  tx2 : BitVec 32
  tx3 : BitVec 32

/-- `struct wrn_desc_pending`: what is remembered of a frame given to a descriptor. -/
structure WrnDescPending where
  skb : Option SkBuff
  valid : BitVec 8
  frameId : BitVec 16
  cycles : BitVec 32

/-- The `struct wrn_ep` of the only endpoint: its number and its transmit statistics. -/
structure WrnEp where
  epNumber : ℕ
  txErrors : ℕ
  txPackets : ℕ
  txBytes : ℕ

/-- `struct wrn_dev`, with the registers and the packet memory it points to, and the buffers and
time stamps that have left the driver. -/
structure WrnDev where
  txd : Desc → WrnTxd
  databuf : ℕ → Byte
  nextTxHead : Desc
  nextTxTail : Desc
  skbDesc : Desc → WrnDescPending
  id : BitVec 32
  ep : WrnEp
  freed : List ℕ
  stamped : List (ℕ × Timespec)

/-- `readl(&tx->tx1) & NIC_TX1_D1_READY`. -/
def WrnTxd.ready (tx : WrnTxd) : Bool := tx.tx1 &&& nicTx1Ready != 0

/-- `__wrn_next_desc`. -/
def wrnNextDesc (i : Desc) : Desc := i + 1

namespace WrnDev

variable (wrn : WrnDev)

/-- Assign an entry of `skb_desc[]`. -/
def setDesc (i : Desc) (d : WrnDescPending) : WrnDev :=
  { wrn with skbDesc := Function.update wrn.skbDesc i d }

/-- Assign the registers of a transmit descriptor. -/
def setTxd (i : Desc) (tx : WrnTxd) : WrnDev := { wrn with txd := Function.update wrn.txd i tx }

@[simp] theorem setDesc_skbDesc_self (i : Desc) (d : WrnDescPending) :
    (wrn.setDesc i d).skbDesc i = d := Function.update_self ..

theorem setDesc_skbDesc_of_ne {i j : Desc} (hji : j ≠ i) (d : WrnDescPending) :
    (wrn.setDesc i d).skbDesc j = wrn.skbDesc j := Function.update_of_ne hji ..

@[simp] theorem setTxd_txd_self (i : Desc) (tx : WrnTxd) : (wrn.setTxd i tx).txd i = tx :=
  Function.update_self ..

theorem setTxd_txd_of_ne {i j : Desc} (hji : j ≠ i) (tx : WrnTxd) :
    (wrn.setTxd i tx).txd j = wrn.txd j := Function.update_of_ne hji ..

/-- `dev_kfree_skb_irq`: the buffer leaves the driver. -/
def devKfreeSkbIrq (skb : SkBuff) : WrnDev := { wrn with freed := skb.handle :: wrn.freed }

/-- `skb_tstamp_tx`: the time stamp of a buffer is delivered. -/
def skbTstampTx (skb : SkBuff) (ts : Timespec) : WrnDev :=
  { wrn with stamped := (skb.handle, ts) :: wrn.stamped }

end WrnDev

/-! ### The packet memory -/

/-- `enum wrn_ddir`. -/
inductive WrnDdir
  | rx
  | tx
  deriving DecidableEq

/-- `__wrn_desc_offset`: descriptor memory in fixed positions, 2 kB each. -/
def wrnDescOffset (dir : WrnDdir) (nr : Desc) : ℕ :=
  0x800 * (if dir = .rx then nr.val + wrnNrDesc else nr.val)

/-- `get_unaligned_le32`. -/
def getUnalignedLe32 (mem : ℤ → Byte) (p : ℤ) : BitVec 32 :=
  mem (p + 3) ++ mem (p + 2) ++ mem (p + 1) ++ mem p

/-- `writel` into the packet memory, little endian. -/
def writelMem (ram : ℕ → Byte) (addr : ℕ) (v : BitVec 32) : ℕ → Byte := fun a =>
  if a = addr then v.extractLsb' 0 8
  else if a = addr + 1 then v.extractLsb' 8 8
  else if a = addr + 2 then v.extractLsb' 16 8
  else if a = addr + 3 then v.extractLsb' 24 8
  else ram a

/-- The `while (size > 0)` loop of `__wrn_copy_out`. -/
def wrnCopyOutLoop (ram : ℕ → Byte) (dst : ℕ) (mem : ℤ → Byte) (src size : ℤ) : ℕ → Byte :=
  if 0 < size then
    wrnCopyOutLoop (writelMem ram dst (getUnalignedLe32 mem src)) (dst + 4) mem (src + 4) (size - 4)
  else ram
termination_by size.toNat

/-- `__wrn_copy_out`: copy `size` bytes of a buffer, whose first byte is `mem 0`, to the packet
memory at `dst`, starting `WRN_DDATA_OFFSET` bytes before the data. -/
def wrnCopyOut (ram : ℕ → Byte) (dst : ℕ) (mem : ℤ → Byte) (size : ℤ) : ℕ → Byte :=
  wrnCopyOutLoop ram dst mem (0 - wrnDdataOffset) (size + wrnDdataOffset)

/-! ### The state after `wrn_probe` -/

/-- An empty entry of `skb_desc[]`. -/
def WrnDescPending.zero : WrnDescPending := ⟨none, 0, 0, 0⟩

/-- What the hardware holds before the driver is probed. -/
structure PowerOn where
  databuf : ℕ → Byte
  tx2 : Desc → BitVec 32
  tx3 : Desc → BitVec 32

/-- The device once `wrn_probe` has returned 0: the structure was allocated zeroed and register 1
of every transmit descriptor is cleared. -/
def wrnProbe (hw : PowerOn) : WrnDev where
  txd i := ⟨0, hw.tx2 i, hw.tx3 i⟩
  databuf := hw.databuf
  nextTxHead := 0
  nextTxTail := 0
  skbDesc _ := .zero
  id := 0
  ep := ⟨0, 0, 0, 0⟩
  freed := []
  stamped := []

end SpecSw.Nic
