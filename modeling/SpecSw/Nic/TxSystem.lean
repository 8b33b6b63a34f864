import SpecSw.Library.Run
import SpecSw.Nic.TxInterrupt

/-!
# The transmit path as a system

The network stack, the hardware and the two interrupts act on the device in any order; each call
and each interrupt runs to its end. An event carries what its step depends on: the frame to
transmit, the descriptor whose frame the hardware has sent, the FIFO registers of a time stamp and
the PPS registers as they are read.

Besides the device, the state of the system records what an observer outside the driver knows: the
buffers that the network stack has handed over, each with a name of its own, and the descriptors of
the accepted frames that the tail has not passed since.

## Main definitions

* `Nic.TxEvent`, `Nic.TxSystem`, `Nic.TxSystem.step`, `Nic.TxSystem.start`.
-/

namespace SpecSw.Nic

open CyclicWindow

/-- `NETDEV_TX_BUSY`: the only value of `ndo_start_xmit` that leaves the buffer with its caller. -/
def netdevTxBusy : ℤ := 0x10

/-- What can happen to the transmit path. -/
inductive TxEvent
  | startXmit (frame : Frame)
  | txDone (i : Desc)
  | txInterrupt (r : Desc → PpsgReads)
  | tstampInterrupt (r : PpsgReads) (r0 r1 r2 : BitVec 32)

/-- The hardware has sent the frame of a descriptor: it clears `READY`. -/
def hwTxDone (i : Desc) (wrn : WrnDev) : WrnDev :=
  wrn.setTxd i { wrn.txd i with tx1 := (wrn.txd i).tx1 &&& ~~~nicTx1Ready }

/-- The device, the buffers handed over (the latest first), how many calls have been made, and the
descriptors of the accepted frames that the tail has not passed, the oldest first. -/
structure TxSystem where
  wrn : WrnDev
  handed : List ℕ
  calls : ℕ
  waiting : List Desc

namespace TxSystem

/-- Each event, with the book-keeping of the observer. A buffer is handed over unless the call
returns `NETDEV_TX_BUSY`, and a frame is accepted if the call returns 0. -/
def step (s : TxSystem) : TxEvent → TxSystem
  | .startXmit frame =>
    let (ret, wrn) := wrnStartXmit ⟨frame, s.calls⟩ s.wrn
    { wrn := wrn
      handed := if ret = netdevTxBusy then s.handed else s.calls :: s.handed
      calls := s.calls + 1
      waiting := if ret = 0 then s.waiting ++ [s.wrn.nextTxHead] else s.waiting }
  | .txDone i => { s with wrn := hwTxDone i s.wrn }
  | .txInterrupt r =>
    let wrn := wrnTxInterrupt r s.wrn
    { s with
      wrn := wrn
      waiting := s.waiting.filter fun i => ¬ Between s.wrn.nextTxTail wrn.nextTxTail i }
  | .tstampInterrupt r r0 r1 r2 => { s with wrn := wrnTstampInterrupt r r0 r1 r2 s.wrn }

/-- The system once the driver is probed. -/
def start (hw : PowerOn) : TxSystem := ⟨wrnProbe hw, [], 0, []⟩

end TxSystem

theorem hwTxDone_ready_self (i : Desc) (wrn : WrnDev) : ((hwTxDone i wrn).txd i).ready = false := by
  simp [hwTxDone, WrnDev.setTxd, WrnTxd.ready, BitVec.and_assoc, nicTx1Ready]

theorem hwTxDone_txd_of_ne {i j : Desc} (hji : j ≠ i) (wrn : WrnDev) :
    (hwTxDone i wrn).txd j = wrn.txd j := Function.update_of_ne hji _ _

end SpecSw.Nic
