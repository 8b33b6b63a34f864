import SpecSw.Nic.Interrupt

/-!
# What the hardware puts on the wire

A frame shorter than 60 bytes is filled up by the hardware when `PAD_E` is set in its descriptor,
and `__wrn_tx_desc` sets it for exactly these (`PadInv`). So every frame is on the wire with its own
bytes, filled up to 60 where it is shorter (`nicOnWire_eq`).

Only the hardware adds to the frames sent and to the frames stored.

## Main definitions

* `Nic.filled`, `Nic.nicOnWire`, `Nic.PadInv`.
* `Nic.NicSystem.transmitted`, `Nic.NicSystem.taken`.

## Main results

* `Nic.PadInv.step`, `Nic.nicOnWire_eq`.
* `Nic.NicSystem.sent_step`, `Nic.NicSystem.stored_step`.
-/

namespace SpecSw.Nic

/-! ### Padding -/

/-- `tx1 & NIC_TX1_D1_PAD_E`. -/
def WrnTxd.padEnabled (tx : WrnTxd) : Bool := tx.tx1 &&& nicTx1PadE != 0

section Pad

variable (pad : ℕ → Byte)

/-- Bytes filled up to 60, with the byte `pad k` at the place `k`. -/
def filled (bytes : List Byte) : List Byte :=
  bytes ++ (List.range (60 - bytes.length)).map fun k => pad (bytes.length + k)

/-- The bytes that the hardware puts on the wire from a transmit descriptor. -/
def nicOnWire (wrn : WrnDev) (i : Desc) : List Byte :=
  if (wrn.txd i).padEnabled then filled pad (nicFrame wrn i).bytes else (nicFrame wrn i).bytes

variable {pad}

theorem filled_of_le {bytes : List Byte} (h : 60 ≤ bytes.length) : filled pad bytes = bytes := by
  rw [filled, Nat.sub_eq_zero_of_le h, List.range_zero, List.map_nil, List.append_nil]

end Pad

/-- `PAD_E` is set in the `READY` descriptors with less than 60 bytes. -/
def PadInv (wrn : WrnDev) : Prop :=
  ∀ i, (wrn.txd i).ready = true → (wrn.txd i).padEnabled = decide ((wrn.txd i).len < 60)

theorem nicOnWire_eq {pad : ℕ → Byte} {wrn : WrnDev} (h : PadInv wrn) {i : Desc}
    (hready : (wrn.txd i).ready = true) :
    nicOnWire pad wrn i = filled pad (nicFrame wrn i).bytes := by
  have hlen : (nicFrame wrn i).bytes.length = (wrn.txd i).len := by simp [nicFrame]
  rw [nicOnWire, h i hready]
  by_cases hshort : (wrn.txd i).len < 60
  · rw [decide_eq_true hshort, if_pos rfl]
  · rw [decide_eq_false hshort, if_neg Bool.false_ne_true, filled_of_le (by omega)]

/-- The flag in register 1. -/
theorem padEnabled_tx1 (pad stamp : Bool) (id tx2 tx3 : BitVec 32) :
    (⟨(if pad then nicTx1PadE else 0) ||| nicTx1Ready ||| (if stamp then nicTx1TsE else 0) |||
      id <<< 16, tx2, tx3⟩ : WrnTxd).padEnabled = pad := by
  have hpad : id <<< 16 &&& nicTx1PadE = 0 := shiftLeft_and_of_lt id _ (by decide)
  rw [WrnTxd.padEnabled, BitVec.and_comm, BitVec.and_or_distrib_left,
    BitVec.and_comm nicTx1PadE (id <<< 16), hpad]
  cases pad <;> cases stamp <;> decide

theorem wrnStartXmit_padEnabled (skb : SkBuff) {wrn : WrnDev} (h : XmitAccepts skb.toFrame wrn) :
    ((wrnStartXmit skb wrn).2.txd wrn.nextTxHead).padEnabled = decide (skb.len < 60) := by
  obtain ⟨hlen, hready⟩ := h
  have hpad := padEnabled_tx1 (decide (skb.len < 60)) (skb.txFlags &&& skbtxHwTstamp != 0)
  simp only [decide_eq_true_eq] at hpad
  simp only [wrnStartXmit, if_neg (Nat.not_lt.mpr hlen), wrnAllocTxDesc, hready,
    Bool.false_eq_true, if_false, wrnTxDesc, WrnDev.setDesc, WrnDev.setTxd, Function.update_self]
  exact hpad _ _ _

namespace PadInv

variable {wrn wrn' : WrnDev}

theorem start (hw : PowerOn) : PadInv (wrnProbe hw) :=
  fun i h => absurd h (by simp [wrnProbe, WrnTxd.ready])

theorem of_txd_eq (h : PadInv wrn) (htxd : wrn'.txd = wrn.txd) : PadInv wrn' := by
  intro i
  rw [htxd]
  exact h i

theorem startXmit (h : PadInv wrn) (skb : SkBuff) : PadInv (wrnStartXmit skb wrn).2 := by
  rcases wrnStartXmit_cases skb wrn with ⟨hacc, -, hnew⟩ | ⟨-, -, hsame⟩
  · intro i hi
    by_cases hhead : i = wrn.nextTxHead
    · rw [hhead, wrnStartXmit_padEnabled skb hacc, (wrnStartXmit_armed skb hacc).len]
    · rw [hnew.txd_of_ne i hhead] at hi ⊢
      exact h i hi
  · exact h.of_txd_eq hsame.txd

theorem transmit (h : PadInv wrn) (i : Desc) : PadInv (hwTxDone i wrn) := by
  intro j hj
  have hne : j ≠ i := by
    rintro rfl
    rw [hwTxDone_ready_self] at hj
    exact Bool.false_ne_true hj
  rw [hwTxDone_txd_of_ne hne] at hj ⊢
  exact h j hj

/-- Every event keeps it. -/
theorem step {s : NicSystem} (h : PadInv s.nic.toWrnDev) (e : NicEvent) :
    PadInv (s.step e).nic.toWrnDev := by
  cases e with
  | startXmit skb => exact h.startXmit skb
  | transmit =>
    simp only [NicSystem.step]
    split_ifs
    · exact h.transmit s.txPtr
    · exact h
  | txInterrupt r => exact h.of_txd_eq (sameWire_wrnTxInterrupt r s.nic.toWrnDev).txd
  | tstampInterrupt r r0 r1 r2 =>
    exact h.of_txd_eq (sameWire_recordTstamp r s.nic.toWrnDev r0 r1 r2).txd
  | receive frame =>
    simp only [NicSystem.step]
    split_ifs
    · exact h.of_txd_eq rfl
    · exact h
  | rxRound r fresh =>
    simp only [NicSystem.step]
    split
    · exact h
    · rename_i nic hround
      simp only [wrnRxRound] at hround
      split_ifs at hround
      rw [← Option.some.inj hround]
      exact h.of_txd_eq (by rw [toWrnDev_wrnRxDescriptor])

end PadInv

/-! ### What is sent and stored -/

namespace NicSystem

/-- The frame that the hardware sends in an event. -/
def transmitted (s : NicSystem) : NicEvent → List SentFrame
  | .transmit => if (s.nic.txd s.txPtr).ready then [nicFrame s.nic.toWrnDev s.txPtr] else []
  | _ => []

/-- The frame that the hardware stores in an event. -/
def taken (s : NicSystem) : NicEvent → List RxFrame
  | .receive frame => if (s.nic.rxd s.rxPtr).empty then [frame] else []
  | _ => []

theorem sent_step (s : NicSystem) (e : NicEvent) :
    (s.step e).sent = s.sent ++ s.transmitted e := by
  cases e with
  | transmit =>
    simp only [step, transmitted]
    split_ifs <;> simp
  | receive frame =>
    simp only [step, transmitted, List.append_nil]
    split_ifs <;> rfl
  | rxRound r fresh =>
    simp only [step, transmitted, List.append_nil]
    split <;> rfl
  | _ => exact (List.append_nil _).symm

theorem stored_step (s : NicSystem) (e : NicEvent) :
    (s.step e).stored = s.stored ++ s.taken e := by
  cases e with
  | transmit =>
    simp only [step, taken, List.append_nil]
    split_ifs <;> rfl
  | receive frame =>
    simp only [step, taken]
    split_ifs <;> simp
  | rxRound r fresh =>
    simp only [step, taken, List.append_nil]
    split <;> rfl
  | _ => exact (List.append_nil _).symm

end NicSystem

end SpecSw.Nic
