import SpecSw.Nic.RxDelivery
import SpecSw.Nic.TxDelivery

/-!
# Frames are sent and received once, in order and intact

Every event of `NicSystem` keeps both queues (`NicInv.step`): a call writes only the memory of the
descriptor at the head, which is not `READY`, and the hardware writes only the memory of an empty
receive descriptor, so neither direction disturbs the other, and no frame is overwritten while its
descriptor holds it.

So the frames accepted are those sent and those in the `READY` descriptors (`sentFrames`), and the
frames passed on are the error-free ones of those stored that `wrn_rx_interrupt` has come to, where
a round at a full descriptor comes to the next one (`receivedFrames`).

## Main definitions

* `Nic.NicSystem.NicInv`.

## Main results

* `Nic.NicSystem.sentFrames`, `Nic.NicSystem.receivedFrames`.
-/

namespace SpecSw.Nic

open EventRun SlotRing

/-! ### The two directions do not meet -/

/-- A round of `wrn_rx_interrupt` leaves the transmit side and the packet memory alone. -/
theorem toWrnDev_wrnRxDescriptor (r : PpsgReads) (fresh : ℤ → Byte) (nic : NicDev) (desc : Desc) :
    (wrnRxDescriptor r fresh nic desc).toWrnDev = nic.toWrnDev := by
  simp only [wrnRxDescriptor]
  split_ifs <;> rfl

/-- What the hardware stores is in the memory of the receive descriptor. -/
theorem nicStore_databuf_tx {nic : NicDev} {p : Desc} {frame : RxFrame}
    (hoffset : (nic.rxd p).offset = wrnDescOffset .rx p) {i : Desc} {a : ℕ}
    (ha : InBuffer .tx i a) : (nicStore p frame nic).databuf a = nic.databuf a := by
  refine if_neg ?_
  rw [hoffset]
  rintro ⟨hlo, hhi⟩
  have hlen := frame.len_le
  have hin : InBuffer .rx p a := ⟨by omega, by omega⟩
  exact absurd (inBuffer_inj ha hin).1 (by decide)

/-- A call leaves the memory of the receive descriptors alone. -/
theorem wrnStartXmit_databuf_rx (skb : SkBuff) (wrn : WrnDev) {i : Desc} {a : ℕ}
    (ha : InBuffer .rx i a) : (wrnStartXmit skb wrn).2.databuf a = wrn.databuf a :=
  wrnStartXmit_databuf_of_not_inBuffer skb fun hin =>
    absurd (inBuffer_inj ha hin).1 (by decide)

namespace NicSystem

/-! ### The invariant -/

/-- Both queues. -/
structure NicInv (s : NicSystem) : Prop where
  tx : TxInv s.nic.toWrnDev s.txPtr s.accepted s.sent
  rx : RxInv s.nic s.rxPtr s.stored

theorem nicInv_start (hw : PowerOn) (rx2 : Desc → BitVec 32) : NicInv (start hw rx2) :=
  ⟨txInv_start hw, rxInv_start hw rx2⟩

theorem NicInv.step {s : NicSystem} (h : NicInv s) (e : NicEvent) : NicInv (s.step e) := by
  cases e with
  | startXmit skb =>
    exact ⟨h.tx.startXmit skb, h.rx.congr rfl rfl rfl rfl rfl
      fun _ _ ha => wrnStartXmit_databuf_rx skb _ ha⟩
  | transmit =>
    simp only [NicSystem.step]
    split_ifs with hready
    · exact ⟨h.tx.transmit hready, h.rx.congr rfl rfl rfl rfl rfl fun _ _ _ => rfl⟩
    · exact h
  | txInterrupt r =>
    have hs := sameWire_wrnTxInterrupt r s.nic.toWrnDev
    exact ⟨h.tx.of_sameWire hs, h.rx.congr rfl rfl rfl rfl rfl fun _ _ _ => congrFun hs.databuf _⟩
  | tstampInterrupt r r0 r1 r2 =>
    have hs := sameWire_recordTstamp r s.nic.toWrnDev r0 r1 r2
    exact ⟨h.tx.of_sameWire hs, h.rx.congr rfl rfl rfl rfl rfl fun _ _ _ => congrFun hs.databuf _⟩
  | receive frame =>
    simp only [NicSystem.step]
    split_ifs with hempty
    · exact ⟨h.tx.congr rfl rfl fun _ _ ha => nicStore_databuf_tx (h.rx.offset s.rxPtr) ha,
        h.rx.receive hempty frame⟩
    · exact h
  | rxRound r fresh =>
    simp only [NicSystem.step]
    split
    · exact h
    · rename_i nic hround
      have hdev : nic.toWrnDev = s.nic.toWrnDev := by
        simp only [wrnRxRound] at hround
        split_ifs at hround
        rw [← Option.some.inj hround]
        exact toWrnDev_wrnRxDescriptor r fresh s.nic _
      refine ⟨?_, h.rx.round hround⟩
      rw [hdev]
      exact h.tx

theorem nicInv_run (hw : PowerOn) (rx2 : Desc → BitVec 32) (es : List NicEvent) :
    NicInv (run NicSystem.step (start hw rx2) es) :=
  run_invariant (I := fun _ s => NicInv s) (nicInv_start hw rx2) (fun _ _ e h => h.step e) es

/-! ### Transmission -/

/-- A call leaves the frame of a `READY` descriptor as it is. -/
theorem NicInv.nicFrame_startXmit {s : NicSystem} (h : NicInv s) (skb : SkBuff) {i : Desc}
    (hready : (s.nic.txd i).ready = true) :
    ((wrnStartXmit skb s.nic.toWrnDev).2.txd i).ready = true ∧
      nicFrame (wrnStartXmit skb s.nic.toWrnDev).2 i = nicFrame s.nic.toWrnDev i := by
  rcases wrnStartXmit_cases skb s.nic.toWrnDev with ⟨hacc, -, hnew⟩ | ⟨-, -, hsame⟩
  · have hi : i ≠ s.nic.nextTxHead := by
      rintro rfl
      exact absurd hready (by simp [hacc.2])
    have htxd := hnew.txd_of_ne i hi
    refine ⟨by rw [htxd]; exact hready, h.tx.nicFrame_congr hready htxd fun a ha => ?_⟩
    exact wrnStartXmit_databuf_of_not_inBuffer skb fun hin => hi (inBuffer_inj ha hin).2
  · rw [hsame.txd]
    exact ⟨hready, h.tx.nicFrame_congr hready (by rw [hsame.txd]) fun a _ =>
      congrFun hsame.databuf a⟩

/-- **Transmitted frames.** In every run the accepted frames are the sent ones followed by those in
the `READY` descriptors, in order and each with its bytes, its length and its request for a time
stamp. A call that follows leaves the frames that are still to be sent as they are, and writes no
memory of a descriptor other than the transmit descriptor at the head. -/
theorem sentFrames (hw : PowerOn) (rx2 : Desc → BitVec 32) (es : List NicEvent) :
    let s := run NicSystem.step (start hw rx2) es
    s.sent <+: s.accepted.map Frame.wire ∧
    (∃ waiting, s.accepted.map Frame.wire = s.sent ++ waiting ∧
      Holds (txSlot s.nic.toWrnDev) s.nic.nextTxHead s.txPtr waiting) ∧
    ∀ skb : SkBuff,
      (∀ i, (s.nic.txd i).ready = true →
        ((wrnStartXmit skb s.nic.toWrnDev).2.txd i).ready = true ∧
          nicFrame (wrnStartXmit skb s.nic.toWrnDev).2 i = nicFrame s.nic.toWrnDev i) ∧
      ∀ dir i a, InBuffer dir i a → ¬ (dir = .tx ∧ i = s.nic.nextTxHead) →
        (wrnStartXmit skb s.nic.toWrnDev).2.databuf a = s.nic.databuf a := by
  intro s
  have h : NicInv s := nicInv_run hw rx2 es
  refine ⟨h.tx.delivers.isPrefix, h.tx.delivers, fun skb =>
    ⟨fun i hi => h.nicFrame_startXmit skb hi, ?_⟩⟩
  intro dir i a ha hne
  exact wrnStartXmit_databuf_of_not_inBuffer skb fun hin => hne (inBuffer_inj ha hin)

/-! ### Reception -/

/-- **Received frames.** In every run the frames stored are those that `wrn_rx_interrupt` has
processed and those in the full descriptors; of the processed ones, the error-free ones have been
passed on, in order and with exactly their bytes, and the others have been counted, each once. A
descriptor keeps its own offset. When `wrn_rx_interrupt` leaves its loop the descriptor at `next_rx`
is empty and all stored frames have been processed; else it processes the oldest of the others and
gives its descriptor back. -/
theorem receivedFrames (hw : PowerOn) (rx2 : Desc → BitVec 32) (es : List NicEvent) :
    let s := run NicSystem.step (start hw rx2) es
    s.nic.faulted = false ∧
    (∀ i, (s.nic.rxd i).empty = true →
      (s.nic.rxd i).offset = wrnDescOffset .rx i ∧ (s.nic.rxd i).rx3 = rxArmed i) ∧
    ∃ processed pending, s.stored = processed ++ pending ∧
      Accounted s.nic s.rxPtr processed pending ∧
      (∀ r fresh, wrnRxRound r fresh s.nic = none →
        (s.nic.rxd s.nic.nextRx).empty = true ∧ pending = []) ∧
      ∀ r fresh nic', wrnRxRound r fresh s.nic = some nic' →
        nic'.nextRx = wrnNextDesc s.nic.nextRx ∧ (nic'.rxd s.nic.nextRx).empty = true ∧
          ∃ frame rest, pending = frame :: rest ∧
            Accounted nic' s.rxPtr (processed ++ [frame]) rest := by
  intro s
  have h : RxInv s.nic s.rxPtr s.stored := (nicInv_run hw rx2 es).rx
  obtain ⟨processed, pending, hstored, hacc⟩ := h.accounted
  refine ⟨h.faulted, fun i hi => ⟨h.offset i, h.rearmed i hi⟩, processed, pending, hstored, hacc,
    fun r fresh hleave => ?_, fun r fresh nic' hround => ?_⟩
  · have hempty : (s.nic.rxd s.nic.nextRx).empty = true := by
      by_contra hfull
      simp [wrnRxRound, hfull] at hleave
    exact ⟨hempty, hacc.pending_eq_nil hempty⟩
  · have hat := h.roundAt hround
    refine ⟨hat.nextRx, ?_, hacc.round h hround⟩
    rw [hat.rxd_self]
    exact (rearmed_fields s.nic.nextRx _).1

end NicSystem

end SpecSw.Nic
