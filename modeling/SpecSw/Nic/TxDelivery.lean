import SpecSw.Nic.Wire

/-!
# The transmit descriptors as a queue of frames

A `READY` descriptor is a full slot: its entry is the frame that the hardware would send from it,
read from its registers and from the packet memory (`txSlot`). The driver is the producer, at
`next_tx_head`, and the hardware the consumer. An accepted frame fills the slot at the head with
exactly its bytes, and as the copy stays within the 2 kB of that descriptor, no other slot changes.

## Main definitions

* `Nic.txSlot`, `Nic.TxInv`.

## Main results

* `Nic.wrnStartXmit_databuf_of_not_inBuffer`: what a call does not write.
* `Nic.TxInv.startXmit`, `Nic.TxInv.transmit`, `Nic.TxInv.congr`.
-/

namespace SpecSw.Nic

open SlotRing

/-! ### The registers of an accepted frame -/

/-- The id is above the bits of a mask below `2 ^ 16`. -/
theorem shiftLeft_and_of_lt (id m : BitVec 32) (hm : m.toNat < 65536) : id <<< 16 &&& m = 0 := by
  apply BitVec.eq_of_getLsbD_eq
  intro k hk
  by_cases hlow : k < 16
  · simp [hlow]
  · have hbit : m.getLsbD k = false :=
      Nat.testBit_lt_two_pow (hm.trans_le (Nat.pow_le_pow_right (n := 2) (by omega)
        (Nat.le_of_not_lt hlow)))
    simp [hbit]

/-- The flags that register 1 has below the id. -/
theorem tx1_flags (pad stamp : Bool) (id tx2 tx3 : BitVec 32) :
    let tx : WrnTxd := ⟨(if pad then nicTx1PadE else 0) ||| nicTx1Ready |||
      (if stamp then nicTx1TsE else 0) ||| id <<< 16, tx2, tx3⟩
    tx.ready = true ∧ tx.stampEnabled = stamp := by
  have hready : id <<< 16 &&& nicTx1Ready = 0 := shiftLeft_and_of_lt id _ (by decide)
  have hstamp : id <<< 16 &&& nicTx1TsE = 0 := shiftLeft_and_of_lt id _ (by decide)
  simp only [WrnTxd.ready, WrnTxd.stampEnabled]
  constructor
  · rw [BitVec.and_comm, BitVec.and_or_distrib_left, BitVec.and_comm nicTx1Ready (id <<< 16),
      hready]
    cases pad <;> cases stamp <;> decide
  · rw [BitVec.and_comm, BitVec.and_or_distrib_left, BitVec.and_comm nicTx1TsE (id <<< 16), hstamp]
    cases pad <;> cases stamp <;> decide

/-- The descriptor at the head and the packet memory after an accepted frame. -/
structure Armed (skb : SkBuff) (wrn wrn' : WrnDev) : Prop where
  ready : (wrn'.txd wrn.nextTxHead).ready = true
  stampEnabled : (wrn'.txd wrn.nextTxHead).stampEnabled = (skb.txFlags &&& skbtxHwTstamp != 0)
  offset : (wrn'.txd wrn.nextTxHead).offset = wrnDescOffset .tx wrn.nextTxHead
  len : (wrn'.txd wrn.nextTxHead).len = skb.len
  databuf : wrn'.databuf =
    wrnCopyOut wrn.databuf (wrnDescOffset .tx wrn.nextTxHead) skb.data skb.len

theorem wrnStartXmit_armed (skb : SkBuff) {wrn : WrnDev} (h : XmitAccepts skb.toFrame wrn) :
    Armed skb wrn (wrnStartXmit skb wrn).2 := by
  obtain ⟨hlen, hready⟩ := h
  have hid := wrnDrawId_sameTx { wrn with nextTxHead := wrnNextDesc wrn.nextTxHead }
  have hmtu : skb.len < 65536 := lt_of_le_of_lt hlen (by decide)
  obtain ⟨hoff, hlenField⟩ := lenOffset_fields hmtu (wrnDescOffset_lt .tx wrn.nextTxHead)
  rw [BitVec.or_comm] at hoff hlenField
  have hflags := tx1_flags (decide (skb.len < 60)) (skb.txFlags &&& skbtxHwTstamp != 0)
  simp only [decide_eq_true_eq] at hflags
  simp only [wrnStartXmit, if_neg (Nat.not_lt.mpr hlen), wrnAllocTxDesc, hready,
    Bool.false_eq_true, if_false, wrnTxDesc, WrnDev.setDesc, WrnDev.setTxd]
  refine ⟨?_, ?_, ?_, ?_, ?_⟩ <;> simp only [Function.update_self]
  · exact (hflags _ _ _).1
  · exact (hflags _ _ _).2
  · have hlt := wrnDescOffset_lt .tx wrn.nextTxHead
    simp only [WrnTxd.offset, hoff, BitVec.toNat_ofNat]
    omega
  · simp only [WrnTxd.len, hlenField]
  · rw [hid.databuf]

/-! ### What is written -/

/-- The words of a frame no longer than `WRN_MTU` are within 2 kB. -/
theorem wordBytes_mtu {len : ℕ} (hlen : len ≤ wrnMtu) :
    len + 2 ≤ wordBytes (len + 2) ∧ wordBytes (len + 2) ≤ 0x800 := by
  simp only [wordBytes, wrnMtu] at *
  omega

/-- A call writes nothing outside the 2 kB of the descriptor at the head. -/
theorem wrnStartXmit_databuf_of_not_inBuffer (skb : SkBuff) {wrn : WrnDev} {a : ℕ}
    (ha : ¬ InBuffer .tx wrn.nextTxHead a) :
    (wrnStartXmit skb wrn).2.databuf a = wrn.databuf a := by
  by_cases hacc : XmitAccepts skb.toFrame wrn
  · obtain ⟨-, hle⟩ := wordBytes_mtu hacc.1
    rw [(wrnStartXmit_armed skb hacc).databuf, wrnCopyOut_apply, if_neg]
    rintro ⟨hlo, hhi⟩
    exact ha ⟨hlo, by omega⟩
  · rw [(wrnStartXmit_of_refused hacc).2.databuf]

/-- The hardware would send exactly the frame accepted. -/
theorem Armed.nicFrame {skb : SkBuff} {wrn wrn' : WrnDev} (h : Armed skb wrn wrn')
    (hlen : skb.len ≤ wrnMtu) : nicFrame wrn' wrn.nextTxHead = skb.toFrame.wire := by
  obtain ⟨hwords, -⟩ := wordBytes_mtu hlen
  rw [Nic.nicFrame, Frame.wire, h.len, h.offset, h.stampEnabled]
  congr 1
  refine List.map_congr_left fun k hk => ?_
  have hk := List.mem_range.mp hk
  rw [h.databuf, wrnCopyOut_apply, if_pos (by omega)]
  congr 1
  omega

/-! ### The invariant -/

/-- The frame that a descriptor holds for the hardware. -/
def txSlot (wrn : WrnDev) (i : Desc) : Option SentFrame :=
  if (wrn.txd i).ready then some (nicFrame wrn i) else none

/-- A `READY` descriptor has its own memory and a frame that fits, and the `READY` descriptors are
the queue of the frames accepted and not sent yet. -/
structure TxInv (wrn : WrnDev) (txPtr : Desc) (accepted : List Frame) (sent : List SentFrame) :
    Prop where
  offset : ∀ i, (wrn.txd i).ready = true → (wrn.txd i).offset = wrnDescOffset .tx i
  len_le : ∀ i, (wrn.txd i).ready = true → (wrn.txd i).len ≤ wrnMtu
  delivers : Delivers (txSlot wrn) wrn.nextTxHead txPtr (accepted.map Frame.wire) sent

theorem txInv_start (hw : PowerOn) : TxInv (wrnProbe hw) 0 [] [] where
  offset i h := absurd h (by simp [wrnProbe, WrnTxd.ready])
  len_le i h := absurd h (by simp [wrnProbe, WrnTxd.ready])
  delivers := delivers_nil (fun i => by simp [txSlot, wrnProbe, WrnTxd.ready]) 0

namespace TxInv

variable {wrn wrn' : WrnDev} {txPtr : Desc} {accepted : List Frame} {sent : List SentFrame}

/-- The frame of a `READY` descriptor depends only on its own registers and memory. -/
theorem nicFrame_congr (h : TxInv wrn txPtr accepted sent) {i : Desc}
    (hi : (wrn.txd i).ready = true) (htxd : wrn'.txd i = wrn.txd i)
    (hmem : ∀ a, InBuffer .tx i a → wrn'.databuf a = wrn.databuf a) :
    nicFrame wrn' i = nicFrame wrn i := by
  have hlen := h.len_le i hi
  rw [nicFrame, nicFrame, htxd, h.offset i hi]
  congr 1
  refine List.map_congr_left fun k hk => hmem _ ⟨by omega, ?_⟩
  have hk := List.mem_range.mp hk
  simp only [wrnMtu] at hlen
  omega

/-- What changes neither the transmit descriptors nor their memory keeps the invariant. -/
theorem congr (h : TxInv wrn txPtr accepted sent) (htxd : wrn'.txd = wrn.txd)
    (hhead : wrn'.nextTxHead = wrn.nextTxHead)
    (hmem : ∀ i a, InBuffer .tx i a → wrn'.databuf a = wrn.databuf a) :
    TxInv wrn' txPtr accepted sent where
  offset i := by rw [htxd]; exact h.offset i
  len_le i := by rw [htxd]; exact h.len_le i
  delivers := by
    rw [hhead]
    refine h.delivers.congr fun i => ?_
    rw [txSlot, txSlot, htxd]
    split_ifs with hi
    · rw [h.nicFrame_congr hi (by rw [htxd]) (hmem i)]
    · rfl

/-- The driver fills the slot at the head. -/
theorem startXmit (h : TxInv wrn txPtr accepted sent) (skb : SkBuff) :
    TxInv (wrnStartXmit skb wrn).2 txPtr
      (if (wrnStartXmit skb wrn).1 = 0 then accepted ++ [skb.toFrame] else accepted) sent := by
  rcases wrnStartXmit_cases skb wrn with ⟨hacc, hret, hnew⟩ | ⟨-, hret, hsame⟩
  · have harmed := wrnStartXmit_armed skb hacc
    have hmem (i : Desc) (hi : i ≠ wrn.nextTxHead) (a : ℕ) (ha : InBuffer .tx i a) :
        (wrnStartXmit skb wrn).2.databuf a = wrn.databuf a :=
      wrnStartXmit_databuf_of_not_inBuffer skb fun hin => hi (inBuffer_inj ha hin).2
    rw [if_pos hret]
    refine ⟨fun i hi => ?_, fun i hi => ?_, ?_⟩
    · by_cases hhead : i = wrn.nextTxHead
      · subst hhead
        exact harmed.offset
      · rw [hnew.txd_of_ne i hhead] at hi ⊢
        exact h.offset i hi
    · by_cases hhead : i = wrn.nextTxHead
      · subst hhead
        rw [harmed.len]
        exact hacc.1
      · rw [hnew.txd_of_ne i hhead] at hi ⊢
        exact h.len_le i hi
    · rw [hnew.nextTxHead, wrnNextDesc, List.map_append, List.map_singleton]
      refine h.delivers.put (by simp [txSlot, hacc.2]) ?_ fun i hi => ?_
      · rw [txSlot, if_pos harmed.ready, harmed.nicFrame hacc.1]
      · rw [txSlot, txSlot, hnew.txd_of_ne i hi]
        split_ifs with hready
        · rw [h.nicFrame_congr hready (hnew.txd_of_ne i hi) (hmem i hi)]
        · rfl
  · rw [if_neg hret.ne]
    exact h.congr hsame.txd hsame.nextTxHead fun _ _ _ => congrFun hsame.databuf _

/-- The hardware empties the slot it is at. -/
theorem transmit (h : TxInv wrn txPtr accepted sent) (hready : (wrn.txd txPtr).ready = true) :
    TxInv (hwTxDone txPtr wrn) (txPtr + 1) accepted (sent ++ [nicFrame wrn txPtr]) := by
  have hother (i : Desc) (hi : i ≠ txPtr) : (hwTxDone txPtr wrn).txd i = wrn.txd i :=
    hwTxDone_txd_of_ne hi wrn
  have hne (i : Desc) (hi : ((hwTxDone txPtr wrn).txd i).ready = true) : i ≠ txPtr := by
    rintro rfl
    rw [hwTxDone_ready_self] at hi
    exact Bool.false_ne_true hi
  refine ⟨fun i hi => ?_, fun i hi => ?_, ?_⟩
  · have hi' := hi
    rw [hother i (hne i hi)] at hi' ⊢
    exact h.offset i hi'
  · have hi' := hi
    rw [hother i (hne i hi)] at hi' ⊢
    exact h.len_le i hi'
  · refine h.delivers.take (by rw [txSlot, if_pos hready]) ?_ fun i hi => ?_
    · rw [txSlot, hwTxDone_ready_self]
      rfl
    · rw [txSlot, txSlot, hother i hi, nicFrame, nicFrame, hother i hi]
      rfl

end TxInv

/-! ### The interrupts -/

/-- The fields that only a call or the hardware changes. -/
structure SameWire (wrn wrn' : WrnDev) : Prop where
  txd : wrn'.txd = wrn.txd
  databuf : wrn'.databuf = wrn.databuf
  nextTxHead : wrn'.nextTxHead = wrn.nextTxHead

theorem TxInv.of_sameWire {wrn wrn' : WrnDev} {txPtr : Desc} {accepted : List Frame}
    {sent : List SentFrame} (h : TxInv wrn txPtr accepted sent) (hs : SameWire wrn wrn') :
    TxInv wrn' txPtr accepted sent :=
  h.congr hs.txd hs.nextTxHead fun _ _ _ => congrFun hs.databuf _

theorem sameWire_wrnTxInterrupt (r : Desc → PpsgReads) (wrn : WrnDev) :
    SameWire wrn (wrnTxInterrupt r wrn) := by
  refine wrnTxInterruptLoop_rounds r (fun w skb hw hrec => ?_) _ wrn ⟨rfl, rfl, rfl⟩
  have hround : SameWire w (wrnTxReclaim (r w.nextTxTail) w w.nextTxTail skb) := by
    simp only [wrnTxReclaim, wrnTxTstampSkb, WrnDev.setDesc, Function.update_self]
    split_ifs <;> exact ⟨rfl, rfl, rfl⟩
  exact ⟨hround.txd.trans hw.txd, hround.databuf.trans hw.databuf,
    hround.nextTxHead.trans hw.nextTxHead⟩

theorem sameWire_recordTstamp (r : PpsgReads) (wrn : WrnDev) (tsval idreg r2 : BitVec 32) :
    SameWire wrn (recordTstamp r wrn tsval idreg r2) := by
  unfold recordTstamp
  split
  · exact ⟨rfl, rfl, rfl⟩
  · split
    · exact ⟨rfl, rfl, rfl⟩
    · split_ifs <;> exact ⟨rfl, rfl, rfl⟩

end SpecSw.Nic
