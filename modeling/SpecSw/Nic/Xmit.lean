import SpecSw.Nic.Device

/-!
# Transmission: `wrn_start_xmit`

A frame longer than `WRN_MTU` is refused. Otherwise a descriptor is allocated, which only looks at
the `READY` bit of the descriptor at the head, and an id is drawn, which happens even if the
allocation failed. The buffer and the id are saved in the descriptor's entry of `skb_desc[]`,
whatever that entry still holds, and the frame is handed to the hardware.

`wrnStartXmit_cases` says everything a call can do; the invariants are derived from it.

## Main definitions

* `Nic.wrnAllocTxDesc`, `Nic.wrnDrawId`, `Nic.wrnTxDesc`, `Nic.wrnStartXmit`.

## Main results

* `Nic.wrnStartXmit_cases`.
-/

namespace SpecSw.Nic

/-- `__wrn_alloc_tx_desc`: the descriptor at the head, if it is available. -/
def wrnAllocTxDesc (wrn : WrnDev) : Option (Desc × WrnDev) :=
  let ret := wrn.nextTxHead
  if (wrn.txd ret).ready then none
  else some (ret, { wrn with nextTxHead := wrnNextDesc ret })

/-- The id of a frame: the counter modulo `2^16`, or the next counter value when that is 0, as 0
cannot be used in the SPEC. -/
def wrnDrawId (wrn : WrnDev) : BitVec 32 × WrnDev :=
  let id := wrn.id &&& 0xffff
  let wrn := { wrn with id := wrn.id + 1 }
  if id = 0 then (wrn.id, { wrn with id := wrn.id + 1 }) else (id, wrn)

/-- `__wrn_tx_desc`: copy the data to the descriptor's memory and write its registers, the one
with the `READY` bit last. -/
def wrnTxDesc (wrn : WrnDev) (desc : Desc) (data : ℤ → Byte) (len : ℕ) (id : BitVec 32)
    (doStamp : Bool) : WrnDev :=
  let offset := wrnDescOffset .tx desc
  let wrn := { wrn with databuf := wrnCopyOut wrn.databuf offset data len }
  wrn.setTxd desc
    { tx3 := 1 <<< wrn.ep.epNumber
      tx2 := BitVec.ofNat 32 offset ||| BitVec.ofNat 32 len <<< 16
      tx1 := (if len < 60 then nicTx1PadE else 0) ||| nicTx1Ready |||
        (if doStamp then nicTx1TsE else 0) ||| id <<< 16 }

/-- `wrn_start_xmit`: the value returned and the device afterwards. -/
def wrnStartXmit (skb : SkBuff) (wrn : WrnDev) : ℤ × WrnDev :=
  if skb.len > wrnMtu then
    (-Errno.emsgsize, { wrn with ep := { wrn.ep with txErrors := wrn.ep.txErrors + 1 } })
  else
    match wrnAllocTxDesc wrn with
    | none => (-Errno.enomem, (wrnDrawId wrn).2)
    | some (desc, wrn) =>
      let (id, wrn) := wrnDrawId wrn
      let wrn := wrn.setDesc desc
        { wrn.skbDesc desc with skb := some skb, frameId := id.setWidth 16 }
      let doStamp := skb.txFlags &&& skbtxHwTstamp != 0
      let wrn := wrnTxDesc wrn desc skb.data skb.len id doStamp
      (0, { wrn with ep := { wrn.ep with
        txPackets := wrn.ep.txPackets + 1, txBytes := wrn.ep.txBytes + skb.len } })

/-! ### What a call can do -/

/-- The call goes past both error returns: the frame is not too long and the descriptor at the
head is available. -/
def XmitAccepts (frame : Frame) (wrn : WrnDev) : Prop :=
  frame.len ≤ wrnMtu ∧ (wrn.txd wrn.nextTxHead).ready = false

instance (frame : Frame) (wrn : WrnDev) : Decidable (XmitAccepts frame wrn) :=
  inferInstanceAs (Decidable (_ ∧ _))

/-- The fields of the device that only an accepted frame changes. -/
structure SameTx (wrn wrn' : WrnDev) : Prop where
  txd : wrn'.txd = wrn.txd
  databuf : wrn'.databuf = wrn.databuf
  nextTxHead : wrn'.nextTxHead = wrn.nextTxHead
  nextTxTail : wrn'.nextTxTail = wrn.nextTxTail
  skbDesc : wrn'.skbDesc = wrn.skbDesc
  freed : wrn'.freed = wrn.freed
  stamped : wrn'.stamped = wrn.stamped

theorem wrnDrawId_sameTx (wrn : WrnDev) : SameTx wrn (wrnDrawId wrn).2 := by
  unfold wrnDrawId
  dsimp only
  split_ifs <;> exact ⟨rfl, rfl, rfl, rfl, rfl, rfl, rfl⟩

/-- A refused frame leaves the transmit path alone and returns an error. -/
theorem wrnStartXmit_of_refused {skb : SkBuff} {wrn : WrnDev}
    (h : ¬ XmitAccepts skb.toFrame wrn) :
    ((wrnStartXmit skb wrn).1 = -Errno.emsgsize ∨ (wrnStartXmit skb wrn).1 = -Errno.enomem) ∧
      SameTx wrn (wrnStartXmit skb wrn).2 := by
  unfold wrnStartXmit
  by_cases hlen : skb.len > wrnMtu
  · rw [if_pos hlen]
    exact ⟨Or.inl rfl, rfl, rfl, rfl, rfl, rfl, rfl, rfl⟩
  · have hready : (wrn.txd wrn.nextTxHead).ready = true := by
      by_contra hr
      exact h ⟨Nat.le_of_not_lt hlen, by simpa using hr⟩
    rw [if_neg hlen]
    simp only [wrnAllocTxDesc, hready, if_true]
    exact ⟨Or.inr trivial, wrnDrawId_sameTx wrn⟩

/-- What an accepted frame changes: the registers and the memory of the descriptor at the head,
its entry of `skb_desc[]`, and the head. -/
structure Accepted (skb : SkBuff) (wrn wrn' : WrnDev) : Prop where
  nextTxHead : wrn'.nextTxHead = wrnNextDesc wrn.nextTxHead
  nextTxTail : wrn'.nextTxTail = wrn.nextTxTail
  skb_head : (wrn'.skbDesc wrn.nextTxHead).skb = some skb
  skbDesc_of_ne : ∀ i, i ≠ wrn.nextTxHead → wrn'.skbDesc i = wrn.skbDesc i
  txd_of_ne : ∀ i, i ≠ wrn.nextTxHead → wrn'.txd i = wrn.txd i
  freed : wrn'.freed = wrn.freed
  stamped : wrn'.stamped = wrn.stamped

theorem wrnStartXmit_of_accepts (skb : SkBuff) {wrn : WrnDev}
    (h : XmitAccepts skb.toFrame wrn) :
    (wrnStartXmit skb wrn).1 = 0 ∧ Accepted skb wrn (wrnStartXmit skb wrn).2 := by
  obtain ⟨hlen, hready⟩ := h
  have hid := wrnDrawId_sameTx { wrn with nextTxHead := wrnNextDesc wrn.nextTxHead }
  simp only [wrnStartXmit, if_neg (Nat.not_lt.mpr hlen), wrnAllocTxDesc, hready,
    Bool.false_eq_true, if_false, wrnTxDesc, WrnDev.setDesc, WrnDev.setTxd]
  refine ⟨trivial, hid.nextTxHead, hid.nextTxTail, by simp, fun i hi => ?_, fun i hi => ?_,
    hid.freed, hid.stamped⟩
  · simp [Function.update_of_ne hi, hid.skbDesc]
  · simp [Function.update_of_ne hi, hid.txd]

/-- Everything a call of `wrn_start_xmit` can do. -/
theorem wrnStartXmit_cases (skb : SkBuff) (wrn : WrnDev) :
    (XmitAccepts skb.toFrame wrn ∧ (wrnStartXmit skb wrn).1 = 0 ∧
        Accepted skb wrn (wrnStartXmit skb wrn).2) ∨
      (¬ XmitAccepts skb.toFrame wrn ∧ (wrnStartXmit skb wrn).1 < 0 ∧
        SameTx wrn (wrnStartXmit skb wrn).2) := by
  by_cases h : XmitAccepts skb.toFrame wrn
  · exact Or.inl ⟨h, wrnStartXmit_of_accepts skb h⟩
  · obtain ⟨hret, hsame⟩ := wrnStartXmit_of_refused h
    refine Or.inr ⟨h, ?_, hsame⟩
    rcases hret with hret | hret <;> rw [hret] <;> decide

end SpecSw.Nic
