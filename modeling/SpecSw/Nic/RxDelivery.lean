import SpecSw.Nic.Wire

/-!
# The receive descriptors as a queue of frames

A receive descriptor that is not `EMPTY` is a full slot: its entry is what the driver sees of the
frame, the bytes and whether it is to be counted as an error (`rxSlot`). The hardware is the
producer and the driver the consumer, at `next_rx`. A round of `wrn_rx_interrupt` empties the slot
at `next_rx`, having passed the frame on or counted it (`Accounted.round`).

## Main definitions

* `Nic.RxImage`, `Nic.rxSlot`.
* `Nic.Accounted`: what the driver has done with the frames stored.
* `Nic.RxInv`.

## Main results

* `Nic.Accounted.round`.
* `Nic.RxInv.receive`, `Nic.RxInv.round`, `Nic.RxInv.congr`.
-/

namespace SpecSw.Nic

open SlotRing

/-! ### What the driver sees of a frame -/

/-- The bytes of a stored frame, and whether the driver counts it as an error. -/
structure RxImage where
  bytes : List Byte
  errored : Bool

/-- What the driver is to see of a frame. -/
def RxFrame.image (frame : RxFrame) : RxImage := ⟨frame.bytes, frame.errored⟩

/-- The frame that a receive descriptor holds for the driver. -/
def rxSlot (nic : NicDev) (i : Desc) : Option RxImage :=
  if (nic.rxd i).empty then none
  else
    some ⟨(List.range (nic.rxd i).len).map fun k => nic.databuf ((nic.rxd i).offset + 2 + k),
      (nic.rxd i).errored⟩

/-! ### Registers -/

/-- The status of a stored frame: the descriptor is full, the port is 0, and an error or missing
OOB data are seen. -/
theorem RxFrame.status_fields (frame : RxFrame) (rx2 rx3 : BitVec 32) :
    let rx : WrnRxd := ⟨frame.status, rx2, rx3⟩
    rx.empty = false ∧ rx.errored = frame.errored ∧ rx.port = 0 := by
  simp only [WrnRxd.empty, WrnRxd.errored, WrnRxd.port, RxFrame.status, RxFrame.errored]
  cases frame.error <;> cases frame.oob <;> cases frame.tsIncorrect <;> decide

/-- A descriptor given back is empty and has its own place. -/
theorem rearmed_fields (i : Desc) (rx2 : BitVec 32) :
    let rx : WrnRxd := ⟨nicRx1Empty, rx2, rxArmed i⟩
    rx.empty = true ∧ rx.offset = wrnDescOffset .rx i := by
  have hlt := wrnDescOffset_lt .rx i
  have hoff : rxArmed i &&& 0xffff = BitVec.ofNat 32 (wrnDescOffset .rx i) :=
    (lenOffset_fields (show 2000 < 65536 by omega) hlt).1
  refine ⟨(by decide : (nicRx1Empty &&& nicRx1Empty != 0) = true), ?_⟩
  rw [WrnRxd.offset, hoff, BitVec.toNat_ofNat]
  omega

/-- The hardware keeps the offset and writes the length. -/
theorem stored_fields {i : Desc} {rx3 : BitVec 32} {len : ℕ} (hlen : len ≤ 2000)
    (hoffset : (rx3 &&& 0xffff).toNat = wrnDescOffset .rx i) (rx1 rx2 : BitVec 32) :
    let rx : WrnRxd := ⟨rx1, rx2, BitVec.ofNat 32 len <<< 16 ||| (rx3 &&& 0xffff)⟩
    rx.offset = wrnDescOffset .rx i ∧ rx.len = len := by
  have hlt := wrnDescOffset_lt .rx i
  have heq : rx3 &&& 0xffff = BitVec.ofNat 32 (wrnDescOffset .rx i) := by
    rw [← hoffset, BitVec.ofNat_toNat, BitVec.setWidth_eq]
  obtain ⟨hoff, hlenField⟩ := lenOffset_fields (show len < 65536 by omega) hlt
  simp only [WrnRxd.offset, WrnRxd.len, heq, hoff, hlenField, BitVec.toNat_ofNat, and_true]
  omega

/-! ### The invariant -/

/-- The frames `processed` have been passed on, in order and with their bytes, or counted as errors,
each once, and the full descriptors from `next_rx` on hold the frames `pending`. -/
structure Accounted (nic : NicDev) (rxPtr : Desc) (processed pending : List RxFrame) : Prop where
  received : nic.received.map RxSkb.bytes =
    (processed.filter fun x => !x.errored).map RxFrame.bytes
  rxErrors : nic.rxErrors = processed.countP RxFrame.errored
  holds : Holds (rxSlot nic) rxPtr nic.nextRx (pending.map RxFrame.image)

theorem Accounted.pending_eq_nil {nic : NicDev} {rxPtr : Desc} {processed pending : List RxFrame}
    (hacc : Accounted nic rxPtr processed pending) (hempty : (nic.rxd nic.nextRx).empty = true) :
    pending = [] :=
  List.map_eq_nil_iff.mp (hacc.holds.eq_nil (if_pos hempty))

/-- Every descriptor has its own memory, an empty one its full length, and a full one a frame of
port 0 that fits; and the frames stored are those processed, followed by those in the full
descriptors. -/
structure RxInv (nic : NicDev) (rxPtr : Desc) (stored : List RxFrame) : Prop where
  offset : ∀ i, (nic.rxd i).offset = wrnDescOffset .rx i
  rearmed : ∀ i, (nic.rxd i).empty = true → (nic.rxd i).rx3 = rxArmed i
  len_le : ∀ i, (nic.rxd i).empty = false → (nic.rxd i).len ≤ 2000
  port : ∀ i, (nic.rxd i).empty = false → (nic.rxd i).port = 0
  faulted : nic.faulted = false
  accounted : ∃ processed pending, stored = processed ++ pending ∧
    Accounted nic rxPtr processed pending

theorem rxInv_start (hw : PowerOn) (rx2 : Desc → BitVec 32) : RxInv (wrnProbeNic hw rx2) 0 [] := by
  have hempty (i : Desc) : ((wrnProbeNic hw rx2).rxd i).empty = true := (rearmed_fields i _).1
  exact {
    offset := fun i => (rearmed_fields i _).2
    rearmed := fun _ _ => rfl
    len_le := fun i h => absurd (hempty i) (by simp [h])
    port := fun i h => absurd (hempty i) (by simp [h])
    faulted := rfl
    accounted := ⟨[], [], rfl, rfl, rfl, holds_nil (fun i => if_pos (hempty i)) 0⟩ }

namespace RxInv

variable {nic nic' : NicDev} {rxPtr : Desc} {stored : List RxFrame}

/-- The entry of a slot depends only on the registers and the memory of its descriptor. -/
theorem rxSlot_congr (h : RxInv nic rxPtr stored) {i : Desc} (hrxd : nic'.rxd i = nic.rxd i)
    (hmem : ∀ a, InBuffer .rx i a → nic'.databuf a = nic.databuf a) :
    rxSlot nic' i = rxSlot nic i := by
  rw [rxSlot, rxSlot, hrxd]
  split_ifs with hempty
  · rfl
  · have hlen := h.len_le i (Bool.eq_false_of_not_eq_true hempty)
    rw [h.offset i]
    congr 2
    refine List.map_congr_left fun k hk => hmem _ ⟨by omega, ?_⟩
    have hk := List.mem_range.mp hk
    omega

/-- What changes neither the receive side nor its memory keeps the invariant. -/
theorem congr (h : RxInv nic rxPtr stored) (hrxd : nic'.rxd = nic.rxd)
    (hnext : nic'.nextRx = nic.nextRx) (hreceived : nic'.received = nic.received)
    (herrors : nic'.rxErrors = nic.rxErrors) (hfaulted : nic'.faulted = nic.faulted)
    (hmem : ∀ i a, InBuffer .rx i a → nic'.databuf a = nic.databuf a) :
    RxInv nic' rxPtr stored where
  offset i := by rw [hrxd]; exact h.offset i
  rearmed i := by rw [hrxd]; exact h.rearmed i
  len_le i := by rw [hrxd]; exact h.len_le i
  port i := by rw [hrxd]; exact h.port i
  faulted := by rw [hfaulted]; exact h.faulted
  accounted := by
    obtain ⟨processed, pending, hstored, hacc⟩ := h.accounted
    refine ⟨processed, pending, hstored, ?_⟩
    refine ⟨by rw [hreceived, hacc.received], by rw [herrors, hacc.rxErrors], ?_⟩
    rw [hnext]
    exact hacc.holds.congr fun i => h.rxSlot_congr (by rw [hrxd]) (hmem i)

/-- What holds of the registers of the descriptor `i`. -/
private structure RxdKept (i : Desc) (rx : WrnRxd) : Prop where
  offset : rx.offset = wrnDescOffset .rx i
  rearmed : rx.empty = true → rx.rx3 = rxArmed i
  len_le : rx.empty = false → rx.len ≤ 2000
  port : rx.empty = false → rx.port = 0

private theorem rxdKept (h : RxInv nic rxPtr stored) (i : Desc) : RxdKept i (nic.rxd i) :=
  ⟨h.offset i, h.rearmed i, h.len_le i, h.port i⟩

/-- A step that writes the registers of one descriptor keeps the invariant, if these are as they
are to be. -/
private theorem of_update (h : RxInv nic rxPtr stored) {i : Desc} {rx : WrnRxd}
    {rxPtr' : Desc} {stored' : List RxFrame} (hrxd : nic'.rxd = Function.update nic.rxd i rx)
    (hrx : RxdKept i rx) (hfaulted : nic'.faulted = nic.faulted)
    (haccounted : ∃ processed pending, stored' = processed ++ pending ∧
      Accounted nic' rxPtr' processed pending) : RxInv nic' rxPtr' stored' := by
  have hall (j : Desc) : RxdKept j (nic'.rxd j) := by
    rw [hrxd]
    by_cases hj : j = i
    · rw [hj, Function.update_self]
      exact hrx
    · rw [Function.update_of_ne hj]
      exact h.rxdKept j
  exact ⟨fun j => (hall j).offset, fun j => (hall j).rearmed, fun j => (hall j).len_le,
    fun j => (hall j).port, hfaulted.trans h.faulted, haccounted⟩

/-- The hardware fills the slot it is at. -/
theorem receive (h : RxInv nic rxPtr stored) (hempty : (nic.rxd rxPtr).empty = true)
    (frame : RxFrame) : RxInv (nicStore rxPtr frame nic) (rxPtr + 1) (stored ++ [frame]) := by
  obtain ⟨hfull, herrored, hport⟩ := frame.status_fields frame.ts
    (BitVec.ofNat 32 frame.len <<< 16 ||| ((nic.rxd rxPtr).rx3 &&& 0xffff))
  obtain ⟨hoffset, hlen⟩ := stored_fields frame.len_le (h.offset rxPtr) frame.status frame.ts
  have hmem (i : Desc) (hi : i ≠ rxPtr) (a : ℕ) (ha : InBuffer .rx i a) :
      (nicStore rxPtr frame nic).databuf a = nic.databuf a := by
    refine if_neg ?_
    rw [h.offset rxPtr]
    rintro ⟨hlo, hhi⟩
    have := frame.len_le
    have hin : InBuffer .rx rxPtr a := ⟨by omega, by omega⟩
    exact hi (inBuffer_inj ha hin).2
  have hbytes : (List.range frame.len).map (fun k =>
      (nicStore rxPtr frame nic).databuf (wrnDescOffset .rx rxPtr + 2 + k)) = frame.bytes := by
    refine List.map_congr_left fun k hk => ?_
    have hk := List.mem_range.mp hk
    simp only [nicStore, h.offset rxPtr]
    rw [if_pos (by omega), Nat.add_sub_cancel_left]
  have hslot : rxSlot (nicStore rxPtr frame nic) rxPtr = some frame.image := by
    have hself : (nicStore rxPtr frame nic).rxd rxPtr = _ := Function.update_self ..
    rw [rxSlot, hself, hfull, herrored, hlen, hoffset, if_neg Bool.false_ne_true, hbytes,
      RxFrame.image]
  obtain ⟨processed, pending, hstored, hacc⟩ := h.accounted
  refine h.of_update (i := rxPtr) rfl ⟨hoffset, fun hnot => ?_, fun _ => ?_, fun _ => hport⟩ rfl
    ⟨processed, pending ++ [frame], by rw [hstored, List.append_assoc],
      hacc.received, hacc.rxErrors, ?_⟩
  · rw [hfull] at hnot
    exact absurd hnot Bool.false_ne_true
  · rw [hlen]
    exact frame.len_le
  · rw [List.map_append, List.map_singleton]
    exact hacc.holds.put (by rw [rxSlot, if_pos hempty]) hslot
      fun i hi => h.rxSlot_congr (Function.update_of_ne hi _ _) (hmem i hi)

end RxInv

/-- The frame of a full descriptor of port 0 is passed on or counted, and the descriptor is given
back. -/
private theorem wrnRxDescriptor_accounts (r : PpsgReads) (fresh : ℤ → Byte) {nic : NicDev}
    {i : Desc} {frame : RxFrame} (hslot : rxSlot nic i = some frame.image)
    (hport : (nic.rxd i).port = 0) :
    (wrnRxDescriptor r fresh nic i).received.map RxSkb.bytes =
        nic.received.map RxSkb.bytes ++ ([frame].filter fun x => !x.errored).map RxFrame.bytes ∧
      (wrnRxDescriptor r fresh nic i).rxErrors =
        nic.rxErrors + [frame].countP RxFrame.errored := by
  have hcopy : (List.range (nic.rxd i).len).map (fun k : ℕ =>
      wrnCopyIn fresh nic.databuf (nic.rxd i).offset (nic.rxd i).len k) =
      (List.range (nic.rxd i).len).map fun k => nic.databuf ((nic.rxd i).offset + 2 + k) :=
    List.map_congr_left fun k hk => wrnCopyIn_apply _ _ _ _
      (by have := List.mem_range.mp hk; omega)
  rw [rxSlot] at hslot
  split_ifs at hslot with hempty
  obtain ⟨hbytes, herrored⟩ := RxImage.mk.inj (Option.some.inj hslot)
  cases herr : (nic.rxd i).errored with
  | true => simp [wrnRxDescriptor, herr, ← herrored, NicDev.rearm]
  | false => simp [wrnRxDescriptor, herr, ← herrored, ← hbytes, hport, hcopy, NicDev.rearm]

private theorem wrnRxDescriptor_rearms (r : PpsgReads) (fresh : ℤ → Byte) {nic : NicDev}
    {i : Desc} (hport : (nic.rxd i).port = 0) :
    (wrnRxDescriptor r fresh nic i).rxd = (nic.rearm i).rxd ∧
      (wrnRxDescriptor r fresh nic i).databuf = nic.databuf ∧
      (wrnRxDescriptor r fresh nic i).faulted = nic.faulted := by
  simp only [wrnRxDescriptor, hport, ne_eq, not_true_eq_false, if_false]
  split_ifs <;> exact ⟨rfl, rfl, rfl⟩

/-! ### A round -/

section Round

variable {nic nic' : NicDev} {rxPtr : Desc} {stored processed pending : List RxFrame}
  {r : PpsgReads} {fresh : ℤ → Byte}

/-- A round finds the descriptor at `next_rx` full, and gives it back. -/
structure RoundAt (nic nic' : NicDev) : Prop where
  full : (nic.rxd nic.nextRx).empty = false
  nextRx : nic'.nextRx = nic.nextRx + 1
  rxd : nic'.rxd = (nic.rearm nic.nextRx).rxd
  databuf : nic'.databuf = nic.databuf
  faulted : nic'.faulted = nic.faulted

theorem RxInv.roundAt (h : RxInv nic rxPtr stored) (hround : wrnRxRound r fresh nic = some nic') :
    RoundAt nic nic' := by
  by_cases hempty : (nic.rxd nic.nextRx).empty = true
  · simp only [wrnRxRound, hempty, if_true, reduceCtorEq] at hround
  · have hfull := Bool.eq_false_of_not_eq_true hempty
    rw [wrnRxRound, if_neg hempty, Option.some.injEq] at hround
    subst hround
    obtain ⟨hrxd, hmem, hfaulted⟩ := wrnRxDescriptor_rearms r fresh (h.port _ hfull)
    exact ⟨hfull, rfl, hrxd, hmem, hfaulted⟩

/-- The descriptor is given back empty, with its own place and its full length. -/
theorem RoundAt.rxd_self (hat : RoundAt nic nic') :
    nic'.rxd nic.nextRx = ⟨nicRx1Empty, (nic.rxd nic.nextRx).rx2, rxArmed nic.nextRx⟩ := by
  rw [hat.rxd]
  exact Function.update_self ..

/-- A round passes on or counts the oldest of the frames that are pending. -/
theorem Accounted.round (hacc : Accounted nic rxPtr processed pending)
    (h : RxInv nic rxPtr stored) (hround : wrnRxRound r fresh nic = some nic') :
    ∃ frame rest, pending = frame :: rest ∧ Accounted nic' rxPtr (processed ++ [frame]) rest := by
  have hat := h.roundAt hround
  have hempty : ¬ (nic.rxd nic.nextRx).empty = true := by simp [hat.full]
  cases pending with
  | nil =>
    have hhead := hacc.holds.head?_eq
    rw [rxSlot, if_neg hempty] at hhead
    exact absurd hhead (by simp)
  | cons frame rest =>
    have hslot : rxSlot nic nic.nextRx = some frame.image := hacc.holds.head?_eq
    obtain ⟨hreceived, herrors⟩ :=
      wrnRxDescriptor_accounts r fresh hslot (h.port _ hat.full)
    have hself : rxSlot nic' nic.nextRx = none :=
      if_pos (by rw [hat.rxd_self]; exact (rearmed_fields nic.nextRx _).1)
    have hother (i : Desc) (hi : i ≠ nic.nextRx) : rxSlot nic' i = rxSlot nic i := by
      refine h.rxSlot_congr ?_ fun a _ => congrFun hat.databuf a
      rw [hat.rxd]
      exact Function.update_of_ne hi _ _
    obtain ⟨q, hq, hholds⟩ := hacc.holds.take hslot hself hother
    rw [List.map_cons, List.cons.injEq] at hq
    rw [wrnRxRound, if_neg hempty, Option.some.injEq] at hround
    refine ⟨frame, rest, rfl, ?_, ?_, by rw [hat.nextRx, hq.2]; exact hholds⟩
    · rw [List.filter_append, List.map_append, ← hacc.received, ← hround]
      exact hreceived
    · rw [List.countP_append, ← hacc.rxErrors, ← hround]
      exact herrors

/-- The driver empties the slot at `next_rx`. -/
theorem RxInv.round (h : RxInv nic rxPtr stored) (hround : wrnRxRound r fresh nic = some nic') :
    RxInv nic' rxPtr stored := by
  have hat := h.roundAt hround
  obtain ⟨hempty, hoffset⟩ := rearmed_fields nic.nextRx (nic.rxd nic.nextRx).rx2
  obtain ⟨processed, pending, hstored, hacc⟩ := h.accounted
  obtain ⟨frame, rest, rfl, hacc'⟩ := hacc.round h hround
  refine h.of_update hat.rxd ⟨hoffset, fun _ => rfl, fun hfull => ?_, fun hfull => ?_⟩ hat.faulted
    ⟨processed ++ [frame], rest, by rw [hstored, List.append_assoc, List.singleton_append], hacc'⟩
  · exact absurd (hempty.symm.trans hfull) (by simp)
  · exact absurd (hempty.symm.trans hfull) (by simp)

end Round

end SpecSw.Nic
