import SpecSw.Nic.Device

/-!
# Transmit time stamps: `timestamp.c` and `pps.c`

The hardware reports the time stamp of a frame with the frame's id, through a FIFO whose interrupt
runs `record_tstamp`. It looks the id up in `skb_desc[]`, delivers the time stamp and frees the
buffer. The transmit-complete interrupt calls `wrn_tx_tstamp_skb`, which does the same for an entry
whose time stamp has been saved, as `valid` says; nothing in the driver saves one.

Both complete the hardware's cycle count with the seconds of the PPS generator, whose registers
are read in `wrn_ppsg_read_time`. The values the reads return are an argument.

## Main definitions

* `Nic.PpsgReads`, `Nic.wrnPpsgReadTime`, `Nic.wrnTxTstampSkb`, `Nic.findSkb`,
  `Nic.recordTstamp`, `Nic.wrnTstampInterrupt`.
-/

namespace SpecSw.Nic

/-- The values of the register reads of one call of `wrn_ppsg_read_time`, in the order of the
code: `CNTR_UTCLO`, `CNTR_NSEC`, `CNTR_UTCLO`, and `CNTR_NSEC` once more if it is read again. -/
structure PpsgReads where
  utc1 : BitVec 32
  cnt1 : BitVec 32
  utc2 : BitVec 32
  cnt2 : BitVec 32

/-- `wrn_ppsg_read_time`: the fine counter and the seconds. -/
def wrnPpsgReadTime (r : PpsgReads) : BitVec 32 × BitVec 32 :=
  (if r.utc2 ≠ r.utc1 then r.cnt2 else r.cnt1, r.utc2)

/-- The time of a frame sent at the cycle count `cycles`, which was before the reads: in the
previous second if the counter is below it. -/
def txTime (r : PpsgReads) (cycles : BitVec 32) : Timespec :=
  let (counterPpsg, utc) := wrnPpsgReadTime r
  let utc := if counterPpsg < cycles then utc - 1 else utc
  { tvSec := (utc &&& 0x7fffffff).toNat, tvNsec := cycles.toNat * 8 }

/-- `wrn_tx_tstamp_skb`: if the time stamp of the descriptor has been saved, deliver it and release
the descriptor and the saved time stamp. -/
def wrnTxTstampSkb (r : PpsgReads) (wrn : WrnDev) (desc : Desc) : WrnDev :=
  let d := wrn.skbDesc desc
  if d.valid = 0 then wrn
  else
    match d.skb with
    | none => wrn.setDesc desc { d with valid := 0 }
    | some skb =>
      let wrn := if d.valid &&& tsInvalid = 0 then wrn.skbTstampTx skb (txTime r d.cycles) else wrn
      (wrn.devKfreeSkbIrq skb).setDesc desc { d with skb := none, valid := 0 }

/-- The loop of `record_tstamp`: the first descriptor with a buffer and this id. -/
def findSkb (wrn : WrnDev) (frameId : BitVec 16) : Option Desc :=
  (List.finRange wrnNrDesc).find? fun i =>
    (wrn.skbDesc i).skb.isSome && (wrn.skbDesc i).frameId == frameId

/-- `TXTSU_TSF_R1_FID_R`. -/
def txtsuFid (idreg : BitVec 32) : BitVec 16 := (idreg >>> 16).setWidth 16

/-- `record_tstamp`: deliver the time stamp of the frame it belongs to, unless it may be incorrect,
and free the buffer. A time stamp of no pending frame is that of a PTP frame sent from the SPEC. -/
def recordTstamp (r : PpsgReads) (wrn : WrnDev) (tsval idreg r2 : BitVec 32) : WrnDev :=
  match findSkb wrn (txtsuFid idreg) with
  | none => wrn
  | some i =>
    match (wrn.skbDesc i).skb with
    | none => wrn
    | some skb =>
      let wrn :=
        if r2 &&& 1 = 0 then wrn.skbTstampTx skb (txTime r (tsval &&& 0xfffffff)) else wrn
      (wrn.devKfreeSkbIrq skb).setDesc i { wrn.skbDesc i with skb := none }

/-- `wrn_tstamp_interrupt`, once `wrn_probe` has mapped the registers of the FIFO: the three of
them are read and recorded. -/
def wrnTstampInterrupt (r : PpsgReads) (r0 r1 r2 : BitVec 32) (wrn : WrnDev) : WrnDev :=
  recordTstamp r wrn r0 r1 r2

/-! ### What a time stamp can do -/

/-- The buffer of a descriptor has left the driver and its entry is free; nothing else of the
transmit path has changed. -/
structure Released (i : Desc) (skb : SkBuff) (wrn wrn' : WrnDev) : Prop where
  held : (wrn.skbDesc i).skb = some skb
  txd : wrn'.txd = wrn.txd
  nextTxHead : wrn'.nextTxHead = wrn.nextTxHead
  nextTxTail : wrn'.nextTxTail = wrn.nextTxTail
  skb_self : (wrn'.skbDesc i).skb = none
  skbDesc_of_ne : ∀ j, j ≠ i → wrn'.skbDesc j = wrn.skbDesc j
  freed : wrn'.freed = skb.handle :: wrn.freed

theorem findSkb_isSome {wrn : WrnDev} {frameId : BitVec 16} {i : Desc}
    (h : findSkb wrn frameId = some i) : ∃ skb, (wrn.skbDesc i).skb = some skb := by
  have hi := List.find?_some h
  rw [Bool.and_eq_true] at hi
  exact Option.isSome_iff_exists.mp hi.1

/-- A time stamp of no pending frame changes nothing; another releases the descriptor found. -/
theorem recordTstamp_cases (r : PpsgReads) (wrn : WrnDev) (tsval idreg r2 : BitVec 32) :
    (findSkb wrn (txtsuFid idreg) = none ∧ recordTstamp r wrn tsval idreg r2 = wrn) ∨
      ∃ i skb, findSkb wrn (txtsuFid idreg) = some i ∧
        Released i skb wrn (recordTstamp r wrn tsval idreg r2) := by
  cases hfind : findSkb wrn (txtsuFid idreg) with
  | none => exact Or.inl ⟨rfl, by simp only [recordTstamp, hfind]⟩
  | some i =>
    obtain ⟨skb, hskb⟩ := findSkb_isSome hfind
    refine Or.inr ⟨i, skb, rfl, ?_⟩
    simp only [recordTstamp, hfind, hskb]
    split_ifs <;>
      exact ⟨hskb, rfl, rfl, rfl, by simp [WrnDev.setDesc],
        fun j hj => Function.update_of_ne hj _ _, rfl⟩

end SpecSw.Nic
