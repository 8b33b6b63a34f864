import SpecSw.Nic.TxSystem

/-!
# The ids of transmitted frames

Every frame that goes past the length check draws an id from the counter of the device, also when
no descriptor is free. The id is written to the `TS_ID` field of the descriptor and saved in its
entry of `skb_desc[]`, both 16 bits wide, and the hardware returns it with the time stamp.

As 16 bits the ids are the numbers 1 to 65535 over and over again, however often the counter wraps
(`nthId`), so 65535 consecutive ones differ. Two entries with buffers have the same id exactly if
the ids were drawn a multiple of 65535 draws apart. `record_tstamp` looks for the id from entry 0
on, so it finds the entry it ought to if no earlier one has a buffer pending from an exact multiple
of 65535 draws before.

## Main definitions

* `Nic.WrnTxd.tsId`, `Nic.drawnId`, `Nic.nthId`.
* `Nic.IdSystem`: the transmit path with the ids drawn so far.

## Main results

* `Nic.IdSystem.txIds`, `Nic.IdSystem.not_forall_stampFindsSkb`.
-/

namespace SpecSw.Nic

open EventRun

/-- `NIC_TX1_D1_TS_ID_R`. -/
def WrnTxd.tsId (tx : WrnTxd) : BitVec 16 := (tx.tx1 >>> 16).setWidth 16

/-- The next id to be drawn, as `frame_id` holds it. -/
def drawnId (wrn : WrnDev) : BitVec 16 := (wrnDrawId wrn).1.setWidth 16

/-- The id that is drawn after `n` others. -/
def nthId (n : ℕ) : BitVec 16 := BitVec.ofNat 16 (n % 65535 + 1)

/-! ### The sequence of ids -/

theorem toNat_nthId (n : ℕ) : (nthId n).toNat = n % 65535 + 1 := by
  rw [nthId, BitVec.toNat_ofNat]
  omega

theorem nthId_ne_zero (n : ℕ) : nthId n ≠ 0 := by
  intro h
  have hnat := congrArg BitVec.toNat h
  rw [toNat_nthId] at hnat
  exact Nat.succ_ne_zero _ hnat

theorem nthId_inj {m n : ℕ} : nthId m = nthId n ↔ m % 65535 = n % 65535 := by
  rw [← BitVec.toNat_inj, toNat_nthId, toNat_nthId, Nat.add_right_cancel_iff]

/-- The low half of the counter when `n` ids have been drawn; 0 is skipped at the next draw. -/
def counterLow (n : ℕ) : ℕ := if n % 65535 = 0 then 0 else n % 65535 + 1

theorem toNat_and_ffff (x : BitVec 32) : (x &&& 0xffff).toNat = x.toNat % 65536 := by
  rw [BitVec.toNat_and]
  exact Nat.and_two_pow_sub_one_eq_mod x.toNat 16

/-- One draw: the id drawn is the next of the sequence, and the counter follows. -/
theorem wrnDrawId_spec {wrn : WrnDev} {n : ℕ} (h : wrn.id.toNat % 65536 = counterLow n) :
    drawnId wrn = nthId n ∧ (wrnDrawId wrn).2.id.toNat % 65536 = counterLow (n + 1) := by
  have hone : (1 : BitVec 32).toNat = 1 := rfl
  have hlow := toNat_and_ffff wrn.id
  have hzero : wrn.id &&& 0xffff = 0 ↔ n % 65535 = 0 := by
    rw [← BitVec.toNat_inj, hlow, h, counterLow]
    split_ifs with hn <;> simp [hn]
  by_cases hn : n % 65535 = 0
  · have hid := hzero.mpr hn
    simp only [counterLow, hn, if_true] at h
    constructor
    · rw [← BitVec.toNat_inj, toNat_nthId]
      simp only [drawnId, wrnDrawId, hid, if_true, BitVec.toNat_setWidth, BitVec.toNat_add, hone]
      omega
    · simp only [wrnDrawId, hid, if_true, BitVec.toNat_add, hone, counterLow]
      split_ifs <;> omega
  · have hid := mt hzero.mp hn
    simp only [counterLow, hn, if_false] at h
    constructor
    · rw [← BitVec.toNat_inj, toNat_nthId]
      simp only [drawnId, wrnDrawId, hid, if_false, BitVec.toNat_setWidth, hlow]
      omega
    · simp only [wrnDrawId, hid, if_false, BitVec.toNat_add, hone, counterLow]
      split_ifs <;> omega

/-! ### The id of a frame -/

/-- The flags of register 1 are below the id. -/
theorem tsId_tx1 (pad stamp : Bool) (id tx2 tx3 : BitVec 32) :
    (⟨(if pad then nicTx1PadE else 0) ||| nicTx1Ready ||| (if stamp then nicTx1TsE else 0) |||
      id <<< 16, tx2, tx3⟩ : WrnTxd).tsId = id.setWidth 16 := by
  have hflags : ((if pad then nicTx1PadE else 0) ||| nicTx1Ready |||
      (if stamp then nicTx1TsE else 0)) >>> 16 = 0 := by
    cases pad <;> cases stamp <;> decide
  rw [WrnTxd.tsId, BitVec.ushiftRight_or_distrib, hflags]
  apply BitVec.eq_of_getLsbD_eq
  intro k hk
  have hk' : 16 + k < 32 := by omega
  simp [hk, hk', BitVec.getLsbD_eq_getElem (show k < 32 by omega)]

/-- An accepted frame carries the id drawn for it, in the descriptor and in `skb_desc[]`. -/
theorem wrnStartXmit_id (skb : SkBuff) {wrn : WrnDev} (h : XmitAccepts skb.toFrame wrn) :
    ((wrnStartXmit skb wrn).2.skbDesc wrn.nextTxHead).frameId = drawnId wrn ∧
      ((wrnStartXmit skb wrn).2.txd wrn.nextTxHead).tsId = drawnId wrn := by
  obtain ⟨hlen, hready⟩ := h
  have hdraw : (wrnDrawId { wrn with nextTxHead := wrnNextDesc wrn.nextTxHead }).1 =
      (wrnDrawId wrn).1 := by
    simp only [wrnDrawId]
    split_ifs <;> rfl
  simp only [wrnStartXmit, if_neg (Nat.not_lt.mpr hlen), wrnAllocTxDesc, hready,
    Bool.false_eq_true, if_false, wrnTxDesc, WrnDev.setDesc, WrnDev.setTxd, Function.update_self,
    drawnId, hdraw]
  refine ⟨trivial, ?_⟩
  have htx1 := tsId_tx1 (decide (skb.len < 60)) (skb.txFlags &&& skbtxHwTstamp != 0)
    (wrnDrawId wrn).1
  simp only [decide_eq_true_eq] at htx1
  exact htx1 _ _

/-- The counter moves on at every call that goes past the length check. -/
theorem wrnStartXmit_counter (skb : SkBuff) (wrn : WrnDev) :
    (wrnStartXmit skb wrn).2.id =
      if skb.len ≤ wrnMtu then (wrnDrawId wrn).2.id else wrn.id := by
  by_cases hlen : skb.len ≤ wrnMtu
  · rw [if_pos hlen]
    have hdraw : (wrnDrawId { wrn with nextTxHead := wrnNextDesc wrn.nextTxHead }).2.id =
        (wrnDrawId wrn).2.id := by
      simp only [wrnDrawId]
      split_ifs <;> rfl
    by_cases hready : (wrn.txd wrn.nextTxHead).ready
    · simp only [wrnStartXmit, if_neg (Nat.not_lt.mpr hlen), wrnAllocTxDesc, hready, if_true]
    · simp only [wrnStartXmit, if_neg (Nat.not_lt.mpr hlen), wrnAllocTxDesc, hready, if_false,
        Bool.false_eq_true, wrnTxDesc, WrnDev.setDesc, WrnDev.setTxd, hdraw]
  · rw [if_neg hlen]
    simp only [wrnStartXmit, if_pos (Nat.lt_of_not_le hlen)]

/-! ### The transmit path with its ids -/

/-- The transmit path, the ids drawn so far, the oldest first, and for each descriptor how many had
been drawn when its buffer was stored, that buffer's own included; 0 if none has been stored. -/
structure IdSystem where
  sys : TxSystem
  drawn : List (BitVec 16)
  storedAt : Desc → ℕ

namespace IdSystem

/-- Each event, with the ids. -/
def step (s : IdSystem) (e : TxEvent) : IdSystem :=
  match e with
  | .startXmit frame =>
    let drawn := if frame.len ≤ wrnMtu then s.drawn ++ [drawnId s.sys.wrn] else s.drawn
    { sys := s.sys.step (.startXmit frame)
      drawn := drawn
      storedAt :=
        if XmitAccepts frame s.sys.wrn then
          Function.update s.storedAt s.sys.wrn.nextTxHead drawn.length
        else s.storedAt }
  | e => { s with sys := s.sys.step e }

/-- The system once the driver is probed. -/
def start (hw : PowerOn) : IdSystem := ⟨TxSystem.start hw, [], fun _ => 0⟩

/-- A buffer is pending in a descriptor's entry. -/
def Pending (s : IdSystem) (i : Desc) : Prop := (s.sys.wrn.skbDesc i).skb.isSome

/-! ### The other events -/

end IdSystem

/-- No id or `TS_ID` field changes, no descriptor becomes `READY` and no entry gets a buffer. -/
structure EntriesKept (wrn wrn' : WrnDev) : Prop where
  frameId : ∀ i, (wrn'.skbDesc i).frameId = (wrn.skbDesc i).frameId
  tsId : ∀ i, (wrn'.txd i).tsId = (wrn.txd i).tsId
  ready : ∀ i, (wrn'.txd i).ready = true → (wrn.txd i).ready = true
  held : ∀ i, (wrn'.skbDesc i).skb.isSome → (wrn.skbDesc i).skb.isSome

/-- The same, and the counter stays too. -/
structure IdsKept (wrn wrn' : WrnDev) : Prop extends EntriesKept wrn wrn' where
  counter : wrn'.id = wrn.id

theorem SameTx.entriesKept {wrn wrn' : WrnDev} (h : SameTx wrn wrn') : EntriesKept wrn wrn' :=
  ⟨fun i => by rw [h.skbDesc], fun i => by rw [h.txd], fun i hi => by rwa [h.txd] at hi,
    fun i hi => by rwa [h.skbDesc] at hi⟩

theorem IdsKept.refl (wrn : WrnDev) : IdsKept wrn wrn :=
  ⟨⟨fun _ => rfl, fun _ => rfl, fun _ h => h, fun _ h => h⟩, rfl⟩

theorem IdsKept.trans {wrn wrn' wrn'' : WrnDev} (h : IdsKept wrn wrn') (h' : IdsKept wrn' wrn'') :
    IdsKept wrn wrn'' :=
  ⟨⟨fun i => (h'.frameId i).trans (h.frameId i), fun i => (h'.tsId i).trans (h.tsId i),
    fun i hi => h.ready i (h'.ready i hi), fun i hi => h.held i (h'.held i hi)⟩,
    h'.counter.trans h.counter⟩

theorem idsKept_hwTxDone (i : Desc) (wrn : WrnDev) : IdsKept wrn (hwTxDone i wrn) := by
  refine ⟨⟨fun _ => rfl, fun j => ?_, fun j hj => ?_, fun _ h => h⟩, rfl⟩
  · by_cases hji : j = i
    · subst hji
      have hmask : (~~~nicTx1Ready >>> 16).setWidth 16 = BitVec.allOnes 16 := by decide
      simp only [hwTxDone, WrnDev.setTxd, Function.update_self, WrnTxd.tsId,
        BitVec.ushiftRight_and_distrib, BitVec.setWidth_and, hmask, BitVec.and_allOnes]
    · rw [hwTxDone_txd_of_ne hji]
  · by_cases hji : j = i
    · subst hji
      exact absurd hj (by simp [hwTxDone_ready_self])
    · rwa [hwTxDone_txd_of_ne hji] at hj

/-- An entry may be replaced by one with the same id that holds a buffer only if it held one. -/
theorem idsKept_of_update {wrn wrn' : WrnDev} {i : Desc} {d : WrnDescPending}
    (hid : wrn'.id = wrn.id) (htxd : wrn'.txd = wrn.txd)
    (hdesc : wrn'.skbDesc = Function.update wrn.skbDesc i d)
    (hframe : d.frameId = (wrn.skbDesc i).frameId)
    (hheld : d.skb.isSome → (wrn.skbDesc i).skb.isSome) : IdsKept wrn wrn' := by
  refine ⟨⟨fun j => ?_, fun j => by rw [htxd], fun j hj => by rwa [htxd] at hj, fun j hj => ?_⟩,
    hid⟩
  · rw [hdesc]
    by_cases hji : j = i
    · subst hji
      rw [Function.update_self, hframe]
    · rw [Function.update_of_ne hji]
  · rw [hdesc] at hj
    by_cases hji : j = i
    · subst hji
      rw [Function.update_self] at hj
      exact hheld hj
    · rwa [Function.update_of_ne hji] at hj

theorem idsKept_recordTstamp (r : PpsgReads) (wrn : WrnDev) (tsval idreg r2 : BitVec 32) :
    IdsKept wrn (recordTstamp r wrn tsval idreg r2) := by
  cases hfind : findSkb wrn (txtsuFid idreg) with
  | none =>
    simp only [recordTstamp, hfind]
    exact IdsKept.refl wrn
  | some i =>
    obtain ⟨skb, hskb⟩ := findSkb_isSome hfind
    simp only [recordTstamp, hfind, hskb]
    split_ifs <;>
      exact idsKept_of_update (i := i) rfl rfl rfl rfl (fun h => absurd h (by simp))

theorem idsKept_wrnTxReclaim (r : PpsgReads) {wrn : WrnDev} {i : Desc} {skb : SkBuff}
    (hskb : (wrn.skbDesc i).skb = some skb) : IdsKept wrn (wrnTxReclaim r wrn i skb) := by
  have hheld : (wrn.skbDesc i).skb.isSome := by simp [hskb]
  simp only [wrnTxReclaim, wrnTxTstampSkb, WrnDev.setDesc, WrnDev.devKfreeSkbIrq,
    WrnDev.skbTstampTx, Function.update_self]
  split_ifs
  · exact idsKept_of_update (i := i) rfl rfl rfl rfl (fun _ => hheld)
  · exact idsKept_of_update (i := i) rfl rfl (Function.update_idem _ _ _) rfl (fun _ => hheld)
  · exact idsKept_of_update (i := i) rfl rfl (Function.update_idem _ _ _) rfl (fun _ => hheld)
  · exact idsKept_of_update (i := i) rfl rfl rfl rfl (fun _ => hheld)

theorem idsKept_wrnTxInterrupt (r : Desc → PpsgReads) (wrn : WrnDev) :
    IdsKept wrn (wrnTxInterrupt r wrn) :=
  wrnTxInterruptLoop_rounds r
    (fun _ _ hw hrec => hw.trans (idsKept_wrnTxReclaim _ hrec.held)) _ wrn (IdsKept.refl wrn)

/-! ### The invariant -/

namespace IdSystem

/-- The ids drawn are the first ones of the sequence, and a descriptor that has been given a frame
carries, as its entry does, the id drawn when that frame was stored. No two descriptors have been
given a frame at the same draw. -/
structure IdInv (s : IdSystem) : Prop where
  drawn : s.drawn = (List.range s.drawn.length).map nthId
  counter : s.sys.wrn.id.toNat % 65536 = counterLow s.drawn.length
  stored_le : ∀ i, s.storedAt i ≤ s.drawn.length
  stored_inj : ∀ i j, s.storedAt i = s.storedAt j → s.storedAt i ≠ 0 → i = j
  frameId : ∀ i, s.storedAt i ≠ 0 → (s.sys.wrn.skbDesc i).frameId = nthId (s.storedAt i - 1)
  tsId : ∀ i, s.storedAt i ≠ 0 → (s.sys.wrn.txd i).tsId = (s.sys.wrn.skbDesc i).frameId
  handed : ∀ i, (s.sys.wrn.txd i).ready = true → s.storedAt i ≠ 0
  pending : ∀ i, s.Pending i → s.storedAt i ≠ 0

theorem idInv_start (hw : PowerOn) : IdInv (start hw) where
  drawn := rfl
  counter := rfl
  stored_le _ := le_rfl
  stored_inj _ _ _ h := absurd rfl h
  frameId _ h := absurd rfl h
  tsId _ h := absurd rfl h
  handed i h := absurd h (by simp [start, TxSystem.start, wrnProbe, WrnTxd.ready])
  pending i h := absurd h (by
    simp [Pending, start, TxSystem.start, wrnProbe, WrnDescPending.zero])

/-- A step that stores no buffer keeps the invariant, if it keeps the sequence of ids. -/
theorem IdInv.of_entriesKept {s s' : IdSystem} (h : IdInv s)
    (hk : EntriesKept s.sys.wrn s'.sys.wrn) (hstored : s'.storedAt = s.storedAt)
    (hle : s.drawn.length ≤ s'.drawn.length)
    (hdrawn : s'.drawn = (List.range s'.drawn.length).map nthId)
    (hcounter : s'.sys.wrn.id.toNat % 65536 = counterLow s'.drawn.length) : IdInv s' where
  drawn := hdrawn
  counter := hcounter
  stored_le i := by rw [hstored]; exact (h.stored_le i).trans hle
  stored_inj i j := by rw [hstored]; exact h.stored_inj i j
  frameId i hi := by rw [hk.frameId, hstored]; exact h.frameId i (by rwa [hstored] at hi)
  tsId i hi := by rw [hk.tsId, hk.frameId]; exact h.tsId i (by rwa [hstored] at hi)
  handed i hi := by rw [hstored]; exact h.handed i (hk.ready i hi)
  pending i hi := by rw [hstored]; exact h.pending i (hk.held i hi)

theorem IdInv.kept {s s' : IdSystem} (h : IdInv s) (hk : IdsKept s.sys.wrn s'.sys.wrn)
    (hdrawn : s'.drawn = s.drawn) (hstored : s'.storedAt = s.storedAt) : IdInv s' :=
  h.of_entriesKept hk.toEntriesKept hstored (by rw [hdrawn]) (by rw [hdrawn]; exact h.drawn)
    (by rw [hk.counter, hdrawn]; exact h.counter)

/-- A call that draws an id keeps the sequence. -/
private theorem IdInv.draw {s : IdSystem} (h : IdInv s) :
    s.drawn ++ [drawnId s.sys.wrn] =
        (List.range (s.drawn ++ [drawnId s.sys.wrn]).length).map nthId ∧
      (wrnDrawId s.sys.wrn).2.id.toNat % 65536 =
        counterLow (s.drawn ++ [drawnId s.sys.wrn]).length := by
  obtain ⟨hid, hnext⟩ := wrnDrawId_spec h.counter
  rw [List.length_append, List.length_singleton, List.range_succ, List.map_append]
  refine ⟨?_, hnext⟩
  rw [List.map_singleton, ← hid, ← h.drawn]

/-- What a call does that hands its frame over: an id is drawn, and the entry at the head and its
descriptor get it. -/
private structure Hands (s s' : IdSystem) : Prop where
  drawn : s'.drawn = s.drawn ++ [drawnId s.sys.wrn]
  counter : s'.sys.wrn.id = (wrnDrawId s.sys.wrn).2.id
  storedAt : s'.storedAt =
    Function.update s.storedAt s.sys.wrn.nextTxHead (s.drawn.length + 1)
  frameId : (s'.sys.wrn.skbDesc s.sys.wrn.nextTxHead).frameId = drawnId s.sys.wrn
  tsId : (s'.sys.wrn.txd s.sys.wrn.nextTxHead).tsId = drawnId s.sys.wrn
  skbDesc_of_ne : ∀ i ≠ s.sys.wrn.nextTxHead, s'.sys.wrn.skbDesc i = s.sys.wrn.skbDesc i
  txd_of_ne : ∀ i ≠ s.sys.wrn.nextTxHead, s'.sys.wrn.txd i = s.sys.wrn.txd i

private theorem hands_startXmit {s : IdSystem} {frame : Frame}
    (hacc : XmitAccepts frame s.sys.wrn) : Hands s (s.step (.startXmit frame)) := by
  have hlen : frame.len ≤ wrnMtu := hacc.1
  have hdev := wrnStartXmit_counter ⟨frame, s.sys.calls⟩ s.sys.wrn
  rw [if_pos hlen] at hdev
  obtain ⟨-, hnew⟩ := wrnStartXmit_of_accepts ⟨frame, s.sys.calls⟩ hacc
  obtain ⟨hframe, htsId⟩ := wrnStartXmit_id ⟨frame, s.sys.calls⟩ hacc
  refine ⟨if_pos hlen, hdev, ?_, hframe, htsId, hnew.skbDesc_of_ne, hnew.txd_of_ne⟩
  simp only [step, if_pos hlen, if_pos hacc, List.length_append, List.length_singleton]

/-- A descriptor is the one at the head, which has the last id drawn, or nothing of it changes. -/
private theorem Hands.cases {s s' : IdSystem} (h : Hands s s') (i : Desc) :
    (i = s.sys.wrn.nextTxHead ∧ s'.storedAt i = s.drawn.length + 1) ∨
      (s'.storedAt i = s.storedAt i ∧ s'.sys.wrn.skbDesc i = s.sys.wrn.skbDesc i ∧
        s'.sys.wrn.txd i = s.sys.wrn.txd i) := by
  rw [h.storedAt]
  by_cases hhead : i = s.sys.wrn.nextTxHead
  · exact Or.inl ⟨hhead, by rw [hhead, Function.update_self]⟩
  · exact Or.inr
      ⟨Function.update_of_ne hhead _ _, h.skbDesc_of_ne i hhead, h.txd_of_ne i hhead⟩

/-- No two descriptors have been given a frame at the same draw, as no other one has been at the
last. -/
private theorem IdInv.hands_inj {s s' : IdSystem} (h : IdInv s) (hands : Hands s s') {i j : Desc}
    (hij : s'.storedAt i = s'.storedAt j) (hne : s'.storedAt i ≠ 0) : i = j := by
  have hi := h.stored_le i
  have hj := h.stored_le j
  rcases hands.cases i with ⟨hihead, hlast⟩ | ⟨hold, -, -⟩ <;>
    rcases hands.cases j with ⟨hjhead, hlast'⟩ | ⟨hold', -, -⟩
  · rw [hihead, hjhead]
  · omega
  · omega
  · exact h.stored_inj i j (by omega) (by omega)

/-- The frame is handed over: the entry at the head gets the id just drawn. -/
private theorem IdInv.hands {s s' : IdSystem} (h : IdInv s) (hands : Hands s s') : IdInv s' := by
  obtain ⟨hseq, hcounter⟩ := h.draw
  obtain ⟨hid, -⟩ := wrnDrawId_spec h.counter
  have hlen : s'.drawn.length = s.drawn.length + 1 := by
    rw [hands.drawn, List.length_append, List.length_singleton]
  refine ⟨by rw [hands.drawn]; exact hseq, by rw [hands.counter, hands.drawn]; exact hcounter,
    fun i => ?_, fun i j => h.hands_inj hands, fun i hi => ?_, fun i hi => ?_, fun i hi => ?_,
    fun i hi => ?_⟩
  · have hle := h.stored_le i
    rcases hands.cases i with ⟨-, hlast⟩ | ⟨hold, -, -⟩ <;> omega
  · rcases hands.cases i with ⟨rfl, hlast⟩ | ⟨hold, hdesc, -⟩
    · rw [hlast, hands.frameId]
      exact hid
    · rw [hold] at hi ⊢
      rw [hdesc]
      exact h.frameId i hi
  · rcases hands.cases i with ⟨rfl, -⟩ | ⟨hold, hdesc, htxd⟩
    · rw [hands.tsId, hands.frameId]
    · rw [hold] at hi
      rw [hdesc, htxd]
      exact h.tsId i hi
  · rcases hands.cases i with ⟨-, hlast⟩ | ⟨hold, -, htxd⟩
    · rw [hlast]
      exact Nat.succ_ne_zero _
    · rw [htxd] at hi
      rw [hold]
      exact h.handed i hi
  · rcases hands.cases i with ⟨-, hlast⟩ | ⟨hold, hdesc, -⟩
    · rw [hlast]
      exact Nat.succ_ne_zero _
    · rw [Pending, hdesc] at hi
      rw [hold]
      exact h.pending i hi

/-- The frame is refused: at most an id has been drawn. -/
private theorem IdInv.refused {s : IdSystem} (h : IdInv s) {frame : Frame}
    (hrej : ¬ XmitAccepts frame s.sys.wrn) : IdInv (s.step (.startXmit frame)) := by
  let skb : SkBuff := ⟨frame, s.sys.calls⟩
  obtain ⟨-, hsame⟩ := wrnStartXmit_of_refused (show ¬ XmitAccepts skb.toFrame s.sys.wrn from hrej)
  have hdev := wrnStartXmit_counter ⟨frame, s.sys.calls⟩ s.sys.wrn
  have hstored : (s.step (.startXmit frame)).storedAt = s.storedAt := if_neg hrej
  by_cases hlen : frame.len ≤ wrnMtu
  · rw [if_pos hlen] at hdev
    obtain ⟨hseq, hcounter⟩ := h.draw
    have hdrawn : (s.step (.startXmit frame)).drawn = s.drawn ++ [drawnId s.sys.wrn] :=
      if_pos hlen
    refine h.of_entriesKept hsame.entriesKept hstored ?_ (by rw [hdrawn]; exact hseq) ?_
    · rw [hdrawn, List.length_append]
      exact Nat.le_add_right _ _
    · rw [hdrawn]
      exact (congrArg (·.toNat % 65536) hdev).trans hcounter
  · rw [if_neg hlen] at hdev
    exact h.kept ⟨hsame.entriesKept, hdev⟩ (if_neg hlen) hstored

theorem IdInv.step {s : IdSystem} (h : IdInv s) (e : TxEvent) : IdInv (s.step e) := by
  cases e with
  | startXmit frame =>
    by_cases hacc : XmitAccepts frame s.sys.wrn
    · exact h.hands (hands_startXmit hacc)
    · exact h.refused hacc
  | txDone i => exact h.kept (idsKept_hwTxDone i _) rfl rfl
  | txInterrupt r => exact h.kept (idsKept_wrnTxInterrupt r _) rfl rfl
  | tstampInterrupt r r0 r1 r2 => exact h.kept (idsKept_recordTstamp r _ r0 r1 r2) rfl rfl

theorem idInv_run (hw : PowerOn) (es : List TxEvent) : IdInv (run step (start hw) es) :=
  run_invariant (I := fun _ s => IdInv s) (idInv_start hw) (fun _ _ e h => h.step e) es

/-! ### Time stamps find their frames -/

/-- Of the ids drawn, any 65535 consecutive ones differ. -/
theorem IdInv.nodup {s : IdSystem} (h : IdInv s) (k : ℕ) : ((s.drawn.drop k).take 65535).Nodup := by
  have hmem : ∀ m ∈ ((List.range s.drawn.length).drop k).take 65535, k ≤ m ∧ m < k + 65535 := by
    intro m hm
    rw [List.range_eq_range', List.drop_range'] at hm
    rcases Nat.le_total (s.drawn.length - k) 65535 with hle | hle
    · rw [List.take_range'_of_length_le hle, List.mem_range'_1] at hm
      omega
    · rw [List.take_range'_of_length_ge hle, List.mem_range'_1] at hm
      omega
  rw [h.drawn, ← List.map_drop, ← List.map_take]
  refine List.Nodup.map_on (fun m hm n hn heq => ?_) ?_
  · have hm' := hmem m hm
    have hn' := hmem n hn
    rw [nthId_inj] at heq
    omega
  · exact (List.nodup_range.sublist (List.drop_sublist k _)).sublist (List.take_sublist _ _)

/-- Of the pending buffers with the id of one that was stored less than 65535 draws ago, the others
were stored a multiple of 65535 draws before it. -/
theorem IdInv.older_of_frameId {s : IdSystem} (h : IdInv s) {i j : Desc} (hi : s.Pending i)
    (hj : s.Pending j) (hsince : s.drawn.length - s.storedAt i < 65535)
    (heq : (s.sys.wrn.skbDesc j).frameId = (s.sys.wrn.skbDesc i).frameId) (hne : j ≠ i) :
    s.storedAt j < s.storedAt i ∧ 65535 ∣ s.storedAt i - s.storedAt j := by
  have hi0 := h.pending i hi
  have hj0 := h.pending j hj
  have hle := h.stored_le j
  have hdiff : s.storedAt j ≠ s.storedAt i := fun hsame => hne (h.stored_inj j i hsame hj0)
  rw [h.frameId i hi0, h.frameId j hj0, nthId_inj] at heq
  omega

end IdSystem

/-- The search of `record_tstamp` finds an entry whose id no earlier entry with a buffer has. -/
theorem findSkb_eq_some {wrn : WrnDev} {i : Desc} {fid : BitVec 16}
    (hheld : (wrn.skbDesc i).skb.isSome) (hid : (wrn.skbDesc i).frameId = fid)
    (hfirst : ∀ j < i, (wrn.skbDesc j).skb.isSome → (wrn.skbDesc j).frameId ≠ fid) :
    findSkb wrn fid = some i := by
  refine List.find?_eq_some_iff_getElem.mpr ⟨by simp [hheld, hid], i.val, by simp, by simp, ?_⟩
  intro j hj
  rw [List.getElem_finRange, Bool.not_eq_true', Bool.and_eq_false_imp, beq_eq_false_iff_ne]
  exact hfirst _ (Fin.lt_def.mpr hj)

theorem findSkb_eq_none {wrn : WrnDev} {fid : BitVec 16}
    (h : ∀ j, (wrn.skbDesc j).skb.isSome → (wrn.skbDesc j).frameId ≠ fid) :
    findSkb wrn fid = none := by
  refine List.find?_eq_none.mpr fun j _ hj => ?_
  rw [Bool.and_eq_true, beq_iff_eq] at hj
  exact h j hj.1 hj.2

/-- Every id is that of some FIFO entry. -/
theorem exists_txtsuFid (fid : BitVec 16) : ∃ idreg, txtsuFid idreg = fid := by
  refine ⟨fid ++ (0 : BitVec 16), ?_⟩
  apply BitVec.eq_of_getLsbD_eq
  intro k hk
  simp only [txtsuFid, BitVec.getLsbD_setWidth, BitVec.getLsbD_ushiftRight, BitVec.getLsbD_append,
    hk, decide_true, Bool.true_and, if_neg (show ¬ 16 + k < 16 by omega), Nat.add_sub_cancel_left]

namespace IdSystem

/-- **Ids of transmitted frames.** In every state that a run reaches, a descriptor handed to the
hardware carries the non-zero id of its entry, and any 65535 consecutive ids differ. If fewer than
65535 ids have been drawn since a pending buffer was stored, and no earlier entry has a buffer still
pending that was stored an exact multiple of 65535 draws before it, a time stamp with its id
releases that buffer and no other. A time stamp with the id 0, or with the id of no pending buffer,
changes nothing. -/
theorem txIds (hw : PowerOn) (es : List TxEvent) :
    let s := run step (start hw) es
    (∀ i, (s.sys.wrn.txd i).ready = true →
      (s.sys.wrn.txd i).tsId = (s.sys.wrn.skbDesc i).frameId ∧ (s.sys.wrn.txd i).tsId ≠ 0) ∧
    (∀ k, ((s.drawn.drop k).take 65535).Nodup) ∧
    (∀ i skb r r0 r1 r2, (s.sys.wrn.skbDesc i).skb = some skb →
      s.drawn.length - s.storedAt i < 65535 →
      (∀ j < i, s.Pending j → s.storedAt j < s.storedAt i →
        ¬ 65535 ∣ s.storedAt i - s.storedAt j) →
      txtsuFid r1 = (s.sys.wrn.skbDesc i).frameId →
      Released i skb s.sys.wrn (wrnTstampInterrupt r r0 r1 r2 s.sys.wrn)) ∧
    (∀ r r0 r1 r2,
      (txtsuFid r1 = 0 ∨ ∀ j, s.Pending j → (s.sys.wrn.skbDesc j).frameId ≠ txtsuFid r1) →
      wrnTstampInterrupt r r0 r1 r2 s.sys.wrn = s.sys.wrn) := by
  intro s
  have h : IdInv s := idInv_run hw es
  refine ⟨fun i hi => ?_, h.nodup, fun i skb r r0 r1 r2 hskb hsince hold hid => ?_,
    fun r r0 r1 r2 hnone => ?_⟩
  · have hstored := h.handed i hi
    refine ⟨h.tsId i hstored, ?_⟩
    rw [h.tsId i hstored, h.frameId i hstored]
    exact nthId_ne_zero _
  · have hi : s.Pending i := by simp [Pending, hskb]
    have hfound : findSkb s.sys.wrn (txtsuFid r1) = some i := by
      refine findSkb_eq_some hi hid.symm fun j hlt hj heq => ?_
      rw [hid] at heq
      obtain ⟨holder, hdvd⟩ := h.older_of_frameId hi hj hsince heq hlt.ne
      exact hold j hlt hj holder hdvd
    rcases recordTstamp_cases r s.sys.wrn r0 r1 r2 with ⟨hnone, -⟩ | ⟨j, skb', hfind, hrel⟩
    · rw [hfound] at hnone
      exact absurd hnone (Option.some_ne_none i)
    · obtain rfl : i = j := Option.some.inj (hfound.symm.trans hfind)
      obtain rfl : skb = skb' := Option.some.inj (hskb.symm.trans hrel.held)
      exact hrel
  · have hnot : findSkb s.sys.wrn (txtsuFid r1) = none := by
      refine findSkb_eq_none fun j hj => ?_
      rcases hnone with hzero | hother
      · rw [hzero, h.frameId j (h.pending j hj)]
        exact nthId_ne_zero _
      · exact hother j hj
    rw [wrnTstampInterrupt, recordTstamp, hnot]

/-! ### An id drawn again while the first frame is pending -/

/-- Calls for which no descriptor is free change nothing but the counter. -/
theorem run_blocked {s : IdSystem} {frame : Frame} (hlen : frame.len ≤ wrnMtu)
    (hfull : (s.sys.wrn.txd s.sys.wrn.nextTxHead).ready = true) (k : ℕ) :
    let s' := run step s (List.replicate k (.startXmit frame))
    SameTx s.sys.wrn s'.sys.wrn ∧ s'.storedAt = s.storedAt ∧
      s'.drawn.length = s.drawn.length + k := by
  induction k generalizing s with
  | zero => exact ⟨⟨rfl, rfl, rfl, rfl, rfl, rfl, rfl⟩, rfl, rfl⟩
  | succ k ih =>
    have hrej : ¬ XmitAccepts frame s.sys.wrn := fun h => by
      rw [h.2] at hfull
      exact Bool.false_ne_true hfull
    let skb : SkBuff := ⟨frame, s.sys.calls⟩
    obtain ⟨-, hsame⟩ :=
      wrnStartXmit_of_refused (show ¬ XmitAccepts skb.toFrame s.sys.wrn from hrej)
    have hstored : (s.step (.startXmit frame)).storedAt = s.storedAt := if_neg hrej
    have hdrawn : (s.step (.startXmit frame)).drawn = s.drawn ++ [drawnId s.sys.wrn] :=
      if_pos hlen
    have hfull' : ((s.step (.startXmit frame)).sys.wrn.txd
        (s.step (.startXmit frame)).sys.wrn.nextTxHead).ready = true := by
      change ((wrnStartXmit _ _).2.txd (wrnStartXmit _ _).2.nextTxHead).ready = true
      rw [hsame.txd, hsame.nextTxHead]
      exact hfull
    obtain ⟨hrest, hstored', hlen'⟩ := ih hfull'
    rw [List.replicate_succ, run_cons]
    refine ⟨⟨hrest.txd.trans hsame.txd, hrest.databuf.trans hsame.databuf,
      hrest.nextTxHead.trans hsame.nextTxHead, hrest.nextTxTail.trans hsame.nextTxTail,
      hrest.skbDesc.trans hsame.skbDesc, hrest.freed.trans hsame.freed,
      hrest.stamped.trans hsame.stamped⟩, hstored'.trans hstored, ?_⟩
    rw [hlen', hdrawn, List.length_append, List.length_singleton]
    omega

/-- A frame to be time stamped. -/
def stampedFrame : Frame := ⟨60, fun _ => 0, skbtxHwTstamp⟩

/-- Nine frames, of which the hardware has sent the first. -/
def nineFrames : List TxEvent :=
  List.replicate 8 (.startXmit stampedFrame) ++ [.txDone 0, .startXmit stampedFrame]

/-- Nine frames with the ids 1 to 9, the last one in descriptor 0 again; 65534 calls while all
descriptors are taken; and a frame in descriptor 1 once the hardware has sent the one before. -/
def reuseRun : List TxEvent :=
  nineFrames ++ (List.replicate 65534 (.startXmit stampedFrame) ++
    [.txDone 1, .startXmit stampedFrame])

/-- The last two events of `reuseRun`, from any state with a buffer pending in descriptor 0, whose
id was drawn as the ninth, and the head at descriptor 1: when 65543 ids have been drawn, the buffer
stored in descriptor 1 gets the same id. -/
theorem reuse_id {s : IdSystem} (h : IdInv s) (hhead : s.sys.wrn.nextTxHead = 1)
    (hpending : s.Pending 0) (hstored : s.storedAt 0 = 9) (hdrawn : s.drawn.length = 65543) :
    let s' := run step s [.txDone 1, .startXmit stampedFrame]
    (s'.sys.wrn.skbDesc 1).skb = some ⟨stampedFrame, s.sys.calls⟩ ∧
      s'.drawn.length = s'.storedAt 1 ∧ s'.Pending 0 ∧
      (s'.sys.wrn.skbDesc 0).frameId = (s'.sys.wrn.skbDesc 1).frameId := by
  intro s'
  have hacc : XmitAccepts stampedFrame (s.step (.txDone 1)).sys.wrn := by
    refine ⟨by decide, ?_⟩
    change ((hwTxDone 1 s.sys.wrn).txd s.sys.wrn.nextTxHead).ready = false
    rw [hhead]
    exact hwTxDone_ready_self 1 s.sys.wrn
  obtain ⟨-, hnew⟩ := wrnStartXmit_of_accepts ⟨stampedFrame, s.sys.calls⟩ hacc
  have hheadIs : (s.step (.txDone 1)).sys.wrn.nextTxHead = 1 := hhead
  have hlen : s'.drawn.length = 65544 := by
    have : s'.drawn = s.drawn ++ [drawnId (hwTxDone 1 s.sys.wrn)] := rfl
    rw [this, List.length_append, List.length_singleton, hdrawn]
  have hstoredAt : s'.storedAt = Function.update s.storedAt 1 s'.drawn.length := by
    have : s'.storedAt = Function.update s.storedAt (s.step (.txDone 1)).sys.wrn.nextTxHead
      s'.drawn.length := if_pos hacc
    rw [this, hheadIs]
  have hpending' : s'.Pending 0 := by
    have hother : s'.sys.wrn.skbDesc 0 = s.sys.wrn.skbDesc 0 :=
      hnew.skbDesc_of_ne 0 (by rw [hheadIs]; decide)
    rw [Pending, hother]
    exact hpending
  have hskb : (s'.sys.wrn.skbDesc 1).skb = some ⟨stampedFrame, s.sys.calls⟩ := by
    have := hnew.skb_head
    rw [hheadIs] at this
    exact this
  have hinv : IdInv s' := (h.step (.txDone 1)).step (.startXmit stampedFrame)
  have hstored0 : s'.storedAt 0 = 9 := by
    rw [hstoredAt, Function.update_of_ne (by decide), hstored]
  have hstored1 : s'.storedAt 1 = 65544 := by
    rw [hstoredAt, Function.update_self, hlen]
  refine ⟨hskb, by rw [hlen, hstored1], hpending', ?_⟩
  rw [hinv.frameId 0 (by omega), hinv.frameId 1 (by omega), nthId_inj]
  omega

/-- After `reuseRun` the buffer just stored in descriptor 1 has the id of the one pending in
descriptor 0, and a time stamp with that id releases the latter. -/
theorem not_forall_stampFindsSkb : ¬ ∀ (hw : PowerOn) (es : List TxEvent) (i : Desc) (skb : SkBuff)
    (r : PpsgReads) (r0 r1 r2 : BitVec 32), let s := run step (start hw) es
    (s.sys.wrn.skbDesc i).skb = some skb → s.drawn.length - s.storedAt i < 65535 →
      txtsuFid r1 = (s.sys.wrn.skbDesc i).frameId →
      Released i skb s.sys.wrn (wrnTstampInterrupt r r0 r1 r2 s.sys.wrn) := by
  intro hall
  have hall := hall ⟨fun _ => 0, fun _ => 0, fun _ => 0⟩ reuseRun
  rw [reuseRun, run_append, run_append] at hall
  obtain ⟨hsame, hstored, hlen⟩ := run_blocked
    (s := run step (start ⟨fun _ => 0, fun _ => 0, fun _ => 0⟩) nineFrames)
    (show stampedFrame.len ≤ wrnMtu by decide) (by decide +kernel) 65534
  have hinv := idInv_run ⟨fun _ => 0, fun _ => 0, fun _ => 0⟩
    (nineFrames ++ List.replicate 65534 (.startXmit stampedFrame))
  rw [run_append] at hinv
  have hhead : (run step (start ⟨fun _ => 0, fun _ => 0, fun _ => 0⟩)
    nineFrames).sys.wrn.nextTxHead = 1 := by decide
  have hpending : (run step (start ⟨fun _ => 0, fun _ => 0, fun _ => 0⟩) nineFrames).Pending 0 := by
    change Option.isSome _ = true
    decide
  have hstored₁ : (run step (start ⟨fun _ => 0, fun _ => 0, fun _ => 0⟩)
    nineFrames).storedAt 0 = 9 := by decide
  have hlen₁ : (run step (start ⟨fun _ => 0, fun _ => 0, fun _ => 0⟩)
    nineFrames).drawn.length = 9 := by decide
  generalize run step (start ⟨fun _ => 0, fun _ => 0, fun _ => 0⟩) nineFrames = s₁ at *
  generalize run step s₁ (List.replicate 65534 (.startXmit stampedFrame)) = s₂ at *
  obtain ⟨hskb, hdrawn, hpending₃, hid⟩ := reuse_id hinv (hsame.nextTxHead.trans hhead)
    (by rw [Pending, hsame.skbDesc]; exact hpending) (by rw [hstored, hstored₁])
    (by rw [hlen, hlen₁])
  generalize run step s₂ [.txDone 1, .startXmit stampedFrame] = s₃ at *
  -- a FIFO entry with the id of descriptor 1
  obtain ⟨r1, hr1⟩ := exists_txtsuFid (s₃.sys.wrn.skbDesc 1).frameId
  have hrel := hall 1 _ ⟨0, 0, 0, 0⟩ 0 r1 0 hskb (by omega) hr1
  have hfound : findSkb s₃.sys.wrn (txtsuFid r1) = some 0 :=
    findSkb_eq_some hpending₃ (hid.trans hr1.symm) (fun j hj => absurd hj (Fin.not_lt_zero j))
  rcases recordTstamp_cases ⟨0, 0, 0, 0⟩ s₃.sys.wrn 0 r1 0 with ⟨hnone, -⟩ | ⟨j, skb, hfind, hrel'⟩
  · rw [hfound] at hnone
    exact absurd hnone (Option.some_ne_none 0)
  · obtain rfl : 0 = j := Option.some.inj (hfound.symm.trans hfind)
    have hkept := congrArg WrnDescPending.skb (hrel.skbDesc_of_ne 0 (by decide))
    rw [wrnTstampInterrupt, hrel'.skb_self] at hkept
    rw [Pending, ← hkept] at hpending₃
    exact absurd hpending₃ (by decide)

end IdSystem

end SpecSw.Nic
