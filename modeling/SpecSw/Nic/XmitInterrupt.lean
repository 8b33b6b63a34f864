import SpecSw.Nic.XmitSteps

/-!
# A transmit-complete interrupt in the middle of a transmission

For `wrn_tx_interrupt` a descriptor between the tail and the head is sent when its `READY` bit is
clear. So is that of a descriptor which a call has allocated and is still filling: from the moment
its entry of `skb_desc[]` holds a buffer, its own or one left there, the interrupt passes it, and
frees the buffer if no time stamp is wanted for it.

The descriptor being filled is the last one of the window, so all is well as long as an earlier one
stops the interrupt. `harmless_along_iff` proves that this is the only way.

## Main definitions

* `Nic.Swept`: what a transmit-complete interrupt does.
* `Nic.XmitSystem.Harmless`, `Nic.XmitSystem.Shielded`, `Nic.XmitInv`.

## Main results

* `Nic.wrnTxInterrupt_passes_last_iff`.
* `Nic.XmitSystem.harmless_along_iff`, `Nic.XmitSystem.not_forall_harmless`.
-/

namespace SpecSw.Nic

open CyclicWindow EventRun

/-! ### What an interrupt does -/

/-- What a transmit-complete interrupt does: it passes descriptors that are sent and whose entries
hold buffers, and frees some of these or keeps them with their flags changed. -/
structure Swept (wrn wrn' : WrnDev) : Prop where
  txd : wrn'.txd = wrn.txd
  nextTxHead : wrn'.nextTxHead = wrn.nextTxHead
  tail_le : ringDist wrn.nextTxTail wrn'.nextTxTail ≤ ringDist wrn.nextTxTail wrn.nextTxHead
  skbDesc_of_not_passed : ∀ i, ¬ Between wrn.nextTxTail wrn'.nextTxTail i →
    wrn'.skbDesc i = wrn.skbDesc i
  sent : ∀ i, Between wrn.nextTxTail wrn'.nextTxTail i → (wrn.txd i).ready = false
  held : ∀ i, Between wrn.nextTxTail wrn'.nextTxTail i → (wrn.skbDesc i).skb ≠ none
  kept : ∀ i skb', (wrn'.skbDesc i).skb = some skb' →
    ∃ skb, (wrn.skbDesc i).skb = some skb ∧ skb'.handle = skb.handle
  freed : ∀ h ∈ wrn'.freed, h ∈ wrn.freed ∨
    ∃ i skb, Between wrn.nextTxTail wrn'.nextTxTail i ∧ (wrn.skbDesc i).skb = some skb ∧
      skb.handle = h

theorem Swept.refl (wrn : WrnDev) : Swept wrn wrn where
  txd := rfl
  nextTxHead := rfl
  tail_le := by simp
  skbDesc_of_not_passed _ _ := rfl
  sent i hi := absurd hi (not_between_self _ i)
  held i hi := absurd hi (not_between_self _ i)
  kept _ skb' hskb := ⟨skb', hskb, rfl⟩
  freed _ hh := Or.inl hh

/-- One more round. -/
theorem Swept.round {wrn w w' : WrnDev} {skb : SkBuff} (h : Swept wrn w) (hrec : Reclaimable w skb)
    (hround : Reclaimed w.nextTxTail skb w w') : Swept wrn w' := by
  have hne : w.nextTxTail ≠ wrn.nextTxHead := h.nextTxHead ▸ hrec.ne_head
  have htail : Between wrn.nextTxTail wrn.nextTxHead w.nextTxTail :=
    lt_of_le_of_ne h.tail_le (mt ringDist_right_inj.mp hne)
  have hpassed (i : Desc) : Between wrn.nextTxTail w'.nextTxTail i ↔
      Between wrn.nextTxTail w.nextTxTail i ∨ i = w.nextTxTail := by
    rw [hround.nextTxTail, wrnNextDesc, between_succ_head (succ_ne_of_between htail)]
  have hentry : (wrn.skbDesc w.nextTxTail).skb = some skb := by
    rw [← h.skbDesc_of_not_passed _ (not_between_head _ _), hrec.held]
  refine ⟨hround.txd.trans h.txd, hround.nextTxHead.trans h.nextTxHead, ?_, ?_, ?_, ?_, ?_, ?_⟩
  · rw [hround.nextTxTail, wrnNextDesc]
    exact ringDist_succ_head_le h.tail_le hne
  · intro i hi
    obtain ⟨hi, hit⟩ := not_or.mp (mt (hpassed i).mpr hi)
    rw [hround.skbDesc_of_ne i hit, h.skbDesc_of_not_passed i hi]
  · intro i hi
    rcases (hpassed i).mp hi with hi | rfl
    · exact h.sent i hi
    · rw [← h.txd]
      exact hrec.sent
  · intro i hi
    rcases (hpassed i).mp hi with hi | rfl
    · exact h.held i hi
    · simp [hentry]
  · intro i skb' hskb'
    obtain ⟨skb₁, hskb₁, hhandle₁⟩ := hround.kept hskb'
    obtain ⟨skb₀, hskb₀, hhandle₀⟩ := h.kept i skb₁ hskb₁
    exact ⟨skb₀, hskb₀, hhandle₁.trans hhandle₀⟩
  · intro handle hh
    rcases hround.freed hh with rfl | hh
    · exact Or.inr ⟨_, skb, (hpassed _).mpr (Or.inr rfl), hentry, rfl⟩
    · rcases h.freed handle hh with hh | ⟨i, skb, hi, hskb, heq⟩
      · exact Or.inl hh
      · exact Or.inr ⟨i, skb, (hpassed i).mpr (Or.inl hi), hskb, heq⟩

theorem wrnTxInterrupt_swept (r : Desc → PpsgReads) (wrn : WrnDev) :
    Swept wrn (wrnTxInterrupt r wrn) :=
  wrnTxInterruptLoop_induction r (fun _ _ _ h => h.round) _ wrn (Swept.refl wrn)

/-- Some descriptor of the window stops the interrupt, or the window is empty. -/
def Blocked (wrn : WrnDev) : Prop :=
  wrn.nextTxTail = wrn.nextTxHead ∨
    ∃ i, Between wrn.nextTxTail wrn.nextTxHead i ∧
      ((wrn.txd i).ready = true ∨ (wrn.skbDesc i).skb = none)

/-- The interrupt passes the last descriptor before the head exactly when nothing in the window
stops it. -/
theorem wrnTxInterrupt_passes_last_iff (r : Desc → PpsgReads) {wrn : WrnDev} {i : Desc}
    (hi : i + 1 = wrn.nextTxHead) :
    Between wrn.nextTxTail (wrnTxInterrupt r wrn).nextTxTail i ↔ ¬ Blocked wrn := by
  have hswept := wrnTxInterrupt_swept r wrn
  have hlen : wrn.nextTxTail ≠ wrn.nextTxHead →
      ringDist wrn.nextTxTail wrn.nextTxHead = ringDist wrn.nextTxTail i + 1 := by
    rw [← hi]
    exact fun hne => ringDist_succ_head hne.symm
  constructor
  · rintro hpass (hempty | ⟨j, hj, hstop⟩)
    · have hle := hswept.tail_le
      rw [ringDist_eq_zero_iff.mpr hempty] at hle
      exact absurd (lt_of_lt_of_le hpass hle) (Nat.not_lt_zero _)
    · have hnot : ¬ Between wrn.nextTxTail (wrnTxInterrupt r wrn).nextTxTail j := by
        intro hjpass
        rcases hstop with hready | hnone
        · exact absurd (hswept.sent j hjpass) (by simp [hready])
        · exact hswept.held j hjpass hnone
      have hlen := hlen (ne_of_between hj)
      simp only [Between] at hpass hj hnot
      omega
  · intro hfree
    obtain ⟨hne, hall⟩ := not_or.mp hfree
    have hhead : (wrnTxInterrupt r wrn).nextTxTail = wrn.nextTxHead := by
      by_contra hstop
      have htail : Between wrn.nextTxTail wrn.nextTxHead (wrnTxInterrupt r wrn).nextTxTail :=
        lt_of_le_of_ne hswept.tail_le (mt ringDist_right_inj.mp hstop)
      refine hall ⟨_, htail, ?_⟩
      rcases wrnTxInterrupt_stops r wrn with hhead | hready | hnone
      · exact absurd (hhead.trans hswept.nextTxHead) hstop
      · exact Or.inl (hswept.txd ▸ hready)
      · rw [hswept.skbDesc_of_not_passed _ (not_between_head _ _)] at hnone
        exact Or.inr hnone
    rw [hhead, Between, hlen hne]
    exact Nat.lt_succ_self _

/-! ### The property and the condition -/

/-- The buffer of the call is in its entry, and the hardware does not have the descriptor yet. -/
def XmitPc.saved : XmitPc → Bool
  | drawId => false
  | saveSkb => false
  | saveFrameId => true
  | copyOut => true
  | writeTx3 => true
  | writeTx2 => true
  | writeTx1 => true
  | account => false

/-- The descriptor that a call is filling: it has allocated it and has not written `READY` yet. -/
def XmitCall.filling : XmitCall → Option Desc
  | idle => none
  | refused => none
  | sending f => if f.pc = .account then none else some f.desc

/-- That descriptor, with the buffer of the call once it is in the entry. -/
def XmitCall.saved : XmitCall → Option (Desc × SkBuff)
  | idle => none
  | refused => none
  | sending f => if f.pc.saved then some (f.desc, f.skb) else none

namespace XmitSystem

/-- After the step, all buffers that have been freed had been given to the hardware and completed,
and the step does not move the tail past a descriptor that is being filled. -/
structure Harmless (s : XmitSystem) (e : XmitEvent) : Prop where
  freed : ∀ h ∈ (s.step e).wrn.freed, h ∈ (s.step e).given ∧ h ∈ (s.step e).completed
  not_passed : ∀ i, s.call.filling = some i →
    ¬ Between s.wrn.nextTxTail (s.step e).wrn.nextTxTail i

/-- A transmit-complete interrupt comes while no descriptor is being filled, or something in the
window stops it. -/
def Shielded (s : XmitSystem) : XmitEvent → Prop
  | .txInterrupt _ => s.call.filling ≠ none → Blocked s.wrn
  | _ => True

end XmitSystem

/-! ### The invariant -/

/-- What holds between the steps of calls that are not disturbed. -/
structure XmitInv (s : XmitSystem) : Prop where
  /-- the descriptor being filled is the last before the head, and the hardware does not have it -/
  filling : ∀ i, s.call.filling = some i → i + 1 = s.wrn.nextTxHead ∧ (s.wrn.txd i).ready = false
  /-- the buffer of the call is in its entry once it has been saved -/
  saved : ∀ i skb, s.call.saved = some (i, skb) → (s.wrn.skbDesc i).skb = some skb
  /-- the buffer of a descriptor that the hardware has is that of its frame -/
  loaded : ∀ i skb, (s.wrn.skbDesc i).skb = some skb → (s.wrn.txd i).ready = true →
    s.loaded i = some skb.handle
  /-- the frames of the other buffers are completed, but for that of the call -/
  completed : ∀ i skb, (s.wrn.skbDesc i).skb = some skb → (s.wrn.txd i).ready = false →
    s.call.saved = some (i, skb) ∨ skb.handle ∈ s.completed
  loaded_given : ∀ i handle, s.loaded i = some handle → handle ∈ s.given
  completed_given : ∀ handle ∈ s.completed, handle ∈ s.given
  freed_completed : ∀ handle ∈ s.wrn.freed, handle ∈ s.completed

theorem XmitCall.filling_of_saved {call : XmitCall} {i : Desc} {skb : SkBuff}
    (h : call.saved = some (i, skb)) : call.filling = some i := by
  cases call with
  | idle => exact absurd h (by simp [saved])
  | refused => exact absurd h (by simp [saved])
  | sending f =>
    obtain ⟨desc, id, skb', pc⟩ := f
    cases pc <;> simp_all [saved, filling, XmitPc.saved]

theorem Transmission.tx1_ready (f : Transmission) (tx : WrnTxd) :
    WrnTxd.ready { tx with tx1 := f.tx1 } = true := by
  rw [WrnTxd.ready, bne_iff_ne]
  intro h
  have hbit := congrArg (fun x => x.getLsbD 0) h
  simp [tx1, nicTx1Ready] at hbit

namespace XmitInv

variable {s : XmitSystem}

theorem start (hw : PowerOn) : XmitInv (.start hw) where
  filling i h := absurd h (by simp [XmitSystem.start, XmitCall.filling])
  saved i skb h := absurd h (by simp [XmitSystem.start, XmitCall.saved])
  loaded i skb h := absurd h (by simp [XmitSystem.start, wrnProbe, WrnDescPending.zero])
  completed i skb h := absurd h (by simp [XmitSystem.start, wrnProbe, WrnDescPending.zero])
  loaded_given i handle h := absurd h (by simp [XmitSystem.start])
  completed_given handle h := absurd h (by simp [XmitSystem.start])
  freed_completed handle h := absurd h (by simp [XmitSystem.start, wrnProbe])

/-- Steps that touch neither a buffer nor a `READY` bit keep the invariant. -/
theorem quiet (h : XmitInv s) {wrn : WrnDev} {call : XmitCall} (calls : ℕ)
    (hskb : ∀ i, (wrn.skbDesc i).skb = (s.wrn.skbDesc i).skb)
    (hready : ∀ i, (wrn.txd i).ready = (s.wrn.txd i).ready) (hfreed : wrn.freed = s.wrn.freed)
    (hsaved : call.saved = s.call.saved)
    (hfilling : ∀ i, call.filling = some i → i + 1 = wrn.nextTxHead ∧ (s.wrn.txd i).ready = false) :
    XmitInv { s with wrn := wrn, call := call, calls := calls } where
  filling i hi := ⟨(hfilling i hi).1, (hready i).trans (hfilling i hi).2⟩
  saved i skb hi := (hskb i).trans (h.saved i skb (hsaved ▸ hi))
  loaded i skb hi hr := h.loaded i skb ((hskb i).symm.trans hi) ((hready i).symm.trans hr)
  completed i skb hi hr := by
    rw [hsaved]
    exact h.completed i skb ((hskb i).symm.trans hi) ((hready i).symm.trans hr)
  loaded_given := h.loaded_given
  completed_given := h.completed_given
  freed_completed handle hh := h.freed_completed handle (hfreed ▸ hh)

/-- The beginning of a call. -/
theorem begin (h : XmitInv s) (hidle : s.call = .idle) (frame : Frame) :
    XmitInv (s.begin frame) := by
  have hnone : s.call.filling = none := by rw [hidle]; rfl
  have hsaved : s.call.saved = none := by rw [hidle]; rfl
  rw [XmitSystem.begin]
  dsimp only
  split_ifs
  · exact h.quiet _ (fun _ => rfl) (fun _ => rfl) rfl rfl h.filling
  · cases hready : (s.wrn.txd s.wrn.nextTxHead).ready with
    | true =>
      simp only [wrnAllocTxDesc, hready, if_true]
      exact h.quiet _ (fun _ => rfl) (fun _ => rfl) rfl hsaved.symm fun i hi =>
        absurd hi (by simp [XmitCall.filling])
    | false =>
      simp only [wrnAllocTxDesc, hready, Bool.false_eq_true, if_false]
      refine h.quiet _ (fun _ => rfl) (fun _ => rfl) rfl hsaved.symm fun i hi => ?_
      obtain rfl := Option.some.inj hi
      exact ⟨rfl, hready⟩

/-- The buffer of the call is saved, over a buffer whose frame is completed. -/
theorem saveSkb (h : XmitInv s) {f : Transmission} (hcall : s.call = .sending f)
    (hpc : f.pc = .saveSkb) :
    XmitInv { s with
      wrn := s.wrn.setDesc f.desc { s.wrn.skbDesc f.desc with skb := some f.skb }
      call := .sending { f with pc := .saveFrameId } } := by
  have hfilling : s.call.filling = some f.desc := by simp [hcall, XmitCall.filling, hpc]
  have hsaved : s.call.saved = none := by simp [hcall, XmitCall.saved, hpc, XmitPc.saved]
  obtain ⟨hhead, hready⟩ := h.filling _ hfilling
  have hentry (i : Desc) (hi : i ≠ f.desc) :
      (s.wrn.setDesc f.desc { s.wrn.skbDesc f.desc with skb := some f.skb }).skbDesc i =
        s.wrn.skbDesc i := s.wrn.setDesc_skbDesc_of_ne hi _
  refine ⟨?_, ?_, ?_, ?_, h.loaded_given, h.completed_given, h.freed_completed⟩
  · intro i hi
    obtain rfl := Option.some.inj hi
    exact ⟨hhead, hready⟩
  · intro i skb hi
    obtain ⟨rfl, rfl⟩ := Prod.mk.inj (Option.some.inj hi)
    simp
  · intro i skb hi hr
    have hne : i ≠ f.desc := by
      rintro rfl
      exact absurd hr (by simp [WrnDev.setDesc, hready])
    rw [hentry i hne] at hi
    exact h.loaded i skb hi hr
  · intro i skb hi hr
    by_cases hne : i = f.desc
    · subst hne
      have hskb : f.skb = skb := by simpa using hi
      exact Or.inl (by simp [XmitCall.saved, XmitPc.saved, hskb])
    · rw [hentry i hne] at hi
      rcases h.completed i skb hi hr with hcase | hcase
      · exact absurd (hsaved.symm.trans hcase) (by simp)
      · exact Or.inr hcase

/-- The descriptor is given to the hardware. -/
theorem writeTx1 (h : XmitInv s) {f : Transmission} (hcall : s.call = .sending f)
    (hpc : f.pc = .writeTx1) :
    XmitInv { s with
      wrn := s.wrn.setTxd f.desc { s.wrn.txd f.desc with tx1 := f.tx1 }
      call := .sending { f with pc := .account }
      loaded := Function.update s.loaded f.desc (some f.skb.handle)
      given := f.skb.handle :: s.given } := by
  have hsaved : s.call.saved = some (f.desc, f.skb) := by
    simp [hcall, XmitCall.saved, hpc, XmitPc.saved]
  have hskb := h.saved _ _ hsaved
  have htxd (i : Desc) (hi : i ≠ f.desc) :
      (s.wrn.setTxd f.desc { s.wrn.txd f.desc with tx1 := f.tx1 }).txd i = s.wrn.txd i :=
    s.wrn.setTxd_txd_of_ne hi _
  have hready : ((s.wrn.setTxd f.desc { s.wrn.txd f.desc with tx1 := f.tx1 }).txd f.desc).ready =
      true := by
    rw [WrnDev.setTxd_txd_self]
    exact f.tx1_ready _
  refine ⟨fun i hi => absurd hi (by simp [XmitCall.filling]),
    fun i skb hi => absurd hi (by simp [XmitCall.saved, XmitPc.saved]), ?_, ?_, ?_, ?_,
    h.freed_completed⟩
  · intro i skb hi hr
    by_cases hne : i = f.desc
    · subst hne
      obtain rfl := Option.some.inj (hskb.symm.trans hi)
      exact Function.update_self _ _ _
    · rw [htxd i hne] at hr
      exact (Function.update_of_ne hne _ _).trans (h.loaded i skb hi hr)
  · intro i skb hi hr
    have hne : i ≠ f.desc := by
      rintro rfl
      exact absurd (hready.symm.trans hr) (by decide)
    rw [htxd i hne] at hr
    rcases h.completed i skb hi hr with hcase | hcase
    · rw [hsaved] at hcase
      exact absurd (Prod.mk.inj (Option.some.inj hcase)).1.symm hne
    · exact Or.inr hcase
  · intro i handle hi
    by_cases hne : i = f.desc
    · subst hne
      have hhandle : f.skb.handle = handle := by simpa using hi
      exact hhandle ▸ List.mem_cons_self
    · have hold : s.loaded i = some handle := by simpa [Function.update_of_ne hne] using hi
      exact List.mem_cons_of_mem _ (h.loaded_given i handle hold)
  · exact fun handle hh => List.mem_cons_of_mem _ (h.completed_given handle hh)

/-- The registers without `READY` of the descriptor being filled do not matter. -/
theorem ready_setTxd {wrn : WrnDev} {i : Desc} {tx : WrnTxd} (htx : tx.tx1 = (wrn.txd i).tx1)
    (j : Desc) : ((wrn.setTxd i tx).txd j).ready = (wrn.txd j).ready := by
  by_cases hji : j = i
  · subst hji
    rw [WrnDev.setTxd_txd_self, WrnTxd.ready, WrnTxd.ready, htx]
  · rw [wrn.setTxd_txd_of_ne hji]

/-- The steps of a call. -/
theorem send (h : XmitInv s) {f : Transmission} (hcall : s.call = .sending f) :
    XmitInv (s.send f) := by
  obtain ⟨desc, id, skb, pc⟩ := f
  have hfilling : pc ≠ .account → s.call.filling = some desc := fun hpc => by
    rw [hcall, XmitCall.filling, if_neg hpc]
  have hkept (hpc : pc ≠ .account) (i : Desc) (hi : some desc = some i) :
      i + 1 = s.wrn.nextTxHead ∧ (s.wrn.txd i).ready = false :=
    h.filling i ((hfilling hpc).trans hi)
  have hsaved : s.call.saved = if pc.saved then some (desc, skb) else none := by
    rw [hcall, XmitCall.saved]
  cases pc with
  | drawId =>
    have hid := wrnDrawId_sameTx s.wrn
    have hsend : s.send ⟨desc, id, skb, .drawId⟩ = { s with
        wrn := (wrnDrawId s.wrn).2
        call := .sending ⟨desc, (wrnDrawId s.wrn).1, skb, .saveSkb⟩ } := rfl
    rw [hsend]
    refine h.quiet _ (fun i => by rw [hid.skbDesc]) (fun i => by rw [hid.txd]) hid.freed hsaved.symm
      fun i hi => ?_
    rw [hid.nextTxHead]
    exact hkept (by decide) i hi
  | saveSkb => exact h.saveSkb hcall rfl
  | saveFrameId =>
    refine h.quiet _ (fun i => ?_) (fun _ => rfl) rfl hsaved.symm (hkept (by decide))
    by_cases hi : i = desc
    · subst hi
      simp
    · rw [s.wrn.setDesc_skbDesc_of_ne hi]
  | copyOut => exact h.quiet _ (fun _ => rfl) (fun _ => rfl) rfl hsaved.symm (hkept (by decide))
  | writeTx3 =>
    exact h.quiet _ (fun _ => rfl) (ready_setTxd rfl) rfl hsaved.symm (hkept (by decide))
  | writeTx2 =>
    exact h.quiet _ (fun _ => rfl) (ready_setTxd rfl) rfl hsaved.symm (hkept (by decide))
  | writeTx1 => exact h.writeTx1 hcall rfl
  | account =>
    exact h.quiet _ (fun _ => rfl) (fun _ => rfl) rfl hsaved.symm fun i hi =>
      absurd hi (by simp [XmitCall.filling])

/-- The hardware completes the frame of a descriptor it has. -/
theorem txDone (h : XmitInv s) (i : Desc) : XmitInv (s.step (.txDone i)) := by
  have hmono : ∀ handle ∈ s.completed, handle ∈ (s.step (.txDone i)).completed := by
    intro handle hh
    simp only [XmitSystem.step]
    split_ifs
    · exact List.mem_append_right _ hh
    · exact hh
  have hready (j : Desc) (hj : j ≠ i) : ((s.step (.txDone i)).wrn.txd j) = s.wrn.txd j :=
    hwTxDone_txd_of_ne hj s.wrn
  have hself : ((s.step (.txDone i)).wrn.txd i).ready = false := hwTxDone_ready_self i s.wrn
  refine ⟨?_, h.saved, ?_, ?_, h.loaded_given, ?_,
    fun handle hh => hmono _ (h.freed_completed _ hh)⟩
  · intro j hj
    obtain ⟨hhead, hclear⟩ := h.filling j hj
    refine ⟨hhead, ?_⟩
    by_cases hji : j = i
    · rw [hji, hself]
    · rw [hready j hji, hclear]
  · intro j skb hj hr
    have hji : j ≠ i := by
      rintro rfl
      exact absurd hr (by simp [hself])
    rw [hready j hji] at hr
    exact h.loaded j skb hj hr
  · intro j skb hj hr
    by_cases hset : (s.wrn.txd j).ready = true
    · have hji : j = i := by
        by_contra hji
        rw [hready j hji, hset] at hr
        exact absurd hr (by decide)
      subst hji
      refine Or.inr ?_
      simp only [XmitSystem.step, hset, if_true, h.loaded j skb hj hset]
      exact List.mem_cons_self
    · exact (h.completed j skb hj (by simpa using hset)).imp id (hmono _)
  · intro handle hh
    simp only [XmitSystem.step] at hh
    split_ifs at hh
    · rcases List.mem_append.mp hh with hh | hh
      · exact h.loaded_given i handle (Option.mem_toList.mp hh)
      · exact h.completed_given handle hh
    · exact h.completed_given handle hh

/-- The interrupt passes the descriptor being filled exactly when nothing stops it. -/
theorem passes_iff (h : XmitInv s) (r : Desc → PpsgReads) {i : Desc}
    (hi : s.call.filling = some i) :
    Between s.wrn.nextTxTail (wrnTxInterrupt r s.wrn).nextTxTail i ↔ ¬ Blocked s.wrn :=
  wrnTxInterrupt_passes_last_iff r (h.filling i hi).1

/-- An interrupt that passes no descriptor being filled. -/
theorem txInterrupt (h : XmitInv s) {r : Desc → PpsgReads} (hok : s.Shielded (.txInterrupt r)) :
    XmitInv (s.step (.txInterrupt r)) := by
  have hswept := wrnTxInterrupt_swept r s.wrn
  have hnot (i : Desc) (hi : s.call.filling = some i) :
      ¬ Between s.wrn.nextTxTail (wrnTxInterrupt r s.wrn).nextTxTail i := fun hpass =>
    (h.passes_iff r hi).mp hpass (hok (by simp [hi]))
  refine ⟨?_, ?_, ?_, ?_, h.loaded_given, h.completed_given, ?_⟩
  · intro i hi
    change i + 1 = (wrnTxInterrupt r s.wrn).nextTxHead ∧
      ((wrnTxInterrupt r s.wrn).txd i).ready = false
    rw [hswept.nextTxHead, hswept.txd]
    exact h.filling i hi
  · intro i skb hi
    have hkept := hswept.skbDesc_of_not_passed i (hnot i (XmitCall.filling_of_saved hi))
    exact (congrArg WrnDescPending.skb hkept).trans (h.saved i skb hi)
  · intro i skb' hi hr
    obtain ⟨skb, hskb, hhandle⟩ := hswept.kept i skb' hi
    rw [hhandle]
    exact h.loaded i skb hskb (hswept.txd ▸ hr)
  · intro i skb' hi hr
    obtain ⟨skb, hskb, hhandle⟩ := hswept.kept i skb' hi
    rcases h.completed i skb hskb (hswept.txd ▸ hr) with hcase | hcase
    · have hkept := hswept.skbDesc_of_not_passed i (hnot i (XmitCall.filling_of_saved hcase))
      have hsame : some skb' = some skb :=
        hi.symm.trans ((congrArg WrnDescPending.skb hkept).trans hskb)
      obtain rfl := Option.some.inj hsame
      exact Or.inl hcase
    · exact Or.inr (hhandle ▸ hcase)
  · intro handle hh
    rcases hswept.freed handle hh with hh | ⟨i, skb, hpass, hskb, rfl⟩
    · exact h.freed_completed handle hh
    · rcases h.completed i skb hskb (hswept.sent i hpass) with hcase | hcase
      · exact absurd hpass (hnot i (XmitCall.filling_of_saved hcase))
      · exact hcase

/-- A shielded step keeps the invariant. -/
theorem step (h : XmitInv s) {e : XmitEvent} (hok : s.Shielded e) : XmitInv (s.step e) := by
  cases e with
  | startXmit frame =>
    cases hcall : s.call with
    | idle =>
      simp only [XmitSystem.step, hcall]
      exact h.begin hcall frame
    | refused =>
      simp only [XmitSystem.step, hcall]
      exact h
    | sending f =>
      simp only [XmitSystem.step, hcall]
      exact h
  | next =>
    cases hcall : s.call with
    | idle =>
      simp only [XmitSystem.step, hcall]
      exact h
    | refused =>
      have hid := wrnDrawId_sameTx s.wrn
      simp only [XmitSystem.step, hcall]
      exact h.quiet _ (fun i => by rw [hid.skbDesc]) (fun i => by rw [hid.txd]) hid.freed
        (by rw [hcall]; rfl) fun i hi => absurd hi (by simp [XmitCall.filling])
    | sending f =>
      simp only [XmitSystem.step, hcall]
      exact h.send hcall
  | txDone i => exact h.txDone i
  | txInterrupt r => exact h.txInterrupt hok

end XmitInv

/-! ### The main result -/

namespace XmitSystem

/-- Only an interrupt moves the tail. -/
theorem nextTxTail_step (s : XmitSystem) {e : XmitEvent} (he : ∀ r, e ≠ .txInterrupt r) :
    (s.step e).wrn.nextTxTail = s.wrn.nextTxTail := by
  obtain ⟨wrn, call, calls, loaded, given, completed⟩ := s
  have hid := (wrnDrawId_sameTx wrn).nextTxTail
  cases e with
  | startXmit frame =>
    cases call with
    | idle =>
      simp only [step, begin, wrnAllocTxDesc]
      split_ifs <;> rfl
    | refused => rfl
    | sending f => rfl
  | next =>
    cases call with
    | idle => rfl
    | refused => exact hid
    | sending f =>
      obtain ⟨desc, id, skb, pc⟩ := f
      cases pc with
      | drawId => exact hid
      | _ => rfl
  | txDone i => rfl
  | txInterrupt r => exact absurd rfl (he r)

theorem harmless_iff {s : XmitSystem} (h : XmitInv s) (e : XmitEvent) :
    s.Harmless e ↔ s.Shielded e := by
  constructor
  · intro hharmless
    cases e with
    | txInterrupt r =>
      intro hfilling
      obtain ⟨i, hi⟩ := Option.ne_none_iff_exists'.mp hfilling
      exact not_not.mp (mt (h.passes_iff r hi).mpr (hharmless.not_passed i hi))
    | _ => trivial
  · intro hok
    have hnext := h.step hok
    refine ⟨fun handle hh => ?_, fun i hi => ?_⟩
    · have hc := hnext.freed_completed handle hh
      exact ⟨hnext.completed_given handle hc, hc⟩
    · by_cases he : ∃ r, e = .txInterrupt r
      · obtain ⟨r, rfl⟩ := he
        exact fun hpass => (h.passes_iff r hi).mp hpass (hok (by simp [hi]))
      · rw [s.nextTxTail_step (not_exists.mp he)]
        exact not_between_self _ i

/-- **Interrupts in the middle of a transmission.** Every step of a run is harmless exactly when
every transmit-complete interrupt that comes while a descriptor is being filled finds an empty
window, or a descriptor in it that stops it. -/
theorem harmless_along_iff (hw : PowerOn) (es : List XmitEvent) :
    Along step Harmless (start hw) es ↔ Along step Shielded (start hw) es :=
  along_iff_along (XmitInv.start hw) (fun _ _ h hok => h.step hok)
    (fun _ e h => harmless_iff h e) es

/-- An interrupt after the first buffer has been saved: it is freed before its descriptor is given
to the hardware. -/
theorem not_forall_harmless : ¬ ∀ (hw : PowerOn) (es : List XmitEvent),
    Along step Harmless (start hw) es := by
  intro hall
  obtain ⟨-, -, -, hbad, -⟩ := hall ⟨fun _ => 0, fun _ => 0, fun _ => 0⟩
    [.startXmit ⟨60, fun _ => 0, 0⟩, .next, .next, .txInterrupt fun _ => ⟨0, 0, 0, 0⟩]
  exact absurd (hbad.freed 0 (by decide)).1 (by decide)

end XmitSystem

end SpecSw.Nic
