import SpecSw.Nic.IrqSettle

/-!
# Transmissions that end during the handler

`wrn_interrupt` works through the transmitted descriptors and then clears the bit of transmitted
frames. A transmission that ends in between sets that bit again, and the handler clears it: the
driver hears of the frame only when another one has been sent, and keeps its buffer until then.

A frame is *sent* when `wrn_tx_interrupt` would take it. A sent frame is heard of in all states of a
run exactly when the bit is never cleared while there is one
(`txHeard_throughout_iff`), and a frame that is forgotten so stays forgotten until something is sent
again.

## Main definitions

* `Nic.NicIrq.Sent`, `Nic.NicIrq.TxHeard`, `Nic.NotBlind`, `Nic.SendsNothing`.

## Main results

* `Nic.TxAwake.step`, `Nic.not_txHeard_step`, `Nic.txHeard_throughout_iff`.
-/

namespace SpecSw.Nic

open EventRun

/-! ### Sent frames -/

/-- The frame at the tail has been sent and its buffer is there: `wrn_tx_interrupt` takes it. -/
def NicIrq.Sent (s : NicIrq) : Prop := ∃ skb, Reclaimable s.sys.nic.toWrnDev skb

/-- The driver knows of a sent frame: the bit is set, or the handler will look. -/
def NicIrq.TxHeard (s : NicIrq) : Prop :=
  s.Sent → regBit s.isr 1 = true ∨ ∃ r, .txInterrupt r ∈ s.hard

/-- The bit is not cleared while there is a sent frame. -/
def NotBlind (s : NicIrq) : NicIrqEvent → Prop
  | .access => ∀ mask rest, s.hard = .ackIsr mask :: rest → regBit mask 1 = true → ¬ s.Sent
  | _ => True

/-- A call does not make a frame sent. -/
theorem reclaimable_of_wrnStartXmit {skb skb' : SkBuff} {wrn : WrnDev}
    (h : Reclaimable (wrnStartXmit skb wrn).2 skb') : Reclaimable wrn skb' := by
  obtain ⟨hne, hsent, hheld⟩ := h
  rcases wrnStartXmit_cases skb wrn with ⟨hacc, -, hnew⟩ | ⟨-, -, hsame⟩
  · rw [hnew.nextTxTail] at hne hsent hheld
    have htail : wrn.nextTxTail ≠ wrn.nextTxHead := by
      intro heq
      rw [heq, (wrnStartXmit_armed skb hacc).ready] at hsent
      exact absurd hsent (by decide)
    rw [hnew.txd_of_ne _ htail] at hsent
    rw [hnew.skbDesc_of_ne _ htail] at hheld
    exact ⟨htail, hsent, hheld⟩
  · rw [hsame.nextTxTail, hsame.nextTxHead] at hne
    rw [hsame.nextTxTail, hsame.txd] at hsent
    rw [hsame.nextTxTail, hsame.skbDesc] at hheld
    exact ⟨hne, hsent, hheld⟩

/-- Nor does a time stamp. -/
theorem reclaimable_of_recordTstamp {r : PpsgReads} {tsval idreg r2 : BitVec 32} {skb : SkBuff}
    {wrn : WrnDev} (h : Reclaimable (recordTstamp r wrn tsval idreg r2) skb) :
    Reclaimable wrn skb := by
  rcases recordTstamp_cases r wrn tsval idreg r2 with ⟨-, hsame⟩ | ⟨i, skb', -, hrel⟩
  · rwa [hsame] at h
  · obtain ⟨hne, hsent, hheld⟩ := h
    rw [hrel.nextTxTail] at hne hsent hheld
    have hi : wrn.nextTxTail ≠ i := by
      rintro rfl
      exact absurd (hheld.symm.trans hrel.skb_self) (by simp)
    rw [hrel.nextTxHead] at hne
    rw [hrel.txd] at hsent
    rw [hrel.skbDesc_of_ne _ hi] at hheld
    exact ⟨hne, hsent, hheld⟩

/-- `wrn_tx_interrupt` leaves no sent frame. -/
theorem not_reclaimable_wrnTxInterrupt (r : Desc → PpsgReads) (wrn : WrnDev) (skb : SkBuff) :
    ¬ Reclaimable (wrnTxInterrupt r wrn) skb :=
  wrnTxInterruptLoop_stops r wrnNrDesc wrn (CyclicWindow.ringDist_lt _ _).le skb

/-- The receive side leaves the transmit side alone. -/
theorem reclaimable_of_receive {s : NicSystem} {frame : RxFrame} {skb : SkBuff}
    (h : Reclaimable (s.step (.receive frame)).nic.toWrnDev skb) :
    Reclaimable s.nic.toWrnDev skb := by
  simp only [NicSystem.step] at h
  split_ifs at h
  · exact ⟨h.ne_head, h.sent, h.held⟩
  · exact h

theorem toWrnDev_rxRound (s : NicSystem) (r : PpsgReads) (fresh : ℤ → Byte) :
    (s.step (.rxRound r fresh)).nic.toWrnDev = s.nic.toWrnDev := by
  simp only [NicSystem.step, wrnRxRound]
  split_ifs
  · rfl
  · exact toWrnDev_wrnRxDescriptor r fresh s.nic _

/-! ### The order in the handler -/

/-- The bit of transmitted frames is cleared only after the last look at the descriptors. -/
def LooksFirst : List NicAccess → Prop
  | [] => True
  | .ackIsr mask :: rest =>
    (regBit mask 1 = true → ∀ r, .txInterrupt r ∉ rest) ∧ LooksFirst rest
  | .idr _ :: rest => LooksFirst rest
  | .txInterrupt _ :: rest => LooksFirst rest
  | .schedule :: rest => LooksFirst rest

theorem looksFirst_wrnInterrupt (r : Desc → PpsgReads) (irqs : BitVec 32) :
    LooksFirst (wrnInterrupt r irqs) := by
  simp only [wrnInterrupt]
  split_ifs <;> simp [LooksFirst]

/-! ### When the driver hears of all sent frames -/

/-- What the steps that clear no bit blindly keep. -/
structure TxAwake (s : NicIrq) : Prop where
  heard : s.TxHeard
  order : LooksFirst s.hard

namespace TxAwake

variable {s : NicIrq}

theorem start (hw : PowerOn) (rx2 : Desc → BitVec 32) (isr : BitVec 32) :
    TxAwake (.start hw rx2 isr) :=
  ⟨fun hsent => absurd rfl hsent.choose_spec.ne_head, trivial⟩

/-- An event that makes no frame sent and clears no bit. -/
theorem of_sent (h : TxAwake s) {sys : NicSystem} {isr imr : BitVec 32} {scheduled : Bool}
    {tasklet : RxStage} (hsent : ∀ skb, Reclaimable sys.nic.toWrnDev skb →
      Reclaimable s.sys.nic.toWrnDev skb)
    (hisr : regBit s.isr 1 = true → regBit isr 1 = true) :
    TxAwake ⟨sys, isr, imr, s.hard, scheduled, tasklet⟩ :=
  ⟨fun hs => (h.heard (hs.imp hsent)).imp hisr id, h.order⟩

/-- The next access of the handler. -/
theorem access (h : TxAwake s) {a : NicAccess} {rest : List NicAccess} (hhard : s.hard = a :: rest)
    (hok : NotBlind s .access) : TxAwake { s.exec a with hard := rest } := by
  have hheard := h.heard
  have horder := hhard ▸ h.order
  simp only [NicIrq.TxHeard, hhard, List.mem_cons] at hheard
  cases a with
  | ackIsr mask =>
    refine ⟨fun hsent => ?_, horder.2⟩
    have hmask : regBit mask 1 = false := by
      by_contra hbit
      exact hok mask rest hhard (by simpa using hbit) hsent
    refine (hheard hsent).imp (fun hisr => ?_) fun hlook => by simpa using hlook
    simp [NicIrq.exec, hisr, hmask]
  | idr mask =>
    exact ⟨fun hsent => (hheard hsent).imp id fun hlook => by simpa using hlook, horder⟩
  | txInterrupt r =>
    refine ⟨fun hsent => ?_, horder⟩
    obtain ⟨skb, hskb⟩ := hsent
    exact absurd hskb (not_reclaimable_wrnTxInterrupt r s.sys.nic.toWrnDev skb)
  | schedule =>
    exact ⟨fun hsent => (hheard hsent).imp id fun hlook => by simpa using hlook, horder⟩

theorem step (h : TxAwake s) {e : NicIrqEvent} (hok : NotBlind s e) : TxAwake (s.step e) := by
  cases e with
  | startXmit skb => exact h.of_sent (fun _ => reclaimable_of_wrnStartXmit) id
  | tstampInterrupt r r0 r1 r2 => exact h.of_sent (fun _ => reclaimable_of_recordTstamp) id
  | transmit =>
    by_cases hready : (s.sys.nic.txd s.sys.txPtr).ready = true
    · exact ⟨fun _ => .inl (by simp [NicIrq.step, hready]), h.order⟩
    · have hsame : s.sys.step .transmit = s.sys := if_neg hready
      refine h.of_sent (fun skb hskb => ?_) fun hisr => ?_
      · rwa [hsame] at hskb
      · rwa [if_neg hready]
  | receive frame =>
    refine h.of_sent (fun _ => reclaimable_of_receive) fun hisr => ?_
    split_ifs
    · simp [hisr]
    · exact hisr
  | raise mask => exact h.of_sent (fun _ => id) fun hisr => by simp [hisr]
  | enter r =>
    cases hhard : s.hard with
    | nil =>
      simp only [NicIrq.step, hhard]
      refine ⟨fun hsent => ?_, looksFirst_wrnInterrupt r s.isr⟩
      have hisr : regBit s.isr 1 = true := by
        refine (h.heard hsent).resolve_right ?_
        rintro ⟨r', hr'⟩
        rw [hhard] at hr'
        exact List.not_mem_nil hr'
      exact .inl hisr
    | cons a rest =>
      simp only [NicIrq.step, hhard]
      exact h
  | access =>
    cases hhard : s.hard with
    | nil =>
      simp only [NicIrq.step, hhard]
      exact h
    | cons a rest =>
      simp only [NicIrq.step, hhard]
      exact h.access hhard hok
  | tasklet r fresh =>
    simp only [NicIrq.step, NicIrq.runTasklet]
    split
    · split_ifs
      · exact h.of_sent (fun _ => id) id
      · exact h
    · exact h.of_sent (fun _ => id) id
    · refine h.of_sent (fun skb hskb => ?_) id
      rwa [toWrnDev_rxRound] at hskb
    · exact h.of_sent (fun _ => id) id

/-- To clear the bit while there is a sent frame is to forget the frame. -/
theorem not_heard (h : TxAwake s) {e : NicIrqEvent} (hbad : ¬ NotBlind s e) :
    ¬ (s.step e).TxHeard := by
  cases e with
  | access =>
    simp only [NotBlind, not_forall, not_not] at hbad
    obtain ⟨mask, rest, hhard, hbit, hsent⟩ := hbad
    have horder := hhard ▸ h.order
    intro hheard
    simp only [NicIrq.TxHeard, NicIrq.step, hhard] at hheard
    rcases hheard hsent with hisr | ⟨r, hr⟩
    · simp [NicIrq.exec, hbit] at hisr
    · exact horder.1 hbit r hr
  | _ => exact absurd trivial hbad

end TxAwake

/-! ### A frame that is forgotten -/

/-- An event that sends no frame, releases none and does not set the bit of transmitted frames. -/
def SendsNothing : NicIrqEvent → Prop
  | .startXmit _ => False
  | .tstampInterrupt _ _ _ _ => False
  | .transmit => False
  | .raise mask => regBit mask 1 = false
  | _ => True

theorem not_txHeard_iff {s : NicIrq} :
    ¬ s.TxHeard ↔ s.Sent ∧ regBit s.isr 1 = false ∧ ∀ r, .txInterrupt r ∉ s.hard := by
  simp [NicIrq.TxHeard]

theorem reclaimable_receive {s : NicSystem} {frame : RxFrame} {skb : SkBuff}
    (h : Reclaimable s.nic.toWrnDev skb) :
    Reclaimable (s.step (.receive frame)).nic.toWrnDev skb := by
  simp only [NicSystem.step]
  split_ifs
  · exact ⟨h.ne_head, h.sent, h.held⟩
  · exact h

/-- `wrn_interrupt` that does not read the bit does not look at the descriptors. -/
theorem txInterrupt_not_mem_wrnInterrupt (r r' : Desc → PpsgReads) {irqs : BitVec 32}
    (h : regBit irqs 1 = false) : .txInterrupt r' ∉ wrnInterrupt r irqs := by
  have hread : ¬ irqs &&& nicEicTcomp ≠ 0 := by
    intro hne
    exact absurd ((and_ne_zero_iff (by decide)).mp hne) (by rw [h]; decide)
  simp only [wrnInterrupt, if_neg hread]
  split_ifs <;> simp

/-- A forgotten frame stays forgotten: neither the handler nor the receive side helps. -/
theorem not_txHeard_step {s : NicIrq} (h : ¬ s.TxHeard) {e : NicIrqEvent} (he : SendsNothing e) :
    ¬ (s.step e).TxHeard := by
  obtain ⟨⟨skb, hskb⟩, hisr, hhard⟩ := not_txHeard_iff.mp h
  refine not_txHeard_iff.mpr ?_
  cases e with
  | startXmit skb => exact absurd he id
  | tstampInterrupt r r0 r1 r2 => exact absurd he id
  | transmit => exact absurd he id
  | receive frame =>
    refine ⟨⟨skb, reclaimable_receive hskb⟩, ?_, hhard⟩
    simp only [NicIrq.step]
    split_ifs
    · simp [hisr]
    · exact hisr
  | raise mask => exact ⟨⟨skb, hskb⟩, by simp [NicIrq.step, hisr, show _ = false from he], hhard⟩
  | enter r =>
    cases hnow : s.hard with
    | nil =>
      simp only [NicIrq.step, hnow]
      exact ⟨⟨skb, hskb⟩, hisr, fun r' => txInterrupt_not_mem_wrnInterrupt r r' hisr⟩
    | cons a rest =>
      simp only [NicIrq.step, hnow]
      exact ⟨⟨skb, hskb⟩, hisr, hnow ▸ hhard⟩
  | access =>
    cases hnow : s.hard with
    | nil =>
      simp only [NicIrq.step, hnow]
      exact ⟨⟨skb, hskb⟩, hisr, hnow ▸ hhard⟩
    | cons a rest =>
      have hrest : ∀ r, .txInterrupt r ∉ rest := fun r hr =>
        hhard r (hnow ▸ List.mem_cons_of_mem a hr)
      simp only [NicIrq.step, hnow]
      cases a with
      | ackIsr mask => exact ⟨⟨skb, hskb⟩, by simp [NicIrq.exec, hisr], hrest⟩
      | idr mask => exact ⟨⟨skb, hskb⟩, hisr, hrest⟩
      | txInterrupt r => exact absurd (hnow ▸ List.mem_cons_self) (hhard r)
      | schedule => exact ⟨⟨skb, hskb⟩, hisr, hrest⟩
  | tasklet r fresh =>
    simp only [NicIrq.step, NicIrq.runTasklet]
    split
    · split_ifs <;> exact ⟨⟨skb, hskb⟩, hisr, hhard⟩
    · exact ⟨⟨skb, hskb⟩, hisr, hhard⟩
    · exact ⟨⟨skb, by rwa [toWrnDev_rxRound]⟩, hisr, hhard⟩
    · exact ⟨⟨skb, hskb⟩, hisr, hhard⟩

/-- **When the driver hears of all sent frames.** In every state of a run the sent frame at the
tail has its bit set in `EIC_ISR`, or `wrn_tx_interrupt` is still to run, exactly when no write of
`wrn_interrupt` clears the bit of transmitted frames while there is a sent frame. Once that has
happened, the driver does not hear of the frame before another frame is handed over or sent or a
time stamp comes, whatever is received and however often the handler runs. -/
theorem txHeard_throughout_iff (hw : PowerOn) (rx2 : Desc → BitVec 32) (isr : BitVec 32)
    (es : List NicIrqEvent) :
    (Throughout NicIrq.step NicIrq.TxHeard (.start hw rx2 isr) es ↔
      Along NicIrq.step NotBlind (.start hw rx2 isr) es) ∧
    ∀ es', (∀ e ∈ es', SendsNothing e) → ¬ (run NicIrq.step (.start hw rx2 isr) es).TxHeard →
      ¬ (run NicIrq.step (.start hw rx2 isr) (es ++ es')).TxHeard := by
  refine ⟨?_, fun es' hes' hlost => ?_⟩
  · exact throughout_iff_along (I := TxAwake) (TxAwake.start hw rx2 isr) (fun _ h => h.heard)
      (fun _ _ h hok => h.step hok) (fun _ _ h hbad => h.not_heard hbad) es
  · rw [run_append]
    have hquiet : Along NicIrq.step (fun _ e => SendsNothing e)
        (run NicIrq.step (.start hw rx2 isr) es) es' := (along_const_iff NicIrq.step).mpr hes'
    exact (hquiet.throughout (I := fun s => ¬ s.TxHeard) hlost (fun _ => id)
      fun _ _ h he => not_txHeard_step h he).last

end SpecSw.Nic
