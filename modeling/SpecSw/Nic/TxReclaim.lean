import SpecSw.Nic.TxSystem

/-!
# Where the transmit-complete interrupt stops

`wrn_tx_interrupt` ought to stop at the head or at a descriptor whose `READY` bit is still set. It
also stops at an entry of `skb_desc[]` without a buffer, and without moving the tail, so that it
stops there again and again, until the head has come round and filled the entry. The entries between
the tail and the head have their buffers (`WindowHeld`) unless a time stamp takes one away:
`record_tstamp` frees the buffer of a frame whose descriptor the tail has not passed yet.

`neverStuck_throughout_iff` proves that this is the only way: throughout a run, whichever
descriptors the hardware completes next, the interrupt stops where it ought to, exactly when no
time stamp of the run belongs to a descriptor between the tail and the head.

## Main definitions

* `Nic.ReclaimDone`, `Nic.TxSystem.NeverStuck`, `Nic.TxSystem.StampAfterReclaim`.

## Main results

* `Nic.TxSystem.neverStuck_throughout_iff`, `Nic.TxSystem.not_forall_reclaimDone`.
-/

namespace SpecSw.Nic

open CyclicWindow EventRun

/-- The tail is at the head, or at a descriptor that the hardware has not completed. -/
def ReclaimDone (wrn : WrnDev) : Prop :=
  wrn.nextTxTail = wrn.nextTxHead ∨ (wrn.txd wrn.nextTxTail).ready = true

instance (wrn : WrnDev) : Decidable (ReclaimDone wrn) := inferInstanceAs (Decidable (_ ∨ _))

/-- The hardware completes some descriptors, in this order. -/
def hwTxDoneAll (done : List Desc) (wrn : WrnDev) : WrnDev :=
  done.foldl (fun w i => hwTxDone i w) wrn

/-- Every entry between the tail and the head refers to a buffer. -/
def WindowHeld (wrn : WrnDev) : Prop :=
  ∀ i, Between wrn.nextTxTail wrn.nextTxHead i → (wrn.skbDesc i).skb ≠ none

/-! ### Completions -/

theorem hwTxDoneAll_eq (done : List Desc) (wrn : WrnDev) :
    ∃ txd, hwTxDoneAll done wrn = { wrn with txd := txd } := by
  induction done generalizing wrn with
  | nil => exact ⟨wrn.txd, rfl⟩
  | cons i done ih =>
    obtain ⟨txd, h⟩ := ih (hwTxDone i wrn)
    exact ⟨txd, h⟩

theorem hwTxDoneAll_ready {done : List Desc} {i : Desc} (hi : i ∈ done) (wrn : WrnDev) :
    ((hwTxDoneAll done wrn).txd i).ready = false := by
  induction done using List.reverseRecOn with
  | nil => exact absurd hi List.not_mem_nil
  | append_singleton done j ih =>
    rw [hwTxDoneAll, List.foldl_append, List.foldl_cons, List.foldl_nil]
    by_cases hij : i = j
    · subst hij
      exact hwTxDone_ready_self i _
    · rw [hwTxDone_txd_of_ne hij]
      exact ih (by simpa [hij] using hi)

theorem WindowHeld.hwTxDoneAll {wrn : WrnDev} (h : WindowHeld wrn) (done : List Desc) :
    WindowHeld (hwTxDoneAll done wrn) := by
  obtain ⟨txd, heq⟩ := hwTxDoneAll_eq done wrn
  rw [heq]
  exact h

/-! ### The interrupt -/

theorem WindowHeld.wrnTxInterrupt {wrn : WrnDev} (h : WindowHeld wrn) (r : Desc → PpsgReads) :
    WindowHeld (wrnTxInterrupt r wrn) := by
  refine wrnTxInterruptLoop_induction r ?_ _ wrn h
  intro w w' skb hw hrec hround i hi
  rw [hround.nextTxTail, hround.nextTxHead, wrnNextDesc, between_succ_tail hrec.ne_head] at hi
  rw [hround.skbDesc_of_ne i hi.2]
  exact hw i hi.1

/-- With every entry of the window in place, the interrupt stops where it ought to. -/
theorem WindowHeld.reclaimDone {wrn : WrnDev} (h : WindowHeld wrn) (r : Desc → PpsgReads) :
    ReclaimDone (Nic.wrnTxInterrupt r wrn) := by
  rcases wrnTxInterrupt_stops r wrn with hhead | hready | hnone
  · exact Or.inl hhead
  · exact Or.inr hready
  · by_contra hnot
    have hne : (Nic.wrnTxInterrupt r wrn).nextTxTail ≠ (Nic.wrnTxInterrupt r wrn).nextTxHead :=
      fun e => hnot (Or.inl e)
    exact h.wrnTxInterrupt r _ (between_tail hne) hnone

/-- An entry ahead of the tail that has lost its buffer stops the interrupt before the head, even
if the hardware has completed every descriptor. -/
theorem not_reclaimDone_of_lost {wrn : WrnDev} {i : Desc}
    (hi : Between wrn.nextTxTail wrn.nextTxHead i) (hlost : (wrn.skbDesc i).skb = none)
    (hsent : ∀ j, (wrn.txd j).ready = false) (r : Desc → PpsgReads) :
    ¬ ReclaimDone (Nic.wrnTxInterrupt r wrn) := by
  have hlast : Between (Nic.wrnTxInterrupt r wrn).nextTxTail
        (Nic.wrnTxInterrupt r wrn).nextTxHead i ∧
      ((Nic.wrnTxInterrupt r wrn).skbDesc i).skb = none ∧
      ∀ j, ((Nic.wrnTxInterrupt r wrn).txd j).ready = false := by
    refine wrnTxInterruptLoop_induction (P := fun w => Between w.nextTxTail w.nextTxHead i ∧
      (w.skbDesc i).skb = none ∧ ∀ j, (w.txd j).ready = false) r ?_ _ wrn ⟨hi, hlost, hsent⟩
    rintro w w' skb ⟨hbetween, hnone, hready⟩ hrec hround
    have hit : i ≠ w.nextTxTail := by
      rintro rfl
      rw [hrec.held] at hnone
      exact absurd hnone (Option.some_ne_none skb)
    refine ⟨?_, ?_, ?_⟩
    · rw [hround.nextTxTail, hround.nextTxHead, wrnNextDesc, between_succ_tail hrec.ne_head]
      exact ⟨hbetween, hit⟩
    · rw [hround.skbDesc_of_ne i hit]
      exact hnone
    · rw [hround.txd]
      exact hready
  rintro (hhead | hready)
  · exact ne_of_between hlast.1 hhead
  · rw [hlast.2.2] at hready
    exact absurd hready (by decide)

namespace TxSystem

/-! ### The property and the condition -/

/-- Whichever descriptors the hardware completes next, `wrn_tx_interrupt` then returns at the head
or at a descriptor that is still to be sent. -/
def NeverStuck (s : TxSystem) : Prop :=
  ∀ done r, ReclaimDone (wrnTxInterrupt r (hwTxDoneAll done s.wrn))

/-- The descriptor that a time stamp belongs to, if any, is not between the tail and the head: the
transmit-complete interrupt has already passed it. -/
def StampAfterReclaim (s : TxSystem) : TxEvent → Prop
  | .tstampInterrupt _ _ r1 _ =>
    ∀ i, findSkb s.wrn (txtsuFid r1) = some i → ¬ Between s.wrn.nextTxTail s.wrn.nextTxHead i
  | _ => True

theorem windowHeld_start (hw : PowerOn) : WindowHeld (start hw).wrn :=
  fun i hi => absurd hi (not_between_self _ i)

theorem windowHeld_neverStuck {s : TxSystem} (h : WindowHeld s.wrn) : NeverStuck s :=
  fun done r => (h.hwTxDoneAll done).reclaimDone r

private theorem windowHeld_startXmit {s : TxSystem} (h : WindowHeld s.wrn) (frame : Frame) :
    WindowHeld (s.step (.startXmit frame)).wrn := by
  change WindowHeld (wrnStartXmit ⟨frame, s.calls⟩ s.wrn).2
  intro i hi
  rcases wrnStartXmit_cases ⟨frame, s.calls⟩ s.wrn with ⟨-, -, hnew⟩ | ⟨-, -, hsame⟩
  · by_cases hhead : i = s.wrn.nextTxHead
    · subst hhead
      simp [hnew.skb_head]
    · rw [hnew.nextTxTail, hnew.nextTxHead, wrnNextDesc] at hi
      have hne : s.wrn.nextTxHead + 1 ≠ s.wrn.nextTxTail := fun e => ne_of_between hi e.symm
      rw [hnew.skbDesc_of_ne i hhead]
      exact h i (((between_succ_head hne).mp hi).resolve_right hhead)
  · rw [hsame.nextTxTail, hsame.nextTxHead] at hi
    rw [hsame.skbDesc]
    exact h i hi

theorem windowHeld_step {s : TxSystem} (h : WindowHeld s.wrn) (e : TxEvent)
    (hok : StampAfterReclaim s e) : WindowHeld (s.step e).wrn := by
  cases e with
  | startXmit frame => exact windowHeld_startXmit h frame
  | txDone i => exact h.hwTxDoneAll [i]
  | txInterrupt r => exact h.wrnTxInterrupt r
  | tstampInterrupt r r0 r1 r2 =>
    rcases recordTstamp_cases r s.wrn r0 r1 r2 with ⟨-, heq⟩ | ⟨i, skb, hfind, hrel⟩
    · change WindowHeld (recordTstamp r s.wrn r0 r1 r2)
      rwa [heq]
    · change WindowHeld (recordTstamp r s.wrn r0 r1 r2)
      intro j hj
      rw [hrel.nextTxTail, hrel.nextTxHead] at hj
      have hji : j ≠ i := by
        rintro rfl
        exact hok j hfind hj
      rw [hrel.skbDesc_of_ne j hji]
      exact h j hj

/-- A time stamp that takes the buffer of a descriptor ahead of the tail leaves a state from which
the interrupt gets stuck once the hardware is done. -/
theorem stuck_of_early_stamp {s : TxSystem} {e : TxEvent} (hbad : ¬ StampAfterReclaim s e) :
    ¬ NeverStuck (s.step e) := by
  cases e with
  | tstampInterrupt r r0 r1 r2 =>
    simp only [StampAfterReclaim, not_forall, not_not] at hbad
    obtain ⟨i, hfind, hbetween⟩ := hbad
    rcases recordTstamp_cases r s.wrn r0 r1 r2 with ⟨hnone, -⟩ | ⟨j, skb, hfind', hrel⟩
    · exact absurd (hfind.symm.trans hnone) (Option.some_ne_none i)
    · obtain rfl : i = j := Option.some.inj (hfind.symm.trans hfind')
      intro hnever
      obtain ⟨txd, heq⟩ := hwTxDoneAll_eq (List.finRange wrnNrDesc) (recordTstamp r s.wrn r0 r1 r2)
      refine not_reclaimDone_of_lost (i := i) ?_ ?_ ?_ (fun _ => ⟨0, 0, 0, 0⟩)
        (hnever (List.finRange wrnNrDesc) _)
      · change Between (hwTxDoneAll _ (recordTstamp r s.wrn r0 r1 r2)).nextTxTail
          (hwTxDoneAll _ (recordTstamp r s.wrn r0 r1 r2)).nextTxHead i
        rw [heq]
        simpa only [hrel.nextTxTail, hrel.nextTxHead] using hbetween
      · change ((hwTxDoneAll _ (recordTstamp r s.wrn r0 r1 r2)).skbDesc i).skb = none
        rw [heq]
        exact hrel.skb_self
      · exact fun k => hwTxDoneAll_ready (List.mem_finRange k) _
  | _ => exact absurd trivial hbad

/-! ### Reclaiming along runs -/

/-- **Reclaiming does not get stuck.** In every state that a run reaches, whichever descriptors the
hardware completes next, the transmit-complete interrupt returns at the head or at a descriptor
with `READY` set, exactly when no time stamp of the run belongs to a descriptor between the tail
and the head. -/
theorem neverStuck_throughout_iff (hw : PowerOn) (es : List TxEvent) :
    Throughout step NeverStuck (start hw) es ↔ Along step StampAfterReclaim (start hw) es :=
  throughout_iff_along (I := fun s : TxSystem => WindowHeld s.wrn) (windowHeld_start hw)
    (fun _ hs => windowHeld_neverStuck hs) (fun _ e hs => windowHeld_step hs e)
    (fun _ _ _ hbad => stuck_of_early_stamp hbad) es

/-- The time stamp of the first frame is handled before its transmit-complete interrupt: the
interrupt stops at descriptor 0, which the hardware has completed. -/
theorem not_forall_reclaimDone : ¬ ∀ (hw : PowerOn) (es : List TxEvent) (r : Desc → PpsgReads),
    ReclaimDone (run step (start hw) (es ++ [.txInterrupt r])).wrn := by
  intro hall
  refine absurd (hall ⟨fun _ => 0, fun _ => 0, fun _ => 0⟩
    [.startXmit ⟨60, fun _ => 0, skbtxHwTstamp⟩, .txDone 0,
      .tstampInterrupt ⟨0, 0, 0, 0⟩ 0 0x00010000 0] fun _ => ⟨0, 0, 0, 0⟩) ?_
  decide

end TxSystem

end SpecSw.Nic
