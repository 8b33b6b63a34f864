import SpecSw.Nic.TxSystem

/-!
# Occupancy of the transmit ring

The tail and the head count the accepted frames modulo the number of descriptors, so they cannot
tell eight frames from none. Nothing keeps the driver from accepting the eighth: the allocation
looks at the `READY` bit of the descriptor at the head and not at the tail. From then on the tail
equals the head, the transmit-complete interrupt reclaims nothing, and the allocation hands out
descriptors that the tail has not passed.

As long as the head is not made equal to the tail by an accepted frame, the frames waiting to be
passed are those of the descriptors from the tail up to the head, in order, and the two notions of
occupancy agree (`occupancy_throughout_iff`).

## Main definitions

* `Nic.TxSystem.Occupancy`, `Nic.TxSystem.LeavesGap`.

## Main results

* `Nic.TxSystem.occupancy_throughout_iff`, `Nic.TxSystem.not_forall_occupancy`.
-/

namespace SpecSw.Nic

open CyclicWindow EventRun

/-- The interrupt moves the tail towards the head, not past it. -/
theorem wrnTxInterrupt_dist (r : Desc → PpsgReads) (wrn : WrnDev) :
    (wrnTxInterrupt r wrn).nextTxHead = wrn.nextTxHead ∧
      ringDist wrn.nextTxTail (wrnTxInterrupt r wrn).nextTxTail ≤
        ringDist wrn.nextTxTail wrn.nextTxHead := by
  refine wrnTxInterruptLoop_induction
    (P := fun w => w.nextTxHead = wrn.nextTxHead ∧
      ringDist wrn.nextTxTail w.nextTxTail ≤ ringDist wrn.nextTxTail wrn.nextTxHead) r ?_ _ wrn
    ⟨rfl, by simp⟩
  rintro w w' skb ⟨hhead, hle⟩ hrec hround
  refine ⟨hround.nextTxHead.trans hhead, ?_⟩
  rw [hround.nextTxTail, wrnNextDesc]
  exact ringDist_succ_head_le hle (hhead ▸ hrec.ne_head)

namespace TxSystem

/-- The accepted frames that the tail has not passed are `(head - tail) mod 8` in number, so there
are none when the head equals the tail, and the descriptor that an allocation would hand out is
not one of theirs. -/
def Occupancy (s : TxSystem) : Prop :=
  s.waiting.length = (s.wrn.nextTxHead - s.wrn.nextTxTail).val ∧
    (s.wrn.nextTxHead = s.wrn.nextTxTail → s.waiting = []) ∧
    ∀ d wrn, wrnAllocTxDesc s.wrn = some (d, wrn) → d ∉ s.waiting

/-- An accepted frame does not make the head equal to the tail. -/
def LeavesGap (s : TxSystem) : TxEvent → Prop
  | .startXmit frame => XmitAccepts frame s.wrn → wrnNextDesc s.wrn.nextTxHead ≠ s.wrn.nextTxTail
  | _ => True

/-- The waiting frames are those of the descriptors from the tail up to the head, in order. -/
def WaitingWindow (s : TxSystem) : Prop := s.waiting = window s.wrn.nextTxTail s.wrn.nextTxHead

theorem waitingWindow_start (hw : PowerOn) : WaitingWindow (start hw) := by
  simp [WaitingWindow, start, wrnProbe]

theorem WaitingWindow.occupancy {s : TxSystem} (h : WaitingWindow s) : Occupancy s := by
  refine ⟨by rw [h, length_window, ringDist], fun heq => by rw [h, heq, window_self], ?_⟩
  intro d wrn halloc
  have hd : d = s.wrn.nextTxHead := by
    simp only [wrnAllocTxDesc] at halloc
    split_ifs at halloc
    exact (congrArg Prod.fst (Option.some.inj halloc)).symm
  rw [hd, h, mem_window]
  exact not_between_head _ _

theorem WaitingWindow.step {s : TxSystem} (h : WaitingWindow s) (e : TxEvent)
    (hok : LeavesGap s e) : WaitingWindow (s.step e) := by
  cases e with
  | startXmit frame =>
    rcases wrnStartXmit_cases ⟨frame, s.calls⟩ s.wrn with ⟨hacc, hret, hnew⟩ | ⟨-, hret, hsame⟩
    · simp only [WaitingWindow, TxSystem.step, hret, if_true, hnew.nextTxTail, hnew.nextTxHead]
      rw [h, wrnNextDesc, window_succ_head (hok hacc)]
    · simpa only [WaitingWindow, TxSystem.step, hret.ne, if_false, hsame.nextTxTail,
        hsame.nextTxHead] using h
  | txDone i => exact h
  | txInterrupt r =>
    obtain ⟨hhead, hle⟩ := wrnTxInterrupt_dist r s.wrn
    simp only [WaitingWindow, TxSystem.step, hhead]
    rw [h]
    exact filter_not_between hle
  | tstampInterrupt r r0 r1 r2 =>
    rcases recordTstamp_cases r s.wrn r0 r1 r2 with ⟨-, heq⟩ | ⟨i, skb, -, hrel⟩
    · simpa only [WaitingWindow, TxSystem.step, wrnTstampInterrupt, heq] using h
    · simpa only [WaitingWindow, TxSystem.step, wrnTstampInterrupt, hrel.nextTxTail,
        hrel.nextTxHead] using h

/-- The frame that makes the head equal to the tail is the eighth one waiting. -/
theorem not_occupancy_of_no_gap {s : TxSystem} {e : TxEvent} (hbad : ¬ LeavesGap s e) :
    ¬ Occupancy (s.step e) := by
  cases e with
  | startXmit frame =>
    simp only [LeavesGap, not_forall, not_not] at hbad
    obtain ⟨hacc, hfull⟩ := hbad
    obtain ⟨hret, hnew⟩ := wrnStartXmit_of_accepts ⟨frame, s.calls⟩ hacc
    rintro ⟨-, hempty, -⟩
    have hwaiting : (s.step (.startXmit frame)).waiting = s.waiting ++ [s.wrn.nextTxHead] := by
      simp only [TxSystem.step, hret, if_true]
    have hmeet : (s.step (.startXmit frame)).wrn.nextTxHead =
        (s.step (.startXmit frame)).wrn.nextTxTail := by
      change (wrnStartXmit _ _).2.nextTxHead = (wrnStartXmit _ _).2.nextTxTail
      rw [hnew.nextTxHead, hnew.nextTxTail, hfull]
    have hnil := hempty hmeet
    rw [hwaiting] at hnil
    exact absurd hnil (by simp)
  | _ => exact absurd trivial hbad

/-- **Full and empty.** The occupancy is right in every state that a run reaches exactly when no
accepted frame of the run makes the head equal to the tail. -/
theorem occupancy_throughout_iff (hw : PowerOn) (es : List TxEvent) :
    Throughout step Occupancy (start hw) es ↔ Along step LeavesGap (start hw) es :=
  throughout_iff_along (waitingWindow_start hw) (fun _ hs => hs.occupancy)
    (fun _ e hs => hs.step e) (fun _ _ _ => not_occupancy_of_no_gap) es

/-- Eight frames are accepted before the hardware has sent the first. -/
theorem not_forall_occupancy : ¬ ∀ (hw : PowerOn) (es : List TxEvent),
    Occupancy (run step (start hw) es) := by
  intro hall
  have h := (hall ⟨fun _ => 0, fun _ => 0, fun _ => 0⟩
    (List.replicate 8 (.startXmit ⟨60, fun _ => 0, 0⟩))).1
  revert h
  decide

end TxSystem

end SpecSw.Nic
