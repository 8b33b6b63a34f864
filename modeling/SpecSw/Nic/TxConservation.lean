import SpecSw.Library.Custody
import SpecSw.Nic.TxSystem

/-!
# Conservation of transmit buffers

The entries of `skb_desc[]` and the calls of `dev_kfree_skb_irq` put the buffers of the network
stack in the custody of the driver (`WrnDev.custody`). A transmit-complete interrupt and a time
stamp interrupt only release what an entry holds, so they never lose a buffer or free one twice.

`wrn_start_xmit` is where buffers get lost. It returns an error, which takes the buffer, without
freeing it: a frame longer than `WRN_MTU`, or no descriptor available. And it saves the new buffer
over one that still waits for its time stamp. `conserved_throughout_iff` proves that there is no
other way: the buffers are conserved throughout a run exactly when every call is accepted and finds
its entry of `skb_desc[]` free.

## Main definitions

* `Nic.WrnDev.custody`, `Nic.TxSystem.Conserved`, `Nic.TxSystem.XmitClean`.

## Main results

* `Nic.TxSystem.conserved_throughout_iff`, `Nic.TxSystem.not_forall_conserved`.
-/

namespace SpecSw.Nic

open EventRun

/-- Which buffer each entry of `skb_desc[]` refers to, and the buffers that were freed. -/
def WrnDev.custody (wrn : WrnDev) : Custody Desc ℕ where
  held i := (wrn.skbDesc i).skb.map SkBuff.handle
  released := wrn.freed

/-! ### The driver's operations on the custody -/

theorem custody_eq_of_skbDesc {wrn wrn' : WrnDev} (hdesc : wrn'.skbDesc = wrn.skbDesc)
    (hfreed : wrn'.freed = wrn.freed) : wrn'.custody = wrn.custody := by
  simp only [WrnDev.custody, hdesc, hfreed]

theorem Accepted.custody {skb : SkBuff} {wrn wrn' : WrnDev} (h : Accepted skb wrn wrn') :
    wrn'.custody = wrn.custody.store wrn.nextTxHead skb.handle := by
  have hheld : wrn'.custody.held =
      Function.update wrn.custody.held wrn.nextTxHead (some skb.handle) := by
    funext i
    by_cases hi : i = wrn.nextTxHead
    · subst hi
      simp [WrnDev.custody, h.skb_head]
    · simp [WrnDev.custody, hi, h.skbDesc_of_ne i hi]
  exact congrArg₂ Custody.mk hheld h.freed

/-- An entry that gives up its buffer to the free list releases it. -/
private theorem custody_release {i : Desc} {skb : SkBuff} {wrn wrn' : WrnDev}
    (hheld : (wrn.skbDesc i).skb = some skb) (hself : (wrn'.skbDesc i).skb = none)
    (hne : ∀ j, j ≠ i → wrn'.skbDesc j = wrn.skbDesc j)
    (hfreed : wrn'.freed = skb.handle :: wrn.freed) : wrn'.custody = wrn.custody.release i := by
  have hcustody : wrn.custody.held i = some skb.handle := by simp [WrnDev.custody, hheld]
  rw [Custody.release_of_held hcustody]
  have heq : wrn'.custody.held = Function.update wrn.custody.held i none := by
    funext j
    by_cases hj : j = i
    · subst hj
      simp [WrnDev.custody, hself]
    · simp [WrnDev.custody, hj, hne j hj]
  exact congrArg₂ Custody.mk heq hfreed

theorem Released.custody {i : Desc} {skb : SkBuff} {wrn wrn' : WrnDev}
    (h : Released i skb wrn wrn') : wrn'.custody = wrn.custody.release i :=
  custody_release h.held h.skb_self h.skbDesc_of_ne h.freed

theorem Reclaimed.custody {i : Desc} {skb : SkBuff} {wrn wrn' : WrnDev}
    (h : Reclaimed i skb wrn wrn') :
    wrn'.custody = wrn.custody.release i ∨ wrn'.custody = wrn.custody := by
  rcases h.skb_self with ⟨hself, hfreed⟩ | ⟨⟨flags, hself⟩, hfreed⟩
  · exact Or.inl (custody_release h.held hself h.skbDesc_of_ne hfreed)
  · right
    have hheld : wrn'.custody.held = wrn.custody.held := by
      funext j
      by_cases hj : j = i
      · subst hj
        simp [WrnDev.custody, hself, h.held]
      · simp [WrnDev.custody, h.skbDesc_of_ne j hj]
    exact congrArg₂ Custody.mk hheld hfreed

/-- The interrupts keep track of the buffers, whatever these are. -/
theorem tracks_wrnTxInterrupt (r : Desc → PpsgReads) {wrn : WrnDev} {S : Set ℕ}
    (h : wrn.custody.Tracks S) : (wrnTxInterrupt r wrn).custody.Tracks S := by
  refine wrnTxInterruptLoop_induction (P := fun w => w.custody.Tracks S) r ?_ _ wrn h
  intro w w' skb hw _ hround
  rcases hround.custody with heq | heq <;> rw [heq]
  · exact hw.release _
  · exact hw

theorem tracks_wrnTstampInterrupt (r : PpsgReads) (r0 r1 r2 : BitVec 32) {wrn : WrnDev} {S : Set ℕ}
    (h : wrn.custody.Tracks S) : (wrnTstampInterrupt r r0 r1 r2 wrn).custody.Tracks S := by
  rcases recordTstamp_cases r wrn r0 r1 r2 with ⟨-, heq⟩ | ⟨i, skb, -, hrel⟩
  · rwa [wrnTstampInterrupt, heq]
  · rw [wrnTstampInterrupt, hrel.custody]
    exact h.release i

namespace TxSystem

/-! ### The property and the condition -/

/-- Every buffer handed over so far has been freed exactly once and is not referenced, or has not
been freed and is referenced by exactly one entry of `skb_desc[]`. -/
def Conserved (s : TxSystem) : Prop := ∀ k ∈ s.handed, s.wrn.custody.Accounted k

/-- A call of `wrn_start_xmit` that is accepted and whose entry of `skb_desc[]` is free. -/
def XmitClean (s : TxSystem) : TxEvent → Prop
  | .startXmit frame =>
    XmitAccepts frame s.wrn ∧ (s.wrn.skbDesc s.wrn.nextTxHead).skb = none
  | _ => True

/-- The buffers handed over are those of the calls made, and the custody tracks them. -/
structure CustodyInv (s : TxSystem) : Prop where
  mem_handed : ∀ k, k ∈ s.handed ↔ k < s.calls
  tracks : s.wrn.custody.Tracks {k | k < s.calls}

theorem custodyInv_start (hw : PowerOn) : CustodyInv (start hw) := by
  refine ⟨by simp [start], fun k hk => absurd hk (Nat.not_lt_zero k), fun i k hk => ?_, ?_⟩
  · simp [start, wrnProbe, WrnDev.custody, WrnDescPending.zero] at hk
  · simp [start, wrnProbe, WrnDev.custody]

theorem CustodyInv.conserved {s : TxSystem} (h : CustodyInv s) : Conserved s :=
  fun k hk => h.tracks.accounted k ((h.mem_handed k).mp hk)

/-- No return value of `wrn_start_xmit` leaves the buffer with the caller. -/
theorem step_startXmit_handed (s : TxSystem) (frame : Frame) :
    (s.step (.startXmit frame)).handed = s.calls :: s.handed := by
  have hret : (wrnStartXmit ⟨frame, s.calls⟩ s.wrn).1 ≠ netdevTxBusy := by
    rcases wrnStartXmit_cases ⟨frame, s.calls⟩ s.wrn with ⟨-, hret, -⟩ | ⟨-, hret, -⟩
    · rw [hret]
      decide
    · exact ne_of_lt (hret.trans (by decide))
  simp only [step, if_neg hret]

private theorem mem_handed_startXmit {s : TxSystem} (h : CustodyInv s) (frame : Frame) (k : ℕ) :
    k ∈ (s.step (.startXmit frame)).handed ↔ k < s.calls + 1 := by
  rw [step_startXmit_handed, List.mem_cons, h.mem_handed]
  omega

theorem CustodyInv.step {s : TxSystem} (h : CustodyInv s) (e : TxEvent) (hok : XmitClean s e) :
    CustodyInv (s.step e) := by
  cases e with
  | startXmit frame =>
    refine ⟨mem_handed_startXmit h frame, ?_⟩
    obtain ⟨-, hacc⟩ := wrnStartXmit_of_accepts ⟨frame, s.calls⟩ hok.1
    have hfree : s.wrn.custody.held s.wrn.nextTxHead = none := by
      simp [WrnDev.custody, hok.2]
    have hset : {k | k < s.calls + 1} = insert s.calls {k | k < s.calls} := by
      ext k
      simp only [Set.mem_ofPred_eq, Set.mem_insert_iff]
      omega
    change (wrnStartXmit ⟨frame, s.calls⟩ s.wrn).2.custody.Tracks {k | k < s.calls + 1}
    rw [hacc.custody, hset]
    exact h.tracks.store hfree (lt_irrefl s.calls)
  | txDone i => exact ⟨h.mem_handed, h.tracks⟩
  | txInterrupt r => exact ⟨h.mem_handed, tracks_wrnTxInterrupt r h.tracks⟩
  | tstampInterrupt r r0 r1 r2 =>
    exact ⟨h.mem_handed, tracks_wrnTstampInterrupt r r0 r1 r2 h.tracks⟩

/-- A call that is refused, or whose entry still refers to a buffer, loses a buffer. -/
theorem CustodyInv.lost_of_not_clean {s : TxSystem} (h : CustodyInv s) {frame : Frame}
    (hbad : ¬ XmitClean s (.startXmit frame)) : ¬ Conserved (s.step (.startXmit frame)) := by
  intro hcons
  rcases wrnStartXmit_cases ⟨frame, s.calls⟩ s.wrn with ⟨hacc, -, hnew⟩ | ⟨-, -, hsame⟩
  · have hskb : (s.wrn.skbDesc s.wrn.nextTxHead).skb ≠ none := fun hnone => hbad ⟨hacc, hnone⟩
    obtain ⟨old, hold⟩ := Option.ne_none_iff_exists'.mp hskb
    have hheld : s.wrn.custody.held s.wrn.nextTxHead = some old.handle := by
      simp [WrnDev.custody, hold]
    have hlt : old.handle < s.calls := h.tracks.held_mem _ _ hheld
    have hlost := Custody.not_accounted_store_over (h.tracks.accounted _ hlt) hheld hlt.ne
    rw [← hnew.custody] at hlost
    exact hlost (hcons _ ((mem_handed_startXmit h frame _).mpr (by omega)))
  · have heq : (s.step (.startXmit frame)).wrn.custody = s.wrn.custody :=
      custody_eq_of_skbDesc hsame.skbDesc hsame.freed
    have habs := Custody.not_accounted_of_absent (c := s.wrn.custody) (k := s.calls)
      (fun j hj => lt_irrefl s.calls (h.tracks.held_mem j _ hj))
      (fun hrel => lt_irrefl s.calls (h.tracks.released_mem _ hrel))
    rw [← heq] at habs
    exact habs (hcons _ ((mem_handed_startXmit h frame _).mpr (Nat.lt_succ_self _)))

/-! ### Conservation along runs -/

/-- **Conservation of transmit buffers.** The buffers are conserved in every state that a run
reaches exactly when every call of `wrn_start_xmit` in it is accepted and finds its entry of
`skb_desc[]` free. -/
theorem conserved_throughout_iff (hw : PowerOn) (es : List TxEvent) :
    Throughout step Conserved (start hw) es ↔ Along step XmitClean (start hw) es := by
  refine throughout_iff_along (custodyInv_start hw) (fun s hs => hs.conserved)
    (fun s e hs => hs.step e) ?_ es
  intro s e hs hbad
  cases e with
  | startXmit frame => exact hs.lost_of_not_clean hbad
  | _ => exact absurd trivial hbad

/-- A frame of 1541 bytes is refused with `-EMSGSIZE` and its buffer is lost. -/
theorem not_forall_conserved : ¬ ∀ (hw : PowerOn) (es : List TxEvent),
    Conserved (run step (start hw) es) := by
  intro hall
  exact Custody.not_accounted_of_absent (by decide) (by decide)
    (hall ⟨fun _ => 0, fun _ => 0, fun _ => 0⟩ [.startXmit ⟨1541, fun _ => 0, 0⟩] 0 (by decide))

end TxSystem

end SpecSw.Nic
