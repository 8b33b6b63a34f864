import SpecSw.Library.CyclicWindow
import SpecSw.Nic.Tstamp
import SpecSw.Nic.Xmit

/-!
# Reclaiming transmitted descriptors: `wrn_tx_interrupt`

The transmit-complete interrupt moves the tail over the descriptors that the hardware has sent, up
to the head. A buffer without hardware time stamping is freed on the way; one with it is kept in
its entry for the time stamp interrupt. The loop returns early at a descriptor that is not sent
yet, and at an entry without a buffer.

The loop moves the tail by one at each round and stops at the head, so it makes fewer than
`WRN_NR_DESC` rounds (`wrnTxInterrupt_stops`).

## Main definitions

* `Nic.wrnTxReclaim`, `Nic.wrnTxInterruptLoop`, `Nic.wrnTxInterrupt`.

## Main results

* `Nic.wrnTxInterruptLoop_induction`: what every round keeps, the interrupt keeps.
* `Nic.wrnTxInterrupt_stops`: where the interrupt returns.
-/

namespace SpecSw.Nic

open CyclicWindow

/-- The body of the loop for a descriptor `i` that is sent and whose entry holds `skb`: free the
buffer or leave it for its time stamp, and move the tail on. -/
def wrnTxReclaim (r : PpsgReads) (wrn : WrnDev) (i : Desc) (skb : SkBuff) : WrnDev :=
  let wrn :=
    if skb.txFlags &&& skbtxHwTstamp ≠ 0 then
      let skb := { skb with txFlags := skb.txFlags ||| skbtxInProgress }
      wrnTxTstampSkb r (wrn.setDesc i { wrn.skbDesc i with skb := some skb }) i
    else (wrn.devKfreeSkbIrq skb).setDesc i { wrn.skbDesc i with skb := none }
  { wrn with nextTxTail := wrnNextDesc i }

/-- The `while` loop of `wrn_tx_interrupt`, at most `fuel` rounds of it. `r i` are the PPS reads of
the round that handles descriptor `i`. -/
def wrnTxInterruptLoop (r : Desc → PpsgReads) : ℕ → WrnDev → WrnDev
  | 0, wrn => wrn
  | fuel + 1, wrn =>
    let i := wrn.nextTxTail
    if i = wrn.nextTxHead then wrn
    else if (wrn.txd i).ready then wrn -- no more
    else
      match (wrn.skbDesc i).skb with
      | none => wrn -- "no socket in descriptor %i"
      | some skb => wrnTxInterruptLoop r fuel (wrnTxReclaim (r i) wrn i skb)

/-- `wrn_tx_interrupt`. -/
def wrnTxInterrupt (r : Desc → PpsgReads) (wrn : WrnDev) : WrnDev :=
  wrnTxInterruptLoop r wrnNrDesc wrn

/-! ### One round -/

/-- What a round does to the entry of the descriptor it handles: the buffer is freed, or it stays
with its flags changed. -/
structure Reclaimed (i : Desc) (skb : SkBuff) (wrn wrn' : WrnDev) : Prop where
  held : (wrn.skbDesc i).skb = some skb
  txd : wrn'.txd = wrn.txd
  nextTxHead : wrn'.nextTxHead = wrn.nextTxHead
  nextTxTail : wrn'.nextTxTail = wrnNextDesc i
  skbDesc_of_ne : ∀ j, j ≠ i → wrn'.skbDesc j = wrn.skbDesc j
  skb_self : ((wrn'.skbDesc i).skb = none ∧ wrn'.freed = skb.handle :: wrn.freed) ∨
    ((∃ flags, (wrn'.skbDesc i).skb = some { skb with txFlags := flags }) ∧
      wrn'.freed = wrn.freed)

/-- A buffer in an entry after a round has been there before, with other flags perhaps. -/
theorem Reclaimed.kept {w w' : WrnDev} {i : Desc} {skb : SkBuff} (h : Reclaimed i skb w w')
    {j : Desc} {skb' : SkBuff} (hj : (w'.skbDesc j).skb = some skb') :
    ∃ skb₀, (w.skbDesc j).skb = some skb₀ ∧ skb'.handle = skb₀.handle := by
  by_cases hji : j = i
  · subst hji
    rcases h.skb_self with ⟨hnone, -⟩ | ⟨⟨flags, hflags⟩, -⟩
    · simp [hnone] at hj
    · obtain rfl := Option.some.inj (hflags.symm.trans hj)
      exact ⟨skb, h.held, rfl⟩
  · rw [h.skbDesc_of_ne j hji] at hj
    exact ⟨skb', hj, rfl⟩

/-- A round frees no buffer but that of its entry. -/
theorem Reclaimed.freed {w w' : WrnDev} {i : Desc} {skb : SkBuff} (h : Reclaimed i skb w w')
    {handle : ℕ} (hh : handle ∈ w'.freed) : handle = skb.handle ∨ handle ∈ w.freed := by
  rcases h.skb_self with ⟨-, hfreed⟩ | ⟨-, hfreed⟩
  · rw [hfreed] at hh
    exact List.mem_cons.mp hh
  · exact Or.inr (hfreed ▸ hh)

theorem wrnTxReclaim_reclaimed (r : PpsgReads) {wrn : WrnDev} {i : Desc} {skb : SkBuff}
    (hskb : (wrn.skbDesc i).skb = some skb) :
    Reclaimed i skb wrn (wrnTxReclaim r wrn i skb) := by
  have hne (d d' : WrnDescPending) (j : Desc) (hj : j ≠ i) :
      Function.update (Function.update wrn.skbDesc i d) i d' j = wrn.skbDesc j := by
    rw [Function.update_of_ne hj, Function.update_of_ne hj]
  simp only [wrnTxReclaim, wrnTxTstampSkb, WrnDev.setDesc, WrnDev.devKfreeSkbIrq,
    Function.update_self]
  split_ifs with hstamp hvalid hinvalid
  · exact ⟨hskb, rfl, rfl, rfl, fun j hj => Function.update_of_ne hj _ _,
      Or.inr ⟨⟨skb.txFlags ||| skbtxInProgress, by simp⟩, rfl⟩⟩
  · exact ⟨hskb, rfl, rfl, rfl, hne _ _, Or.inl ⟨by simp, rfl⟩⟩
  · exact ⟨hskb, rfl, rfl, rfl, hne _ _, Or.inl ⟨by simp, rfl⟩⟩
  · exact ⟨hskb, rfl, rfl, rfl, fun j hj => Function.update_of_ne hj _ _,
      Or.inl ⟨by simp, rfl⟩⟩

/-- The conditions under which a round handles the descriptor at the tail. -/
structure Reclaimable (wrn : WrnDev) (skb : SkBuff) : Prop where
  ne_head : wrn.nextTxTail ≠ wrn.nextTxHead
  sent : (wrn.txd wrn.nextTxTail).ready = false
  held : (wrn.skbDesc wrn.nextTxTail).skb = some skb

theorem wrnTxInterruptLoop_succ {r : Desc → PpsgReads} {fuel : ℕ} {wrn : WrnDev} {skb : SkBuff}
    (h : Reclaimable wrn skb) :
    wrnTxInterruptLoop r (fuel + 1) wrn =
      wrnTxInterruptLoop r fuel (wrnTxReclaim (r wrn.nextTxTail) wrn wrn.nextTxTail skb) := by
  simp only [wrnTxInterruptLoop, h.ne_head, h.sent, h.held, if_false, Bool.false_eq_true]

theorem wrnTxInterruptLoop_of_not_reclaimable {r : Desc → PpsgReads} {wrn : WrnDev}
    (h : ∀ skb, ¬ Reclaimable wrn skb) (fuel : ℕ) : wrnTxInterruptLoop r fuel wrn = wrn := by
  cases fuel with
  | zero => rfl
  | succ fuel =>
    simp only [wrnTxInterruptLoop]
    split_ifs with hhead hready
    · rfl
    · rfl
    · cases hskb : (wrn.skbDesc wrn.nextTxTail).skb with
      | none => rfl
      | some skb => exact absurd ⟨hhead, by simpa using hready, hskb⟩ (h skb)

/-! ### The whole interrupt -/

/-- A predicate that every round keeps is kept by the loop. -/
theorem wrnTxInterruptLoop_rounds {P : WrnDev → Prop} (r : Desc → PpsgReads)
    (hround : ∀ wrn skb, P wrn → Reclaimable wrn skb →
      P (wrnTxReclaim (r wrn.nextTxTail) wrn wrn.nextTxTail skb))
    (fuel : ℕ) (wrn : WrnDev) (h : P wrn) : P (wrnTxInterruptLoop r fuel wrn) := by
  induction fuel generalizing wrn with
  | zero => exact h
  | succ fuel ih =>
    by_cases hrec : ∃ skb, Reclaimable wrn skb
    · obtain ⟨skb, hrec⟩ := hrec
      rw [wrnTxInterruptLoop_succ hrec]
      exact ih _ (hround wrn skb h hrec)
    · rw [wrnTxInterruptLoop_of_not_reclaimable (not_exists.mp hrec)]
      exact h

/-- The same for a predicate that is kept by everything a round can do. -/
theorem wrnTxInterruptLoop_induction {P : WrnDev → Prop} (r : Desc → PpsgReads)
    (hround : ∀ wrn wrn' skb, P wrn → Reclaimable wrn skb →
      Reclaimed wrn.nextTxTail skb wrn wrn' → P wrn')
    (fuel : ℕ) (wrn : WrnDev) (h : P wrn) : P (wrnTxInterruptLoop r fuel wrn) :=
  wrnTxInterruptLoop_rounds r (fun w skb hw hrec =>
    hround w _ skb hw hrec (wrnTxReclaim_reclaimed _ hrec.held)) fuel wrn h

/-- With as many rounds as there are descriptors between the tail and the head, the loop ends where
no further round would do anything. -/
theorem wrnTxInterruptLoop_stops (r : Desc → PpsgReads) (fuel : ℕ) (wrn : WrnDev)
    (hfuel : ringDist wrn.nextTxTail wrn.nextTxHead ≤ fuel) (skb : SkBuff) :
    ¬ Reclaimable (wrnTxInterruptLoop r fuel wrn) skb := by
  induction fuel generalizing wrn with
  | zero =>
    intro h
    exact h.ne_head (ringDist_eq_zero_iff.mp (Nat.le_zero.mp hfuel))
  | succ fuel ih =>
    by_cases hrec : ∃ skb, Reclaimable wrn skb
    · obtain ⟨skb', hrec⟩ := hrec
      have hround := wrnTxReclaim_reclaimed (r wrn.nextTxTail) hrec.held
      rw [wrnTxInterruptLoop_succ hrec]
      refine ih _ ?_
      rw [hround.nextTxTail, hround.nextTxHead, wrnNextDesc]
      have := ringDist_succ_tail hrec.ne_head
      omega
    · rw [wrnTxInterruptLoop_of_not_reclaimable (not_exists.mp hrec)]
      exact not_exists.mp hrec skb

/-- Where `wrn_tx_interrupt` returns: at the head, at a descriptor that is not sent, or at an entry
without a buffer. -/
theorem wrnTxInterrupt_stops (r : Desc → PpsgReads) (wrn : WrnDev) :
    let wrn' := wrnTxInterrupt r wrn
    wrn'.nextTxTail = wrn'.nextTxHead ∨ (wrn'.txd wrn'.nextTxTail).ready = true ∨
      (wrn'.skbDesc wrn'.nextTxTail).skb = none := by
  intro wrn'
  by_contra hnot
  simp only [not_or, Bool.not_eq_true, ← ne_eq, Option.ne_none_iff_exists'] at hnot
  obtain ⟨hhead, hready, skb, hskb⟩ := hnot
  exact wrnTxInterruptLoop_stops r wrnNrDesc wrn (ringDist_lt _ _).le skb ⟨hhead, hready, hskb⟩

end SpecSw.Nic
