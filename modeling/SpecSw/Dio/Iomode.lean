import SpecSw.UserIndices

/-!
# The channel multiplexer

`IOMODE` has four bits for each channel, the two lowest of which select what the channel is
connected to: 0 the GPIO, 1 the DIO core, 2 the WRPC, while 3 is undefined. INOUT clears the four
bits of a channel before it sets them, and selects 0, 1 or 2. PULSE only sets the bit of the DIO
core, so on a channel connected to the WRPC it leaves the undefined setting.

## Main definitions

* `Dio.selector`: the source selected for a channel.
* `Dio.ModeCmd`, `Dio.modeStep`: the commands that write `IOMODE`.
* `Dio.ModesDefined`.

## Main results

* `Dio.selector_pulse`, `Dio.selector_inoutChannel`: what the commands do to the selectors.
* `Dio.modes_along_iff`, `Dio.not_forall_modes`.
-/

namespace SpecSw.Dio

open EventRun

/-! ### The fields of `IOMODE` -/

/-- The source selected for a channel, bits 0 and 1 of its four. -/
def selector (iomode : BitVec 32) (ch : ℕ) : BitVec 2 := iomode.extractLsb' (4 * ch) 2

theorem getLsbD_shl (x : BitVec 32) {n k : ℕ} (hn : n < 32) (hk : k < 32) :
    (shl x n).getLsbD k = (decide (n ≤ k) && x.getLsbD (k - n)) := by
  rw [shl, Nat.mod_eq_of_lt hn, BitVec.getLsbD_shiftLeft]
  by_cases hnk : n ≤ k
  · simp [hk, hnk]
  · simp [hnk, Nat.lt_of_not_le hnk]

/-- A number of four bits has no others. -/
theorem getLsbD_of_lt_sixteen {x : BitVec 32} (h : x.toNat < 16) {k : ℕ} (hk : 4 ≤ k) :
    x.getLsbD k = false :=
  Nat.testBit_lt_two_pow (lt_of_lt_of_le h (Nat.pow_le_pow_right (by decide) hk : 2 ^ 4 ≤ 2 ^ k))

theorem getLsbD_fifteen (k : ℕ) : (0xf : BitVec 32).getLsbD k = decide (k < 4) := by
  by_cases hk : k < 4
  · obtain rfl | rfl | rfl | rfl : k = 0 ∨ k = 1 ∨ k = 2 ∨ k = 3 := by omega
    all_goals rfl
  · rw [getLsbD_of_lt_sixteen (by decide) (by omega), decide_eq_false hk]

/-- Writing the bits of one channel leaves all others. -/
theorem getLsbD_writeChannel (x nibble : BitVec 32) {ch k : ℕ} (hnibble : nibble.toNat < 16)
    (hch : ch ≤ 4) (hk : k < 32) :
    ((x &&& ~~~shl 0xf (4 * ch)) ||| shl nibble (4 * ch)).getLsbD k =
      if 4 * ch ≤ k ∧ k < 4 * ch + 4 then nibble.getLsbD (k - 4 * ch) else x.getLsbD k := by
  have hshift : 4 * ch < 32 := by omega
  simp only [BitVec.getLsbD_or, BitVec.getLsbD_and, BitVec.getLsbD_not, getLsbD_shl _ hshift hk, hk,
    getLsbD_fifteen, decide_true, Bool.true_and]
  by_cases hle : 4 * ch ≤ k
  · by_cases hlt : k < 4 * ch + 4
    · have hlt' : k - 4 * ch < 4 := by omega
      simp [hle, hlt, hlt']
    · have hge : ¬ k - 4 * ch < 4 := by omega
      rw [getLsbD_of_lt_sixteen hnibble (Nat.not_lt.mp hge)]
      simp [hlt, hge]
  · simp [hle]

/-- Setting bits of one channel sets those of its selector and of no other. -/
theorem selector_or_shl {nibble : BitVec 32} (hnibble : nibble.toNat < 16)
    (x : BitVec 32) {ch j : ℕ} (hch : ch ≤ 4) (hj : j ≤ 4) :
    selector (x ||| shl nibble (4 * ch)) j =
      selector x j ||| (if j = ch then nibble.setWidth 2 else 0) := by
  refine BitVec.eq_of_getLsbD_eq fun i hi => ?_
  have hbit := getLsbD_shl nibble (n := 4 * ch) (k := 4 * j + i) (by omega) (by omega)
  simp only [selector, BitVec.getLsbD_extractLsb', BitVec.getLsbD_or, hbit, hi, decide_true,
    Bool.true_and]
  congr 1
  rcases lt_trichotomy j ch with hlt | rfl | hgt
  · have hle : ¬ 4 * ch ≤ 4 * j + i := by omega
    rw [if_neg (Nat.ne_of_lt hlt)]
    simp [hle]
  · simp [hi]
  · rw [if_neg (Nat.ne_of_gt hgt), getLsbD_of_lt_sixteen hnibble (by omega)]
    simp

/-- Clearing the bits of one channel clears its selector and no other. -/
theorem selector_clear (x : BitVec 32) {ch j : ℕ} (hch : ch ≤ 4) (hj : j ≤ 4) :
    selector (x &&& ~~~shl 0xf (4 * ch)) j = if j = ch then 0 else selector x j := by
  refine BitVec.eq_of_getLsbD_eq fun i hi => ?_
  have hbit := getLsbD_shl 0xf (n := 4 * ch) (k := 4 * j + i) (by omega) (by omega)
  have hk : 4 * j + i < 32 := by omega
  simp only [selector, BitVec.getLsbD_extractLsb', BitVec.getLsbD_and, BitVec.getLsbD_not, hbit, hi,
    hk, decide_true, Bool.true_and]
  rcases lt_trichotomy j ch with hlt | rfl | hgt
  · have hle : ¬ 4 * ch ≤ 4 * j + i := by omega
    rw [if_neg (Nat.ne_of_lt hlt), BitVec.getLsbD_extractLsb']
    simp [hle, hi]
  · have hset : (15#32).getLsbD i = true := by
      rcases (by omega : i = 0 ∨ i = 1) with rfl | rfl <;> rfl
    simp [hset]
  · have hclear : (0xf : BitVec 32).getLsbD (4 * j + i - 4 * ch) = false :=
      getLsbD_of_lt_sixteen (by decide) (by omega)
    rw [if_neg (Nat.ne_of_gt hgt), BitVec.getLsbD_extractLsb', hclear]
    simp [hi]

/-! ### The commands -/

/-- The commands that write `IOMODE`, with the values that a PULSE reads. -/
inductive ModeCmd
  | pulse (utc : UtcReads) (cmd : WrDioCmd)
  | inout (cmd : WrDioCmd)

namespace ModeCmd

/-- The command names one of the five channels or, if it can, a mask. -/
def InRange : ModeCmd → Prop
  | pulse _ cmd => cmd.channel.toNat ≤ 4
  | inout cmd => cmd.Addressed

/-- A PULSE has connected its channel to the DIO core. -/
def Connected (d : WrnDrvdata) : ModeCmd → Prop
  | pulse _ cmd => selector d.dio.iomode cmd.channel.toNat = 1
  | inout _ => True

/-- A PULSE finds its channel not connected to the WRPC. -/
def NotFromWrpc (d : WrnDrvdata) : ModeCmd → Prop
  | pulse _ cmd => selector d.dio.iomode cmd.channel.toNat ≠ 2
  | inout _ => True

end ModeCmd

/-- Run a command. -/
def modeStep (d : WrnDrvdata) (c : {c : ModeCmd // c.InRange}) : WrnDrvdata :=
  match c.val with
  | .pulse utc cmd => (wrnDioCmdPulse utc d cmd).drvdata
  | .inout cmd => (wrnDioCmdInout d cmd).drvdata

/-- No selector of the five channels has its undefined setting. -/
def ModesDefined (d : WrnDrvdata) : Prop := ∀ ch ≤ 4, selector d.dio.iomode ch ≠ 3

instance (d : WrnDrvdata) : Decidable (ModesDefined d) :=
  inferInstanceAs (Decidable (∀ ch ≤ 4, selector d.dio.iomode ch ≠ 3))

/-! ### PULSE -/

theorem iomode_wrnDioCmdPulse (utc : UtcReads) (d : WrnDrvdata) {cmd : WrDioCmd}
    (hch : cmd.channel.toNat ≤ 4) :
    (wrnDioCmdPulse utc d cmd).drvdata.dio.iomode =
      d.dio.iomode ||| shl 1 (4 * cmd.channel.toNat) := by
  rw [wrnDioCmdPulse, if_neg (Nat.not_lt.mpr hch)]
  dsimp only
  split_ifs
  · rfl
  · simp only [wrnNewPulse, DioWb.rLatch, setupLoop_dio]
    rfl

/-- Bit 0 alone makes a defined setting the DIO core, but for that of the WRPC. -/
theorem or_one_eq_one_iff : ∀ sel : BitVec 2, sel ≠ 3 → (sel ||| 1 = 1 ↔ sel ≠ 2) := by decide

/-- PULSE sets bit 0 of the selector of its channel. -/
theorem selector_pulse (utc : UtcReads) (d : WrnDrvdata) {cmd : WrDioCmd}
    (hch : cmd.channel.toNat ≤ 4) {j : ℕ} (hj : j ≤ 4) :
    selector (wrnDioCmdPulse utc d cmd).drvdata.dio.iomode j =
      selector d.dio.iomode j ||| (if j = cmd.channel.toNat then 1 else 0) := by
  rw [iomode_wrnDioCmdPulse utc d hch, selector_or_shl (by decide) _ hch hj]
  rfl

/-! ### INOUT -/

theorem and_plane_ne_zero (bits : BitVec 32) {k : ℕ} {plane : BitVec 32} (hk : k < 32)
    (hplane : plane = shl 1 k) : bits &&& plane ≠ 0 ↔ bits.getLsbD k = true := by
  rw [hplane, ← shl_one_and_ne_zero hk bits, BitVec.and_comm]
  exact bne_iff_ne.symm

/-- The `IOMODE` bits of a channel, from its bits of the four planes. -/
theorem setWidth_inoutIomode_eq (bits : BitVec 32) :
    (inoutIomode bits).setWidth 4 =
      BitVec.ofBool (bits.getLsbD 24) ++ BitVec.ofBool (!bits.getLsbD 16) ++
        BitVec.ofBool (bits.getLsbD 0 && bits.getLsbD 8) ++
        BitVec.ofBool (bits.getLsbD 0 && !bits.getLsbD 8) := by
  have hdio := and_plane_ne_zero bits (k := 0) (by decide) (rfl : wrDioInoutDio = _)
  have hvalue := and_plane_ne_zero bits (k := 8) (by decide) (rfl : wrDioInoutValue = _)
  have hterm := and_plane_ne_zero bits (k := 24) (by decide) (rfl : wrDioInoutTerm = _)
  have houtput : bits &&& wrDioInoutOutput = 0 ↔ bits.getLsbD 16 = false := by
    rw [← Bool.not_eq_true, ← and_plane_ne_zero bits (k := 16) (by decide)
      (rfl : wrDioInoutOutput = _), not_not]
  simp only [inoutIomode, inoutSource, hdio, hvalue, hterm, houtput]
  generalize bits.getLsbD 0 = a
  generalize bits.getLsbD 8 = b
  generalize bits.getLsbD 16 = c
  generalize bits.getLsbD 24 = e
  revert a b c e
  decide

/-- The `IOMODE` bits of a channel are four, the two lowest selecting its source. -/
theorem inoutIomode_spec (bits : BitVec 32) :
    (inoutIomode bits).toNat < 16 ∧ (inoutIomode bits).setWidth 2 ≠ 3#2 := by
  unfold inoutIomode inoutSource
  split_ifs <;> decide

/-- INOUT replaces the selector of each of its channels. -/
theorem selector_inoutChannel (value : BitVec 32) (d : WrnDrvdata) {ch j : ℕ} (hch : ch ≤ 4)
    (hj : j ≤ 4) :
    selector (inoutChannel value d ch).dio.iomode j =
      if j = ch then (inoutIomode (value >>> (ch % 32))).setWidth 2
      else selector d.dio.iomode j := by
  simp only [inoutChannel]
  rw [selector_or_shl (inoutIomode_spec _).1 _ hch hj, selector_clear _ hch hj]
  split_ifs
  · exact BitVec.zero_or
  · exact BitVec.or_zero

theorem modesDefined_inoutChannel {d : WrnDrvdata} (hd : ModesDefined d) (value : BitVec 32)
    {ch : ℕ} (hch : ch ≤ 4) : ModesDefined (inoutChannel value d ch) := by
  intro j hj
  rw [selector_inoutChannel value d hch hj]
  split_ifs
  · exact (inoutIomode_spec _).2
  · exact hd j hj

theorem modesDefined_inout {d : WrnDrvdata} (hd : ModesDefined d) {cmd : WrDioCmd}
    (h : cmd.Addressed) : ModesDefined (wrnDioCmdInout d cmd).drvdata := by
  obtain ⟨hle, -⟩ := chSelect_le h
  rw [wrnDioCmdInout]
  generalize WrDioCmd.value _ = value
  generalize (chSelect cmd).channels = chs at hle
  induction chs generalizing d with
  | nil => exact hd
  | cons ch chs ih =>
    have hnext := modesDefined_inoutChannel hd value (hle ch List.mem_cons_self)
    exact ih hnext fun i hi => hle i (List.mem_cons_of_mem ch hi)

/-! ### The main result -/

/-- From defined settings, a command leaves defined settings, and the channel of a PULSE connected
to the DIO core, exactly when it is no PULSE on a channel connected to the WRPC. -/
theorem modeStep_iff {d : WrnDrvdata} (hd : ModesDefined d) (c : {c : ModeCmd // c.InRange}) :
    ModesDefined (modeStep d c) ∧ c.val.Connected (modeStep d c) ↔ c.val.NotFromWrpc d := by
  obtain ⟨c, hc⟩ := c
  cases c with
  | inout cmd => exact iff_of_true ⟨modesDefined_inout hd hc, trivial⟩ trivial
  | pulse utc cmd =>
    have hself := selector_pulse utc d hc hc
    rw [if_pos rfl] at hself
    have hiff := or_one_eq_one_iff _ (hd _ hc)
    rw [← hself] at hiff
    refine ⟨fun h => hiff.mp h.2, fun hok => ⟨fun j hj => ?_, hiff.mpr hok⟩⟩
    by_cases hjc : j = cmd.channel.toNat
    · subst hjc
      rw [modeStep, hiff.mpr hok]
      decide
    · rw [modeStep, selector_pulse utc d hc hj, if_neg hjc]
      exact fun h => hd j hj (BitVec.or_zero.symm.trans h)

/-- **The channel multiplexer.** From defined settings, every command of a sequence leaves defined
settings, and each PULSE its channel connected to the DIO core, exactly when no PULSE of
the sequence finds its channel connected to the WRPC. -/
theorem modes_along_iff {d : WrnDrvdata} (hd : ModesDefined d)
    (cs : List {c : ModeCmd // c.InRange}) :
    Along modeStep (fun d c => ModesDefined (modeStep d c) ∧ c.val.Connected (modeStep d c)) d cs ↔
      Along modeStep (fun d c => c.val.NotFromWrpc d) d cs :=
  along_iff_along hd (fun _ c ht hok => ((modeStep_iff ht c).mpr hok).1)
    (fun _ c ht => modeStep_iff ht c) cs

/-- A PULSE on channel 1, while channel 0 is connected to the WRPC. -/
theorem modes_along_pulse_one : Along modeStep
    (fun d c => ModesDefined (modeStep d c) ∧ c.val.Connected (modeStep d c))
    (wrnMezzanineInit { PowerOn.zero with iomode := 2 })
    [⟨.pulse ⟨0, 0, 0, 0⟩ ⟨0, 1, 0, wrDioFNow, 0, fun _ => ⟨0, 0⟩⟩,
      (by decide : (1#16).toNat ≤ 4)⟩] :=
  (modes_along_iff (by decide) _).mpr
    ⟨(by decide : selector 2 1 ≠ 2), trivial⟩

/-- A PULSE on channel 0 after an INOUT has connected it to the WRPC. -/
theorem not_forall_modes : ¬ ∀ (hw : PowerOn) (cs : List {c : ModeCmd // c.InRange}),
    ModesDefined (wrnMezzanineInit hw) → Along modeStep
      (fun d c => ModesDefined (modeStep d c) ∧ c.val.Connected (modeStep d c))
      (wrnMezzanineInit hw) cs := by
  intro hall
  obtain ⟨-, ⟨hdefined, -⟩, -⟩ := hall .zero
    [⟨.inout ⟨3, 0, wrDioInoutDio ||| wrDioInoutValue, 0, 0, fun _ => ⟨0, 0⟩⟩, Or.inr (by decide)⟩,
      ⟨.pulse ⟨0, 0, 0, 0⟩ ⟨0, 0, 0, wrDioFNow, 0, fun _ => ⟨0, 0⟩⟩,
        (by decide : (0#16).toNat ≤ 4)⟩]
    (by decide)
  exact hdefined 0 (by decide) (by decide)

end SpecSw.Dio
