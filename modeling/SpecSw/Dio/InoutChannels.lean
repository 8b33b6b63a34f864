import SpecSw.Dio.Iomode

/-!
# The registers that INOUT writes

For each selected channel INOUT writes the set or the clear register of the GPIO, if the channel is
connected to that, and then `IOMODE` with the four bits of the channel replaced. The value of a
command holds four planes of eight bits, in each of which channel `c` has bit `c`; a command for a
single channel has its bits in the places of channel 0 and is shifted first.

The writes are listed in order, and applying them to the registers is what the command does
(`foldl_apply_inoutWrites`). From the bit of `IOMODE` after one channel
(`getLsbD_writeChannel`) follows each bit after all (`getLsbD_iomodeAfter`).

## Main definitions

* `Dio.InoutWrite`, `Dio.InoutWrite.apply`, `Dio.inoutWrites`: the writes of a command.
* `Dio.SetsChannel`: what the writes of a command do for a channel.

## Main results

* `Dio.inout_selected`.
-/

namespace SpecSw.Dio

/-! ### The writes -/

/-- A register write of `wrn_dio_cmd_inout`. -/
inductive InoutWrite
  | iomode (val : BitVec 32)
  | gpioSet (val : BitVec 32)
  | gpioClear (val : BitVec 32)
  deriving DecidableEq, Repr

/-- What a write does to the registers. -/
def InoutWrite.apply (d : WrnDrvdata) : InoutWrite → WrnDrvdata
  | iomode val => { d with dio := { d.dio with iomode := val } }
  | gpioSet val => { d with gpio := d.gpio ||| val }
  | gpioClear val => { d with gpio := d.gpio &&& ~~~val }

/-- The write to the GPIO in a turn of the loop, if there is one. -/
def gpioWrite (bits : BitVec 32) (ch : ℕ) : List InoutWrite :=
  if bits &&& wrDioInoutDio ≠ 0 then []
  else if bits &&& wrDioInoutValue ≠ 0 then [.gpioSet (wrnGpioValue ch)]
  else [.gpioClear (wrnGpioValue ch)]

/-- `IOMODE` as a turn of the loop writes it, from its content before. -/
def nextIomode (value iomode : BitVec 32) (ch : ℕ) : BitVec 32 :=
  (iomode &&& ~~~shl 0xf (4 * ch)) ||| shl (inoutIomode (value >>> (ch % 32))) (4 * ch)

/-- The writes of the loop over the channels, from the content of `IOMODE`. -/
def loopWrites (value : BitVec 32) : BitVec 32 → List ℕ → List InoutWrite
  | _, [] => []
  | iomode, ch :: chs =>
    gpioWrite (value >>> (ch % 32)) ch ++ InoutWrite.iomode (nextIomode value iomode ch) ::
      loopWrites value (nextIomode value iomode ch) chs

/-- The value of a command as the loop uses it. -/
def loopValue (cmd : WrDioCmd) : BitVec 32 :=
  if cmd.has wrDioFMask then cmd.value else shl cmd.value (chSelect cmd).ch

/-- The register writes of `wrn_dio_cmd_inout`, in order. -/
def inoutWrites (d : WrnDrvdata) (cmd : WrDioCmd) : List InoutWrite :=
  loopWrites (loopValue cmd) d.dio.iomode (chSelect cmd).channels

/-- A turn of the loop makes its writes. -/
theorem inoutChannel_eq (value : BitVec 32) (d : WrnDrvdata) (ch : ℕ) :
    inoutChannel value d ch =
      (gpioWrite (value >>> (ch % 32)) ch ++
        [InoutWrite.iomode (nextIomode value d.dio.iomode ch)]).foldl InoutWrite.apply d := by
  simp only [inoutChannel, gpioWrite]
  split_ifs <;> rfl

theorem foldl_apply_loopWrites (value : BitVec 32) (chs : List ℕ) (d : WrnDrvdata) :
    (loopWrites value d.dio.iomode chs).foldl InoutWrite.apply d =
      chs.foldl (inoutChannel value) d := by
  induction chs generalizing d with
  | nil => rfl
  | cons ch chs ih =>
    have hnext : (inoutChannel value d ch).dio.iomode = nextIomode value d.dio.iomode ch := rfl
    rw [List.foldl_cons, ← ih, hnext, inoutChannel_eq, ← List.foldl_append, loopWrites,
      List.append_assoc]
    rfl

/-- The command does what its writes do. -/
theorem foldl_apply_inoutWrites (d : WrnDrvdata) (cmd : WrDioCmd) :
    (wrnDioCmdInout d cmd).drvdata = (inoutWrites d cmd).foldl InoutWrite.apply d := by
  rw [inoutWrites, foldl_apply_loopWrites, loopValue, wrnDioCmdInout]
  split_ifs <;> rfl

/-! ### `IOMODE` after the loop -/

section Loop

variable (value : BitVec 32) {chs : List ℕ}

theorem iomode_foldl (chs : List ℕ) (d : WrnDrvdata) :
    (chs.foldl (inoutChannel value) d).dio.iomode = chs.foldl (nextIomode value) d.dio.iomode := by
  induction chs generalizing d with
  | nil => rfl
  | cons ch chs ih => exact ih (inoutChannel value d ch)

/-- Each bit of a channel of the loop is that of its four bits, and every other bit is unchanged. -/
theorem getLsbD_iomodeAfter (hchs : ∀ ch ∈ chs, ch ≤ 4) (iomode : BitVec 32) {k : ℕ}
    (hk : k < 32) :
    (chs.foldl (nextIomode value) iomode).getLsbD k =
      if k / 4 ∈ chs then (inoutIomode (value >>> (k / 4))).getLsbD (k % 4)
      else iomode.getLsbD k := by
  induction chs generalizing iomode with
  | nil => rfl
  | cons ch chs ih =>
    have hch := hchs ch List.mem_cons_self
    rw [List.foldl_cons, ih (fun c hc => hchs c (List.mem_cons_of_mem ch hc)), nextIomode,
      getLsbD_writeChannel _ _ (inoutIomode_spec _).1 hch hk, Nat.mod_eq_of_lt (by omega : ch < 32)]
    by_cases hself : k / 4 = ch
    · subst hself
      have hin : 4 * (k / 4) ≤ k ∧ k < 4 * (k / 4) + 4 := by omega
      rw [if_pos hin, if_pos List.mem_cons_self, show k - 4 * (k / 4) = k % 4 by omega, ite_self]
    · have hout : ¬ (4 * ch ≤ k ∧ k < 4 * ch + 4) := by omega
      rw [if_neg hout]
      simp only [List.mem_cons, hself, false_or]

/-- The four bits of a channel of the loop. -/
theorem extractLsb'_iomodeAfter (hchs : ∀ ch ∈ chs, ch ≤ 4) (iomode : BitVec 32) {ch : ℕ}
    (hch : ch ∈ chs) :
    (chs.foldl (nextIomode value) iomode).extractLsb' (4 * ch) 4 =
      BitVec.ofBool (value.getLsbD (24 + ch)) ++ BitVec.ofBool (!value.getLsbD (16 + ch)) ++
        BitVec.ofBool (value.getLsbD ch && value.getLsbD (8 + ch)) ++
        BitVec.ofBool (value.getLsbD ch && !value.getLsbD (8 + ch)) := by
  have hle := hchs ch hch
  have hbits := setWidth_inoutIomode_eq (value >>> ch)
  simp only [BitVec.getLsbD_ushiftRight, Nat.add_comm ch, Nat.zero_add] at hbits
  rw [← hbits]
  refine BitVec.eq_of_getLsbD_eq fun i hi => ?_
  rw [BitVec.getLsbD_extractLsb', getLsbD_iomodeAfter value hchs iomode (by omega),
    if_pos (by rwa [show (4 * ch + i) / 4 = ch by omega]), show (4 * ch + i) / 4 = ch by omega,
    show (4 * ch + i) % 4 = i by omega, BitVec.getLsbD_setWidth]

/-! ### The writes to the GPIO -/

/-- A write to the set register, or to the clear register, is that of a channel of the loop. -/
theorem mem_loopWrites {iomode : BitVec 32} {w : InoutWrite}
    (hw : ∀ val, w ≠ .iomode val) :
    w ∈ loopWrites value iomode chs ↔ ∃ ch ∈ chs, w ∈ gpioWrite (value >>> (ch % 32)) ch := by
  induction chs generalizing iomode with
  | nil => simp [loopWrites]
  | cons ch chs ih =>
    rw [loopWrites, List.mem_append, List.mem_cons, or_iff_right (hw _), ih]
    simp only [List.exists_mem_cons_iff]

theorem mem_gpioWrite {bits : BitVec 32} {ch : ℕ} {w : InoutWrite} :
    w ∈ gpioWrite bits ch ↔ bits.getLsbD 0 = false ∧
      w = if bits.getLsbD 8 then .gpioSet (wrnGpioValue ch) else .gpioClear (wrnGpioValue ch) := by
  have hdio := and_plane_ne_zero bits (k := 0) (by decide) (rfl : wrDioInoutDio = _)
  have hvalue := and_plane_ne_zero bits (k := 8) (by decide) (rfl : wrDioInoutValue = _)
  simp only [gpioWrite, hdio, hvalue]
  cases bits.getLsbD 0 with
  | true => simp
  | false => cases bits.getLsbD 8 <;> simp

theorem wrnGpioValue_inj {i j : ℕ} (hi : i ≤ 4) (hj : j ≤ 4)
    (h : wrnGpioValue i = wrnGpioValue j) : i = j := by
  have hall : ∀ i ≤ 4, ∀ j ≤ 4, wrnGpioValue i = wrnGpioValue j → i = j := by decide
  exact hall i hi j hj h

/-- What a command with the value `value` does for a selected channel: the source and the other bits
of its mode in `IOMODE`, and its writes to the GPIO. -/
structure SetsChannel (value iomode : BitVec 32) (writes : List InoutWrite) (ch : ℕ) : Prop where
  source : selector iomode ch =
    if value.getLsbD ch then (if value.getLsbD (8 + ch) then 2 else 1) else 0
  outputEnableN : iomode.getLsbD (4 * ch + 2) = !value.getLsbD (16 + ch)
  term : iomode.getLsbD (4 * ch + 3) = value.getLsbD (24 + ch)
  gpioSet : .gpioSet (wrnGpioValue ch) ∈ writes ↔
    value.getLsbD ch = false ∧ value.getLsbD (8 + ch) = true
  gpioClear : .gpioClear (wrnGpioValue ch) ∈ writes ↔
    value.getLsbD ch = false ∧ value.getLsbD (8 + ch) = false

/-- The bits of `IOMODE` are set for each channel of the loop. -/
theorem source_iomodeAfter (hchs : ∀ ch ∈ chs, ch ≤ 4) (iomode : BitVec 32) {ch : ℕ}
    (hch : ch ∈ chs) :
    selector (chs.foldl (nextIomode value) iomode) ch =
        (if value.getLsbD ch then (if value.getLsbD (8 + ch) then 2 else 1) else 0) ∧
      (chs.foldl (nextIomode value) iomode).getLsbD (4 * ch + 2) = !value.getLsbD (16 + ch) ∧
      (chs.foldl (nextIomode value) iomode).getLsbD (4 * ch + 3) = value.getLsbD (24 + ch) := by
  have hnibble := extractLsb'_iomodeAfter value hchs iomode hch
  generalize chs.foldl (nextIomode value) iomode = after at hnibble ⊢
  have hbit : ∀ i < 4, after.getLsbD (4 * ch + i) = (after.extractLsb' (4 * ch) 4).getLsbD i :=
    fun i hi => by simp [hi]
  have hsource : selector after ch = (after.extractLsb' (4 * ch) 4).setWidth 2 := by
    refine BitVec.eq_of_getLsbD_eq fun i hi => ?_
    rw [selector, BitVec.getLsbD_extractLsb', BitVec.getLsbD_setWidth, ← hbit i (by omega)]
  rw [hsource, hbit 2 (by decide), hbit 3 (by decide), hnibble]
  generalize value.getLsbD ch = a
  generalize value.getLsbD (8 + ch) = b
  generalize value.getLsbD (16 + ch) = c
  generalize value.getLsbD (24 + ch) = e
  revert a b c e
  decide

/-- The GPIO is written for each channel of the loop that is connected to it. -/
theorem gpio_mem_loopWrites (hchs : ∀ ch ∈ chs, ch ≤ 4) (iomode : BitVec 32) {ch : ℕ}
    (hch : ch ∈ chs) :
    (.gpioSet (wrnGpioValue ch) ∈ loopWrites value iomode chs ↔
        value.getLsbD ch = false ∧ value.getLsbD (8 + ch) = true) ∧
      (.gpioClear (wrnGpioValue ch) ∈ loopWrites value iomode chs ↔
        value.getLsbD ch = false ∧ value.getLsbD (8 + ch) = false) := by
  have hkey : ∀ b : Bool, (if b then InoutWrite.gpioSet (wrnGpioValue ch)
      else .gpioClear (wrnGpioValue ch)) ∈ loopWrites value iomode chs ↔
        value.getLsbD ch = false ∧ value.getLsbD (8 + ch) = b := by
    intro b
    have hmod : ∀ c ≤ 4, c % 32 = c := fun c hc => Nat.mod_eq_of_lt (by omega)
    rw [mem_loopWrites value (by cases b <;> simp)]
    simp only [mem_gpioWrite, BitVec.getLsbD_ushiftRight, Nat.add_zero]
    constructor
    · rintro ⟨c, hc, hdio, hw⟩
      obtain ⟨rfl, hval⟩ : b = value.getLsbD (c % 32 + 8) ∧ wrnGpioValue ch = wrnGpioValue c := by
        cases b <;> cases hplane : value.getLsbD (c % 32 + 8) <;> simp_all
      obtain rfl := wrnGpioValue_inj (hchs ch hch) (hchs c hc) hval
      rw [hmod ch (hchs ch hch)] at hdio
      rw [hmod ch (hchs ch hch), Nat.add_comm]
      exact ⟨hdio, rfl⟩
    · rintro ⟨hdio, rfl⟩
      refine ⟨ch, hch, ?_, ?_⟩
      · rwa [hmod ch (hchs ch hch)]
      · rw [hmod ch (hchs ch hch), Nat.add_comm]
  exact ⟨hkey true, hkey false⟩

end Loop

/-! ### The main result -/

section Main

variable (d : WrnDrvdata) {cmd : WrDioCmd}

theorem iomode_inout (cmd : WrDioCmd) :
    (wrnDioCmdInout d cmd).drvdata.dio.iomode =
      (chSelect cmd).channels.foldl (nextIomode (loopValue cmd)) d.dio.iomode := by
  rw [wrnDioCmdInout, loopValue]
  split_ifs
  · exact iomode_foldl _ _ d
  · exact iomode_foldl _ _ d

theorem mem_channels_mask (hmask : cmd.has wrDioFMask = true) (ch : ℕ) :
    ch ∈ (chSelect cmd).channels ↔ ch ≤ 4 ∧ cmd.channel.getLsbD ch = true := by
  rw [channels_mask hmask, List.mem_filter, List.mem_range, Nat.lt_succ_iff]

/-- A mask of one channel selects it. -/
theorem channels_shift {ch : ℕ} (hch : ch ≤ 4) (hmask : cmd.has wrDioFMask = true)
    (hone : cmd.channel = 1 <<< ch) : (chSelect cmd).channels = [ch] := by
  have hall : ∀ ch ≤ 4, (List.range 5).filter (1#16 <<< ch).getLsbD = [ch] := by decide
  rw [channels_mask hmask, hone]
  exact hall ch hch

theorem inoutWrites_mask (hmask : cmd.has wrDioFMask = true) :
    (∀ ch ≤ 4, cmd.channel.getLsbD ch = true →
      SetsChannel cmd.value (wrnDioCmdInout d cmd).drvdata.dio.iomode (inoutWrites d cmd) ch) ∧
    (∀ k < 32, (k / 4 ≤ 4 → cmd.channel.getLsbD (k / 4) = false) →
      (wrnDioCmdInout d cmd).drvdata.dio.iomode.getLsbD k = d.dio.iomode.getLsbD k) ∧
    ∀ w ∈ inoutWrites d cmd, (∀ val, w ≠ .iomode val) →
      ∃ ch ≤ 4, cmd.channel.getLsbD ch = true ∧
        (w = .gpioSet (wrnGpioValue ch) ∨ w = .gpioClear (wrnGpioValue ch)) := by
  have hvalue : loopValue cmd = cmd.value := if_pos hmask
  have hle : ∀ ch ∈ (chSelect cmd).channels, ch ≤ 4 :=
    fun ch hch => ((mem_channels_mask hmask ch).mp hch).1
  rw [iomode_inout, inoutWrites, hvalue]
  refine ⟨fun ch hch hbit => ?_, fun k hk hnot => ?_, fun w hw hgpio => ?_⟩
  · have hmem := (mem_channels_mask hmask ch).mpr ⟨hch, hbit⟩
    obtain ⟨hsource, houtput, hterm⟩ := source_iomodeAfter cmd.value hle d.dio.iomode hmem
    obtain ⟨hset, hclear⟩ := gpio_mem_loopWrites cmd.value hle d.dio.iomode hmem
    exact ⟨hsource, houtput, hterm, hset, hclear⟩
  · have hout : k / 4 ∉ (chSelect cmd).channels := by
      rw [mem_channels_mask hmask]
      rintro ⟨hle4, hbit⟩
      rw [hnot hle4] at hbit
      cases hbit
    rw [getLsbD_iomodeAfter cmd.value hle d.dio.iomode hk, if_neg hout]
  · obtain ⟨ch, hch, hw⟩ := (mem_loopWrites cmd.value hgpio).mp hw
    obtain ⟨hle4, hbit⟩ := (mem_channels_mask hmask ch).mp hch
    refine ⟨ch, hle4, hbit, ?_⟩
    have hwrite := (mem_gpioWrite.mp hw).2
    split_ifs at hwrite
    · exact Or.inl hwrite
    · exact Or.inr hwrite

/-- A command for one channel writes what the command for its mask writes, with the value
shifted. -/
theorem inoutWrites_single {mcmd : WrDioCmd} (hsingle : cmd.has wrDioFMask = false)
    (hch : cmd.channel.toNat ≤ 4) (hmask : mcmd.has wrDioFMask = true)
    (hchannel : mcmd.channel = 1 <<< cmd.channel.toNat)
    (hvalue : mcmd.value = shl cmd.value cmd.channel.toNat) :
    inoutWrites d cmd = inoutWrites d mcmd := by
  have hfalse : ¬ cmd.has wrDioFMask = true := by rw [hsingle]; exact Bool.false_ne_true
  have hloop : loopValue cmd = loopValue mcmd := by
    rw [loopValue, if_neg hfalse, loopValue, if_pos hmask, hvalue, chSelect, if_neg hfalse]
  rw [inoutWrites, inoutWrites, hloop, channels_single hsingle, channels_shift hch hmask hchannel]

end Main

/-- **INOUT touches exactly the selected channels.** With a mask, for any content of the registers
and any value: each selected channel gets its mode, every bit of `IOMODE` of other channels is
unchanged, the GPIO is written for selected channels only, and the command does nothing but its
writes. A command for one channel makes the same writes as one with its mask and the value
shifted. -/
theorem inout_selected (d : WrnDrvdata) :
    (∀ cmd : WrDioCmd, cmd.has wrDioFMask = true →
      (∀ ch ≤ 4, cmd.channel.getLsbD ch = true →
        SetsChannel cmd.value (wrnDioCmdInout d cmd).drvdata.dio.iomode (inoutWrites d cmd) ch) ∧
      (∀ k < 32, (k / 4 ≤ 4 → cmd.channel.getLsbD (k / 4) = false) →
        (wrnDioCmdInout d cmd).drvdata.dio.iomode.getLsbD k = d.dio.iomode.getLsbD k) ∧
      ∀ w ∈ inoutWrites d cmd, (∀ val, w ≠ .iomode val) →
        ∃ ch ≤ 4, cmd.channel.getLsbD ch = true ∧
          (w = .gpioSet (wrnGpioValue ch) ∨ w = .gpioClear (wrnGpioValue ch))) ∧
    (∀ cmd, (wrnDioCmdInout d cmd).drvdata = (inoutWrites d cmd).foldl InoutWrite.apply d) ∧
    ∀ cmd mcmd : WrDioCmd, cmd.has wrDioFMask = false → cmd.channel.toNat ≤ 4 →
      mcmd.has wrDioFMask = true → mcmd.channel = 1 <<< cmd.channel.toNat →
      mcmd.value = shl cmd.value cmd.channel.toNat → inoutWrites d cmd = inoutWrites d mcmd :=
  ⟨fun _ hmask => inoutWrites_mask d hmask, foldl_apply_inoutWrites d,
    fun _ _ hsingle hch hmask hchannel hvalue =>
      inoutWrites_single d hsingle hch hmask hchannel hvalue⟩

/-- Channels 0 and 2 of the GPIO, the first low and the second high. -/
def gpioCmd : WrDioCmd := ⟨3, 5, 0x00050400, wrDioFMask, 0, fun _ => ⟨0, 0⟩⟩

/-- A card whose channels are all outputs of the DIO core. -/
def outputCard : WrnDrvdata := wrnMezzanineInit { PowerOn.zero with iomode := 0x11111 }

theorem inout_selected_gpio :
    inoutWrites outputCard gpioCmd =
      [.gpioClear 1, .iomode 0x11110, .gpioSet 0x100, .iomode 0x11010] ∧
    SetsChannel gpioCmd.value (wrnDioCmdInout outputCard gpioCmd).drvdata.dio.iomode
      (inoutWrites outputCard gpioCmd) 2 :=
  ⟨by decide, ((inout_selected outputCard).1 gpioCmd (by decide)).1 2 (by decide) (by decide)⟩

end SpecSw.Dio
