import SpecSw.Carrier.Gpio
import SpecSw.Library.LastWrite

/-!
# Configuring pins by lists

`spec_gpio_config` configures the pins that the entries of a list name, one after the other, with
reads and writes of registers that hold one bit for each pin. In each register, the bit of a pin is
what the last entry that writes it makes it.

The bit of `GNGPIO_INT_ON_ANY`, which is for both edges, is always cleared, so an entry that asks
for both edges gets the rising ones.

## Main definitions

* `Carrier.PinReg`, `Carrier.Gennum.pinReg`: the registers that are written.
* `Carrier.FmcGpio.pin`, `Carrier.FmcGpio.writes`: the pin of an entry, and what it writes.
* `Carrier.PinAsDemanded`, `Carrier.PinByPin`.

## Main results

* `Carrier.gpioConfig_pinByPin`, `Carrier.not_forall_pinByPin`.
-/

namespace SpecSw.Carrier

open LastWrite

/-! ### Bits of registers -/

/-- The registers of the pins. -/
inductive PinReg
  | directionMode
  | outputEnable
  | outputValue
  | intMask
  | intType
  | intValue
  | intOnAny
  deriving DecidableEq, Repr

/-- The content of a register. -/
def Gennum.pinReg (g : Gennum) : PinReg → BitVec 32
  | .directionMode => g.directionMode
  | .outputEnable => g.outputEnable
  | .outputValue => g.outputValue
  | .intMask => g.intMask
  | .intType => g.intType
  | .intValue => g.intValue
  | .intOnAny => g.intOnAny

/-- The registers are determined by the bits of the pins and the two that are not written. -/
theorem Gennum.ext_pinReg {g g' : Gennum} (hmsi : g.msiControl = g'.msiControl)
    (hinput : g.inputValue = g'.inputValue)
    (h : ∀ r, ∀ k < 32, (g.pinReg r).getLsbD k = (g'.pinReg r).getLsbD k) : g = g' := by
  have hreg (r : PinReg) : g.pinReg r = g'.pinReg r := BitVec.eq_of_getLsbD_eq (h r)
  exact Gennum.ext hmsi (hreg .directionMode) (hreg .outputEnable) (hreg .outputValue) hinput
    (hreg .intMask) (hreg .intType) (hreg .intValue) (hreg .intOnAny)

theorem getLsbD_bit {p k : ℕ} (hp : p < 32) : (1#32 <<< p).getLsbD k = decide (k = p) := by
  rw [← BitVec.twoPow_eq, BitVec.getLsbD_twoPow]
  by_cases hk : k = p
  · simp [hk, hp]
  · simp [hk, Ne.symm hk]

/-- `gennum_mask_val` with the bit of one pin sets or clears that bit. -/
theorem getLsbD_gennumMaskVal {p k : ℕ} (hp : p < 32) (hk : k < 32) (P : Prop) [Decidable P]
    (reg : BitVec 32) :
    (gennumMaskVal (1#32 <<< p) (if P then 1#32 <<< p else 0) reg).getLsbD k =
      if k = p then decide P else reg.getLsbD k := by
  rw [gennumMaskVal, BitVec.getLsbD_or, BitVec.getLsbD_and, BitVec.getLsbD_not, getLsbD_bit hp]
  by_cases hP : P
  · rw [if_pos hP, getLsbD_bit hp]
    by_cases hkp : k = p <;> simp [hkp, hk, hP]
  · rw [if_neg hP]
    by_cases hkp : k = p <;> simp [hkp, hk, hP]

theorem getLsbD_gennumMaskVal_set {p k : ℕ} (hp : p < 32) (hk : k < 32) (reg : BitVec 32) :
    (gennumMaskVal (1#32 <<< p) (1#32 <<< p) reg).getLsbD k =
      if k = p then true else reg.getLsbD k := by
  simpa using getLsbD_gennumMaskVal hp hk True reg

theorem getLsbD_gennumMaskVal_clear {p k : ℕ} (hp : p < 32) (hk : k < 32) (reg : BitVec 32) :
    (gennumMaskVal (1#32 <<< p) 0 reg).getLsbD k = if k = p then false else reg.getLsbD k := by
  simpa using getLsbD_gennumMaskVal hp hk False reg

/-! ### What an entry writes -/

namespace FmcGpio

variable (e : FmcGpio)

/-- The pin that the entry names. -/
def pin : ℤ :=
  if e.carrierName.isSome then e.gpio
  else if e.carrierGpio = 0 then specMapPin e.gpio else e.carrierGpio

/-- The pin is an input. -/
def isInput : Bool := decide (e.mode &&& gpiofDirIn ≠ 0)

/-- The value of an output is high. -/
def initHigh : Bool := decide (e.mode &&& gpiofInitHigh ≠ 0)

/-- An interrupt trigger is given. -/
def hasTrigger : Bool := decide (e.irqmode &&& irqfTriggerMask ≠ 0)

/-- The trigger is the high level or the rising edge. -/
def highOrRising : Bool := decide (e.irqmode &&& (irqfTriggerHigh ||| irqfTriggerRising) ≠ 0)

/-- The trigger is a level. -/
def isLevel : Bool := decide (e.irqmode &&& (irqfTriggerHigh ||| irqfTriggerLow) ≠ 0)

/-- What the direction part of `spec_cfg_pin` makes the bit of the pin in a register, if it writes
it. -/
def setsDirection : PinReg → Option Bool
  | .directionMode => some e.isInput
  | .outputEnable => some !e.isInput
  | .outputValue => if e.isInput then none else some e.initHigh
  | _ => none

/-- The same for the interrupt part. -/
def setsInterrupt : PinReg → Option Bool
  | .intMask => some !e.hasTrigger
  | .intType => if e.hasTrigger then some e.isLevel else none
  | .intValue => if e.hasTrigger then some e.highOrRising else none
  | .intOnAny => if e.hasTrigger then some false else none
  | _ => none

/-- What the entry makes the bit `k` of a register, if it writes it. -/
def writes (r : PinReg) (k : ℕ) : Option Bool :=
  if e.forOther = false ∧ e.pin = k then (e.setsInterrupt r).or (e.setsDirection r) else none

/-- The pin is one of the carrier's, and the mode has no other bits than `valid_bits`. -/
def Valid : Prop :=
  (0 ≤ e.pin ∧ e.pin ≤ 15) ∧
    e.mode &&& ~~~(gpiofDirIn ||| gpiofDirOut ||| gpiofInitHigh ||| gpiofInitLow) = 0

instance : Decidable e.Valid := inferInstanceAs (Decidable (_ ∧ _))

end FmcGpio

section Entry

variable {e : FmcGpio} {p k : ℕ}

/-- The direction part of `spec_cfg_pin`, for each register. -/
theorem pinReg_cfgDirection (hp : p < 32) (hk : k < 32) (g : Gennum) (r : PinReg) :
    ((cfgDirection (1#32 <<< p) e.mode g).2.pinReg r).getLsbD k =
      (if k = p then e.setsDirection r else none).getD ((g.pinReg r).getLsbD k) := by
  rw [cfgDirection]
  by_cases hin : e.mode &&& gpiofDirIn ≠ 0
  · have hinput : e.isInput = true := decide_eq_true hin
    rw [if_pos hin]
    cases r <;>
      simp only [Gennum.pinReg, FmcGpio.setsDirection, hinput, getLsbD_gennumMaskVal_set hp hk,
        getLsbD_gennumMaskVal_clear hp hk, if_true] <;>
      split_ifs <;> rfl
  · have hinput : e.isInput = false := decide_eq_false hin
    rw [if_neg hin]
    cases r <;>
      simp only [Gennum.pinReg, FmcGpio.setsDirection, hinput, getLsbD_gennumMaskVal hp hk,
        getLsbD_gennumMaskVal_set hp hk, getLsbD_gennumMaskVal_clear hp hk, Bool.false_eq_true,
        if_false] <;>
      split_ifs <;> rfl

/-- The interrupt part of `spec_cfg_pin`, for each register. -/
theorem pinReg_cfgInterrupt (hp : p < 32) (hk : k < 32) (g : Gennum) (r : PinReg) :
    ((cfgInterrupt (1#32 <<< p) e.irqmode g).pinReg r).getLsbD k =
      (if k = p then e.setsInterrupt r else none).getD ((g.pinReg r).getLsbD k) := by
  rw [cfgInterrupt]
  by_cases hnone : e.irqmode &&& irqfTriggerMask = 0
  · have htrigger : e.hasTrigger = false := decide_eq_false (not_not.mpr hnone)
    rw [if_pos hnone]
    cases r <;>
      simp only [Gennum.pinReg, Gennum.intMaskSet, FmcGpio.setsInterrupt, htrigger,
        BitVec.getLsbD_or, getLsbD_bit hp, Bool.false_eq_true, if_false] <;>
      split_ifs with hkp <;> simp [hkp]
  · have htrigger : e.hasTrigger = true := decide_eq_true hnone
    rw [if_neg hnone]
    cases r <;>
      simp only [Gennum.pinReg, Gennum.intMaskClr, FmcGpio.setsInterrupt, htrigger,
        getLsbD_gennumMaskVal hp hk, getLsbD_gennumMaskVal_clear hp hk, BitVec.getLsbD_and,
        BitVec.getLsbD_not, getLsbD_bit hp, if_true] <;>
      split_ifs with hkp <;> simp [hkp, hk, FmcGpio.isLevel, FmcGpio.highOrRising]

/-- `spec_cfg_pin` fails exactly for another pin than one of the carrier's or another mode. -/
theorem specCfgPin_nonneg_iff (g : Gennum) :
    0 ≤ (specCfgPin e.pin e.mode e.irqmode g).1 ↔ e.Valid := by
  have hdirection (bit mode : BitVec 32) : 0 ≤ (cfgDirection bit mode g).1 := by
    rw [cfgDirection]
    split_ifs <;> simp
  have hnodev : ¬0 ≤ -Errno.enodev := by decide
  have hinval : ¬0 ≤ -Errno.einval := by decide
  rw [specCfgPin]
  by_cases hpin : e.pin < 0 ∨ 15 < e.pin
  · rw [if_pos hpin]
    refine iff_of_false hnodev fun h => ?_
    have hrange := h.1
    omega
  · by_cases hmode :
        e.mode &&& ~~~(gpiofDirIn ||| gpiofDirOut ||| gpiofInitHigh ||| gpiofInitLow) = 0
    · rw [if_neg hpin, if_neg (not_not.mpr hmode)]
      exact iff_of_true (hdirection _ _) ⟨by omega, hmode⟩
    · rw [if_neg hpin, if_pos hmode]
      exact iff_of_false hinval fun h => hmode h.2

/-- `spec_cfg_pin`, for each register. -/
theorem pinReg_specCfgPin (he : e.Valid) (hk : k < 32) (g : Gennum) (r : PinReg) :
    ((specCfgPin e.pin e.mode e.irqmode g).2.pinReg r).getLsbD k =
      (if e.pin = k then (e.setsInterrupt r).or (e.setsDirection r) else none).getD
        ((g.pinReg r).getLsbD k) := by
  have hrange := he.1
  have hp : e.pin.toNat < 32 := by omega
  rw [specCfgPin, if_neg (by omega), if_neg (not_not.mpr he.2), pinReg_cfgInterrupt hp hk,
    pinReg_cfgDirection hp hk]
  by_cases hkp : e.pin = k
  · rw [if_pos (by omega), if_pos (by omega), if_pos hkp, Option.getD_or]
  · rw [if_neg (by omega), if_neg (by omega), if_neg hkp]
    rfl

theorem specCfgPin_otherRegs (p : ℤ) (mode imode : BitVec 32) (g : Gennum) :
    (specCfgPin p mode imode g).2.msiControl = g.msiControl ∧
      (specCfgPin p mode imode g).2.inputValue = g.inputValue := by
  simp only [specCfgPin, cfgDirection, cfgInterrupt, Gennum.intMaskSet, Gennum.intMaskClr]
  split_ifs <;> exact ⟨rfl, rfl⟩

end Entry

/-! ### The loop over a list -/

namespace FmcGpio

/-- The entry as `spec_gpio_config` leaves it. -/
def mapped (e : FmcGpio) : FmcGpio := if e.forOther then e else { e with carrierGpio := e.pin }

/-- The registers after the entry. -/
def configure (g : Gennum) (e : FmcGpio) : Gennum :=
  if e.forOther then g else (specCfgPin e.pin e.mode e.irqmode g).2

variable {e : FmcGpio}

theorem resolve_of_nonneg (h : 0 ≤ e.pin) : e.resolve = .ok { e with carrierGpio := e.pin } := by
  rw [pin] at *
  rw [resolve]
  split_ifs at * with hname hgpio hmap
  · rfl
  · omega
  · rfl
  · rfl

theorem resolve_of_neg (h : e.pin < 0) :
    e.resolve = .ok { e with carrierGpio := e.pin } ∨ e.resolve = .error e.pin := by
  rw [pin] at *
  rw [resolve]
  split_ifs at * with hname hgpio
  · exact Or.inl rfl
  · exact Or.inr rfl
  · exact Or.inl rfl

@[simp] theorem mapped_forOther (e : FmcGpio) : e.mapped.forOther = e.forOther := by
  rw [mapped]
  split_ifs <;> rfl

@[simp] theorem mapped_pin (e : FmcGpio) : e.mapped.pin = e.pin := by
  rw [mapped]
  split_ifs with hother
  · rfl
  · simp only [pin]
    split_ifs <;> simp_all

@[simp] theorem mapped_mapped (e : FmcGpio) : e.mapped.mapped = e.mapped := by
  rw [mapped, mapped_forOther, mapped_pin, mapped]
  split_ifs <;> rfl

theorem mapped_mode (e : FmcGpio) : e.mapped.mode = e.mode ∧ e.mapped.irqmode = e.irqmode := by
  rw [mapped]
  split_ifs <;> exact ⟨rfl, rfl⟩

theorem configure_mapped (g : Gennum) (e : FmcGpio) : configure g e.mapped = configure g e := by
  rw [configure, mapped_forOther, mapped_pin, (mapped_mode e).1, (mapped_mode e).2, configure]

theorem valid_mapped (e : FmcGpio) : e.mapped.Valid ↔ e.Valid := by
  rw [Valid, mapped_pin, (mapped_mode e).1, Valid]

end FmcGpio

section Loop

variable {e : FmcGpio} {es : List FmcGpio} {done : ℕ} {retval : ℤ} {g : Gennum}

theorem gpioConfigLoop_cons_other (h : e.forOther = true) :
    gpioConfigLoop (e :: es) done retval g =
      ((gpioConfigLoop es done retval g).1,
        e.mapped :: (gpioConfigLoop es done retval g).2.1,
        (gpioConfigLoop es done retval g).2.2) := by
  rw [gpioConfigLoop, if_pos h, FmcGpio.mapped, if_pos h]

theorem gpioConfigLoop_cons_valid (h : e.forOther = false) (hvalid : e.Valid) :
    gpioConfigLoop (e :: es) done retval g =
      let r := gpioConfigLoop es (done + 1)
        (retval + (specCfgPin e.pin e.mode e.irqmode g).1) (e.configure g)
      (r.1, e.mapped :: r.2.1, r.2.2) := by
  have hneg : ¬(specCfgPin e.pin e.mode e.irqmode g).1 < 0 :=
    not_lt.mpr ((specCfgPin_nonneg_iff g).mpr hvalid)
  rw [gpioConfigLoop, FmcGpio.resolve_of_nonneg hvalid.1.1]
  simp only [h, Bool.false_eq_true, if_false, if_neg hneg, FmcGpio.mapped, FmcGpio.configure]

theorem gpioConfigLoop_cons_invalid (h : e.forOther = false) (hvalid : ¬e.Valid) :
    (gpioConfigLoop (e :: es) done retval g).1 < 0 := by
  have hcfg : (specCfgPin e.pin e.mode e.irqmode g).1 < 0 :=
    not_le.mp fun hle => hvalid ((specCfgPin_nonneg_iff g).mp hle)
  rw [gpioConfigLoop, if_neg (ne_true_of_eq_false h)]
  rcases lt_or_ge e.pin 0 with hpin | hpin
  · rcases FmcGpio.resolve_of_neg hpin with hres | hres
    · simpa only [hres, if_pos hcfg] using hcfg
    · simpa only [hres] using hpin
  · simpa only [FmcGpio.resolve_of_nonneg hpin, if_pos hcfg] using hcfg

/-- The list is configured when some entry is for this carrier and all that are can be. -/
theorem gpioConfigLoop_nonneg_iff (hretval : 0 ≤ retval) :
    0 ≤ (gpioConfigLoop es done retval g).1 ↔
      (done ≠ 0 ∨ ∃ e ∈ es, e.forOther = false) ∧ ∀ e ∈ es, e.forOther = false → e.Valid := by
  induction es generalizing done retval g with
  | nil =>
    by_cases hdone : done = 0 <;> simp [gpioConfigLoop, hdone, hretval, Errno.enodev]
  | cons e es ih =>
    cases hother : e.forOther with
    | true =>
      rw [gpioConfigLoop_cons_other hother, ih hretval]
      simp [hother]
    | false =>
      by_cases hvalid : e.Valid
      · have hret := (specCfgPin_nonneg_iff g).mpr hvalid
        rw [gpioConfigLoop_cons_valid hother hvalid, ih (by omega)]
        simp [hother, hvalid]
      · refine iff_of_false (not_le.mpr (gpioConfigLoop_cons_invalid hother hvalid)) fun h => ?_
        exact hvalid (h.2 e List.mem_cons_self hother)

/-- When all entries can be configured, they are mapped and configured in order. -/
theorem gpioConfigLoop_snd (h : ∀ e ∈ es, e.forOther = false → e.Valid) :
    (gpioConfigLoop es done retval g).2 =
      (es.map FmcGpio.mapped, es.foldl FmcGpio.configure g) := by
  induction es generalizing done retval g with
  | nil => rfl
  | cons e es ih =>
    have htail := fun e' he' => h e' (List.mem_cons_of_mem e he')
    cases hother : e.forOther with
    | true =>
      rw [gpioConfigLoop_cons_other hother, ih htail, List.map_cons, List.foldl_cons,
        FmcGpio.configure, if_pos hother]
    | false =>
      rw [gpioConfigLoop_cons_valid hother (h e List.mem_cons_self hother)]
      simp only [ih htail, List.map_cons, List.foldl_cons]

/-- Entries for other carriers are passed over. -/
theorem gpioConfigLoop_filter :
    (gpioConfigLoop (es.filter fun e => !e.forOther) done retval g).1 =
        (gpioConfigLoop es done retval g).1 ∧
      (gpioConfigLoop (es.filter fun e => !e.forOther) done retval g).2.2 =
        (gpioConfigLoop es done retval g).2.2 := by
  induction es generalizing done retval g with
  | nil => exact ⟨rfl, rfl⟩
  | cons e es ih =>
    cases hother : e.forOther with
    | true => simpa [hother, gpioConfigLoop_cons_other hother] using ih
    | false =>
      simp only [List.filter_cons, hother, Bool.not_false, if_true, gpioConfigLoop,
        Bool.false_eq_true, if_false]
      split
      · exact ⟨rfl, rfl⟩
      · split_ifs
        · exact ⟨rfl, rfl⟩
        · exact ih

end Loop

/-! ### Pin by pin -/

section Cells

variable {es : List FmcGpio} {k : ℕ}

/-- One entry, for each register. -/
theorem pinReg_configure {e : FmcGpio} (h : e.forOther = false → e.Valid) (hk : k < 32)
    (g : Gennum) (r : PinReg) :
    ((e.configure g).pinReg r).getLsbD k = (e.writes r k).getD ((g.pinReg r).getLsbD k) := by
  rw [FmcGpio.configure, FmcGpio.writes]
  cases hother : e.forOther with
  | true => rfl
  | false =>
    rw [if_neg Bool.false_ne_true, pinReg_specCfgPin (h hother) hk]
    simp only [true_and]

/-- A list of entries, for each register. -/
theorem pinReg_foldl_configure (h : ∀ e ∈ es, e.forOther = false → e.Valid) (hk : k < 32)
    (g : Gennum) (r : PinReg) :
    ((es.foldl FmcGpio.configure g).pinReg r).getLsbD k =
      after (fun e => e.writes r k) es ((g.pinReg r).getLsbD k) := by
  have hstep (g : Gennum) : ∀ e ∈ es, ((e.configure g).pinReg r).getLsbD k =
      (e.writes r k).getD ((g.pinReg r).getLsbD k) :=
    fun e he => pinReg_configure (h e he) hk g r
  exact @cell_foldl _ _ _ _ _ _ (fun g => (g.pinReg r).getLsbD k) hstep g

theorem foldl_configure_otherRegs (es : List FmcGpio) (g : Gennum) :
    (es.foldl FmcGpio.configure g).msiControl = g.msiControl ∧
      (es.foldl FmcGpio.configure g).inputValue = g.inputValue := by
  induction es generalizing g with
  | nil => exact ⟨rfl, rfl⟩
  | cons e es ih =>
    have hstep : (e.configure g).msiControl = g.msiControl ∧
        (e.configure g).inputValue = g.inputValue := by
      rw [FmcGpio.configure]
      split_ifs
      · exact ⟨rfl, rfl⟩
      · exact specCfgPin_otherRegs _ _ _ g
    rw [List.foldl_cons, (ih _).1, (ih _).2]
    exact hstep

theorem foldl_configure_mapped (es : List FmcGpio) (g : Gennum) :
    (es.map FmcGpio.mapped).foldl FmcGpio.configure g = es.foldl FmcGpio.configure g := by
  rw [List.foldl_map]
  exact congrArg (fun f => es.foldl f g) (funext₂ fun g e => FmcGpio.configure_mapped g e)

end Cells

/-- The registers, when the input pins have other values. -/
def Gennum.withInputs (g : Gennum) (value : BitVec 32) : Gennum := { g with inputValue := value }

/-- Configuring the list once more, when the input pins may have changed, leaves the registers. -/
theorem foldl_configure_again {es : List FmcGpio} (h : ∀ e ∈ es, e.forOther = false → e.Valid)
    (g : Gennum) (value : BitVec 32) :
    es.foldl FmcGpio.configure ((es.foldl FmcGpio.configure g).withInputs value) =
      (es.foldl FmcGpio.configure g).withInputs value := by
  have hinputs (g : Gennum) (r : PinReg) : (g.withInputs value).pinReg r = g.pinReg r := by
    cases r <;> rfl
  have hother := foldl_configure_otherRegs es ((es.foldl FmcGpio.configure g).withInputs value)
  refine Gennum.ext_pinReg hother.1 hother.2 fun r k hk => ?_
  rw [pinReg_foldl_configure h hk, hinputs, pinReg_foldl_configure h hk, after_after]

/-- The bits of a pin are what an entry demands. -/
structure PinAsDemanded (onAny : FmcGpio → Bool) (e : FmcGpio) (g : Gennum) (k : ℕ) : Prop where
  direction : g.directionMode.getLsbD k = e.isInput
  outputEnable : g.outputEnable.getLsbD k = !e.isInput
  outputValue : e.isInput = false → g.outputValue.getLsbD k = e.initHigh
  intMask : g.intMask.getLsbD k = !e.hasTrigger
  intValue : e.hasTrigger = true → g.intValue.getLsbD k = e.highOrRising
  intType : e.hasTrigger = true → g.intType.getLsbD k = e.isLevel
  intOnAny : e.hasTrigger = true → g.intOnAny.getLsbD k = onAny e

/-- `spec_gpio_config` acts pin by pin: the bits of a pin that is named are what the last entry
demands, the other bits are left, entries for other carriers are passed over, and running the list
again changes nothing. -/
structure PinByPin (onAny : FmcGpio → Bool) (es : List FmcGpio) (g : Gennum) : Prop where
  last : ∀ (before rest : List FmcGpio) (e : FmcGpio),
    es = before ++ e :: rest → e.forOther = false →
    (∀ e' ∈ rest, e'.forOther = false → e'.pin ≠ e.pin) →
    ∃ k : ℕ, k < 16 ∧ e.pin = k ∧ PinAsDemanded onAny e (specGpioConfig es g).2.2 k
  others : ∀ k : ℕ, k < 32 → (∀ e ∈ es, e.forOther = false → e.pin ≠ k) → ∀ r : PinReg,
    ((specGpioConfig es g).2.2.pinReg r).getLsbD k = (g.pinReg r).getLsbD k
  otherRegs : (specGpioConfig es g).2.2.msiControl = g.msiControl ∧
    (specGpioConfig es g).2.2.inputValue = g.inputValue
  otherCarriers :
    (specGpioConfig (es.filter fun e => !e.forOther) g).1 = (specGpioConfig es g).1 ∧
      (specGpioConfig (es.filter fun e => !e.forOther) g).2.2 = (specGpioConfig es g).2.2 ∧
      ∀ (i : ℕ) (e : FmcGpio), es[i]? = some e → e.forOther = true →
        (specGpioConfig es g).2.1[i]? = some e
  again : ∀ (value : BitVec 32) (es' : List FmcGpio),
    es' = es ∨ es' = (specGpioConfig es g).2.1 →
    0 ≤ (specGpioConfig es' ((specGpioConfig es g).2.2.withInputs value)).1 ∧
      (specGpioConfig es' ((specGpioConfig es g).2.2.withInputs value)).2 =
        ((specGpioConfig es g).2.1, (specGpioConfig es g).2.2.withInputs value)

section PinByPin

variable {es before rest : List FmcGpio} {e : FmcGpio} {g : Gennum}

/-- What the last entry for a pin writes is what the pin has. -/
theorem pinReg_of_last (h : ∀ e' ∈ before ++ e :: rest, e'.forOther = false → e'.Valid)
    (hother : e.forOther = false)
    (hlast : ∀ e' ∈ rest, e'.forOther = false → e'.pin ≠ e.pin) {r : PinReg} {b : Bool}
    (hb : (e.setsInterrupt r).or (e.setsDirection r) = some b) :
    (((before ++ e :: rest).foldl FmcGpio.configure g).pinReg r).getLsbD e.pin.toNat = b := by
  have hrange := (h e (by simp) hother).1
  rw [pinReg_foldl_configure h (by omega)]
  refine after_of_last ?_ fun e' he' => ?_
  · rw [FmcGpio.writes, if_pos ⟨hother, by omega⟩, hb]
  · refine if_neg fun hwrites => hlast e' he' hwrites.1 ?_
    rw [hwrites.2]
    omega

/-- The last entry for a pin makes it what it demands, with interrupts on one edge. -/
theorem pinAsDemanded_of_last (h : ∀ e' ∈ before ++ e :: rest, e'.forOther = false → e'.Valid)
    (hother : e.forOther = false)
    (hlast : ∀ e' ∈ rest, e'.forOther = false → e'.pin ≠ e.pin) :
    PinAsDemanded (fun _ => false) e ((before ++ e :: rest).foldl FmcGpio.configure g)
      e.pin.toNat := by
  have hreg {r : PinReg} {b : Bool} := @pinReg_of_last _ _ _ g h hother hlast r b
  refine ⟨hreg (r := .directionMode) rfl, hreg (r := .outputEnable) rfl, fun hinput => ?_,
    hreg (r := .intMask) rfl, fun htrigger => ?_, fun htrigger => ?_, fun htrigger => ?_⟩
  · exact hreg (r := .outputValue) (by simp [FmcGpio.setsInterrupt, FmcGpio.setsDirection, hinput])
  · exact hreg (r := .intValue) (by simp [FmcGpio.setsInterrupt, htrigger])
  · exact hreg (r := .intType) (by simp [FmcGpio.setsInterrupt, htrigger])
  · exact hreg (r := .intOnAny) (by simp [FmcGpio.setsInterrupt, htrigger])

/-- A list whose registers are already as it leaves them. -/
theorem specGpioConfig_of_configured (hvalid : ∀ e ∈ es, e.forOther = false → e.Valid)
    (hsome : ∃ e ∈ es, e.forOther = false) (hg : es.foldl FmcGpio.configure g = g) :
    0 ≤ (specGpioConfig es g).1 ∧ (specGpioConfig es g).2 = (es.map FmcGpio.mapped, g) := by
  refine ⟨(gpioConfigLoop_nonneg_iff le_rfl).mpr ⟨Or.inr hsome, hvalid⟩, ?_⟩
  rw [specGpioConfig, gpioConfigLoop_snd hvalid, hg]

/-- The same for the list with the pins that it has kept. -/
theorem specGpioConfig_mapped_of_configured (hvalid : ∀ e ∈ es, e.forOther = false → e.Valid)
    (hsome : ∃ e ∈ es, e.forOther = false) (hg : es.foldl FmcGpio.configure g = g) :
    0 ≤ (specGpioConfig (es.map FmcGpio.mapped) g).1 ∧
      (specGpioConfig (es.map FmcGpio.mapped) g).2 = (es.map FmcGpio.mapped, g) := by
  have hvalid' : ∀ e ∈ es.map FmcGpio.mapped, e.forOther = false → e.Valid :=
    List.forall_mem_map.mpr fun e he hother =>
      (FmcGpio.valid_mapped e).mpr (hvalid e he (by simpa using hother))
  have hsome' : ∃ e ∈ es.map FmcGpio.mapped, e.forOther = false := by simpa using hsome
  have hg' : (es.map FmcGpio.mapped).foldl FmcGpio.configure g = g := by
    rw [foldl_configure_mapped, hg]
  have hmap : (es.map FmcGpio.mapped).map FmcGpio.mapped = es.map FmcGpio.mapped := by
    rw [List.map_map]
    exact List.map_congr_left fun e _ => FmcGpio.mapped_mapped e
  simpa only [hmap] using specGpioConfig_of_configured hvalid' hsome' hg'

/-- **A list of entries configures pin by pin.** The interrupt of a pin is never for both edges. -/
theorem gpioConfig_pinByPin (es : List FmcGpio) (g : Gennum)
    (hret : 0 ≤ (specGpioConfig es g).1) : PinByPin (fun _ => false) es g := by
  have hiff := @gpioConfigLoop_nonneg_iff es 0 0 g le_rfl
  obtain ⟨hsome, hvalid⟩ := hiff.mp hret
  have hsnd : (specGpioConfig es g).2 = (es.map FmcGpio.mapped, es.foldl FmcGpio.configure g) :=
    gpioConfigLoop_snd hvalid
  refine ⟨fun before rest e hes hother hlast => ?_, fun k hk hnone r => ?_, ?_, ?_, ?_⟩
  · subst hes
    have hrange := (hvalid e (by simp) hother).1
    rw [hsnd]
    exact ⟨e.pin.toNat, by omega, by omega, pinAsDemanded_of_last hvalid hother hlast⟩
  · rw [hsnd, pinReg_foldl_configure hvalid hk]
    exact after_of_none fun e he => if_neg fun hwrites => hnone e he hwrites.1 hwrites.2
  · rw [hsnd]
    exact foldl_configure_otherRegs es g
  · refine ⟨gpioConfigLoop_filter.1, gpioConfigLoop_filter.2, fun i e hi hother => ?_⟩
    rw [hsnd, List.getElem?_map, hi, Option.map_some, FmcGpio.mapped, if_pos hother]
  · intro value es' hes'
    have hsome' : ∃ e ∈ es, e.forOther = false := by simpa using hsome
    have hagain := foldl_configure_again hvalid g value
    rw [hsnd] at hes' ⊢
    rcases hes' with rfl | rfl
    · exact specGpioConfig_of_configured hvalid hsome' hagain
    · exact specGpioConfig_mapped_of_configured hvalid hsome' hagain

end PinByPin

/-- A virtual pin is an input with an interrupt, and then an output. -/
theorem gpioConfig_pinByPin_override :
    PinByPin (fun _ => false)
      [⟨some "SVEC", 3, 0, gpiofDirIn, 0⟩, ⟨none, fmcGpioIrq 0, 0, gpiofDirIn, irqfTriggerRising⟩,
        ⟨some "SPEC", 8, 0, gpiofInitHigh, 0⟩]
      ⟨0, 0xff0, 0x21, 0x1, 0x100, 0xffff, 0x3, 0, 0x100⟩ :=
  gpioConfig_pinByPin _ _ (by decide)

/-! ### Both edges -/

def irqfTriggerFalling : BitVec 32 := 2

/-- The entry asks for interrupts on both edges. -/
def FmcGpio.bothEdges (e : FmcGpio) : Bool :=
  decide (e.irqmode &&& (irqfTriggerRising ||| irqfTriggerFalling) =
    irqfTriggerRising ||| irqfTriggerFalling)

/-- **Interrupts on both edges are not configured**: the bit for them is cleared. -/
theorem not_forall_pinByPin :
    ¬∀ (es : List FmcGpio) (g : Gennum), 0 ≤ (specGpioConfig es g).1 →
      PinByPin FmcGpio.bothEdges es g := by
  intro h
  let e : FmcGpio :=
    ⟨none, fmcGpioIrq 0, 0, gpiofDirIn, irqfTriggerRising ||| irqfTriggerFalling⟩
  obtain ⟨k, hk, hpin, hdemanded⟩ :=
    (h [e] ⟨0, 0, 0, 0, 0, 0, 0, 0, 0⟩ (by decide)).last [] [] e rfl (by decide)
      fun e' he' => absurd he' List.not_mem_nil
  obtain rfl : k = 8 := by
    have h8 : e.pin = 8 := by decide
    omega
  exact absurd (hdemanded.intOnAny (by decide)) (by decide)

end SpecSw.Carrier
