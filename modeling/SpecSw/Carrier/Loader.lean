import SpecSw.Kernel
import SpecSw.Library.RegisterLog

/-!
# Loading a bitstream into the FPGA

`loader_low_level` pushes a bitstream through a FIFO of the Gennum chip. The driver calls it in
`spec_load_fpga` and the library of the tools in `spec_load_bitstream_buffer`; both then wait for
the status bit DONE. The registers may return any values, DONE bits of earlier programming
included.

`spec_load_fpga` does not look at what the loader returns: when the loader has given up, and the
status is DONE all the same, it reports success. Both pass the size as an `int`; with `2^31 - 3`
bytes or more the loader pushes fewer words, or none, and reports how many.

## Main definitions

* `Carrier.loaderLowLevel`, `Carrier.specLoadFpga`, `Carrier.specLoadBitstreamBuffer`.
* `Carrier.GivesUp`: the values of the registers for which the loader gives up.
* `Carrier.Programmed`: all words of a bitstream have been pushed, and DONE was read after that.

## Main results

* `Carrier.loaderLowLevel_writes`: the words that the loader pushes.
* `Carrier.loaderLowLevel_fails_iff`: the loader returns an error for these values only.
* `Carrier.load_iff`, `Carrier.not_forall_load`.
-/

namespace SpecSw.Carrier

open RegisterLog Errno

/-- The registers of the Gennum chip. -/
abbrev GennumRegs := Regs (BitVec 32) (BitVec 32)

/-! ### Register offsets and bits -/

def gngpioDirectionMode : BitVec 32 := 0xa04

def gngpioOutputEnable : BitVec 32 := 0xa08

def gngpioOutputValue : BitVec 32 := 0xa0c

def fclCtrl : BitVec 32 := 0xb00

def fclEn : BitVec 32 := 0xb10

def fclTimer0 : BitVec 32 := 0xb14

def fclTimer1 : BitVec 32 := 0xb18

def fclClkDiv : BitVec 32 := 0xb1c

def fclIrq : BitVec 32 := 0xb20

def fclTimerCtrl : BitVec 32 := 0xb24

def fclTimer20 : BitVec 32 := 0xb2c

def fclTimer21 : BitVec 32 := 0xb30

def fclFifo : BitVec 32 := 0xe00

def gnpciSysCfgSystem : BitVec 32 := 0x800

/-- `GPIO_BOOTSEL0`. -/
def gpioBootsel0 : ℕ := 15

/-- `GPIO_BOOTSEL1`. -/
def gpioBootsel1 : ℕ := 14

/-! ### The loader -/

/-- `reverse_bits8`. -/
def reverseBits8 (x : BitVec 8) : BitVec 8 :=
  let x := ((x >>> 1) &&& 0x55) ||| ((x &&& 0x55) <<< 1)
  let x := ((x >>> 2) &&& 0x33) ||| ((x &&& 0x33) <<< 2)
  ((x >>> 4) &&& 0x0f) ||| ((x &&& 0x0f) <<< 4)

/-- `unaligned_bitswap_le32` of the word `i` of the data, on a little-endian host. -/
def bitswapWord (data : ℕ → BitVec 8) (i : ℕ) : BitVec 32 :=
  reverseBits8 (data (4 * i + 3)) ++ reverseBits8 (data (4 * i + 2)) ++
    reverseBits8 (data (4 * i + 1)) ++ reverseBits8 (data (4 * i))

/-- `gpio_out`. -/
def gpioOut (addr : BitVec 32) (bit : ℕ) (value : Bool) (g : GennumRegs) : GennumRegs :=
  let (reg, g) := g.read addr
  g.write addr (if value then reg ||| (1#32 <<< bit) else reg &&& ~~~(1#32 <<< bit))

/-- The `while` loop that waits until at least half of the FIFO is empty. -/
def waitFifo : ℕ → GennumRegs → Option GennumRegs
  | 0, _ => none
  | fuel + 1, g =>
    let (i, g) := g.read fclIrq
    if i &&& (1 <<< 5) ≠ 0 then waitFifo fuel g else some g

/-- The `for` loop: `count` words from the word `wrote` on. -/
def writeFifo (data : ℕ → BitVec 8) : ℕ → ℕ → GennumRegs → GennumRegs
  | 0, _, g => g
  | count + 1, wrote, g =>
    writeFifo data count (wrote + 1) (g.write fclFifo (bitswapWord data wrote))

/-- The `while` loop over the data, with `size32` words to go, and the end of the function. -/
def pushWords (data : ℕ → BitVec 8) : ℕ → ℕ → ℕ → Bool → GennumRegs → Option (ℤ × GennumRegs)
  | 0, _, _, _, _ => none
  | fuel + 1, size32, wrote, done, g =>
    if size32 = 0 then some (wrote, g.write fclCtrl 0x186)
    else
      let (i, g) := g.read fclIrq
      if ¬ (i &&& 8 ≠ 0 ∧ wrote ≠ 0) ∧ i &&& 0x4 ≠ 0 ∧ !done then some (-eio, g)
      else
        let done := done || (i &&& 8 != 0 && wrote != 0)
        match waitFifo fuel g with
        | none => none
        | some g =>
          let count := min size32 32
          pushWords data fuel (size32 - count) (wrote + count) done (writeFifo data count wrote g)

/-- The value of `FCL_CTRL` for a size. -/
def fclCtrlValue (size8 : ℤ) : BitVec 32 :=
  if BitVec.ofInt 32 size8 &&& 3 = 3 then 0x116
  else if BitVec.ofInt 32 size8 &&& 3 = 2 then 0x126
  else if BitVec.ofInt 32 size8 &&& 3 = 1 then 0x136
  else 0x106

/-- `loader_low_level` up to the reset of the loader. -/
def resetLoader (g : GennumRegs) : GennumRegs :=
  let g := gpioOut gngpioDirectionMode gpioBootsel0 false g
  let g := gpioOut gngpioDirectionMode gpioBootsel1 false g
  let g := gpioOut gngpioOutputEnable gpioBootsel0 true g
  let g := gpioOut gngpioOutputEnable gpioBootsel1 true g
  let g := gpioOut gngpioOutputValue gpioBootsel0 true g
  let g := gpioOut gngpioOutputValue gpioBootsel1 false g
  (g.write fclClkDiv 0x00).write fclCtrl 0x40

/-- `loader_low_level` from there to the loop. -/
def startLoader (ctrl : BitVec 32) (g : GennumRegs) : GennumRegs :=
  let g := ((g.write fclCtrl 0x00).write fclIrq 0x00).write fclCtrl ctrl
  let g := ((g.write fclClkDiv 0x00).write fclTimerCtrl 0x00).write fclTimer0 0x10
  let g := ((g.write fclTimer1 0x00).write fclTimer20 0x08).write fclTimer21 0x00
  (g.write fclEn 0x17).write fclCtrl (ctrl ||| 0x01)

/-- `loader_low_level`, or `none` when the FIFO is not empty after `fuel` reads. -/
def loaderLowLevel (fuel : ℕ) (data : ℕ → BitVec 8) (size8 : ℤ) (g : GennumRegs) :
    Option (ℤ × GennumRegs) :=
  let size32 := int32 (size8 + 3) / 4
  let (i, g) := (resetLoader g).read fclCtrl
  if i ≠ 0x40 then some (-eio, g)
  else pushWords data fuel size32.toNat 0 false (startLoader (fclCtrlValue size8) g)

/-- `gpiofix_low_level`. -/
def gpiofixLowLevel (g : GennumRegs) : GennumRegs :=
  let g := gpioOut gngpioOutputValue gpioBootsel0 false g
  let g := gpioOut gngpioOutputValue gpioBootsel1 false g
  let g := gpioOut gngpioOutputEnable gpioBootsel0 false g
  gpioOut gngpioOutputEnable gpioBootsel1 false g

/-- `loader_reset_fpga`. -/
def loaderResetFpga (g : GennumRegs) : GennumRegs :=
  let (reg, g) := g.read gnpciSysCfgSystem
  (g.write gnpciSysCfgSystem ((reg &&& ~~~0xffff) ||| 0x3fff)).write gnpciSysCfgSystem
    ((reg &&& ~~~0xffff) ||| 0x7fff)

/-! ### Its callers -/

/-- `time_after`. -/
def timeAfter (a b : BitVec 64) : Bool := (b - a).msb

/-- The loop of `spec_load_fpga`. The counter of the kernel is given by the number of accesses to
the registers. -/
def waitProgrammed (jiffies : ℕ → BitVec 64) (j : BitVec 64) :
    ℕ → GennumRegs → Option (ℤ × GennumRegs)
  | 0, _ => none
  | polls + 1, g =>
    let (i, g) := g.read fclIrq
    if i &&& 0x8 ≠ 0 then some (0, g)
    else if i &&& 0x4 ≠ 0 then some (-etimedout, g)
    else if timeAfter (jiffies g.log.length) j then some (-etimedout, g)
    else waitProgrammed jiffies j polls g

/-- The time at which `spec_load_fpga` gives up, two seconds from now; `hz` is `HZ`. -/
def loadDeadline (jiffies : ℕ → BitVec 64) (hz : BitVec 64) (g : GennumRegs) : BitVec 64 :=
  jiffies g.log.length + 2 * hz

/-- `spec_load_fpga`. -/
def specLoadFpga (jiffies : ℕ → BitVec 64) (hz : BitVec 64) (fuel polls : ℕ)
    (data : ℕ → BitVec 8) (size : ℤ) (g : GennumRegs) : Option (ℤ × GennumRegs) :=
  match loaderLowLevel fuel data size g with
  | none => none
  | some (_, g) =>
    match waitProgrammed jiffies (loadDeadline jiffies hz g) polls g with
    | none => none
    | some (ret, g) =>
      if ret ≠ 0 then some (ret, g) else some (0, loaderResetFpga (gpiofixLowLevel g))

/-- `waitdone_low_level`. -/
def waitdoneLowLevel : ℕ → GennumRegs → Option GennumRegs
  | 0, _ => none
  | polls + 1, g =>
    let (i, g) := g.read fclIrq
    if i &&& 0x8 = 0 then waitdoneLowLevel polls g else some g

/-- `spec_load_bitstream_buffer`. The size is a `size_t`, and the loader takes an `int`. -/
def specLoadBitstreamBuffer (fuel polls : ℕ) (data : ℕ → BitVec 8) (size : BitVec 64)
    (g : GennumRegs) : Option (ℤ × GennumRegs) :=
  match loaderLowLevel fuel data (int32 size.toNat) g with
  | none => none
  | some (rv, g) =>
    match waitdoneLowLevel polls g with
    | none => none
    | some g => some (rv, loaderResetFpga (gpiofixLowLevel g))

/-! ### What is written to the FIFO -/

section Fifo

variable {vals : List (BitVec 32)} {g₀ g g' : GennumRegs} {data : ℕ → BitVec 8}

theorem gpioOut_writes (h : Writes fclFifo vals g₀ g) {addr : BitVec 32} (ha : addr ≠ fclFifo)
    (bit : ℕ) (value : Bool) : Writes fclFifo vals g₀ (gpioOut addr bit value g) :=
  (h.read addr).write_of_ne ha _

theorem resetLoader_writes (h : Writes fclFifo vals g₀ g) :
    Writes fclFifo vals g₀ (resetLoader g) := by
  have h := gpioOut_writes h (show gngpioDirectionMode ≠ fclFifo by decide) gpioBootsel0 false
  have h := gpioOut_writes h (show gngpioDirectionMode ≠ fclFifo by decide) gpioBootsel1 false
  have h := gpioOut_writes h (show gngpioOutputEnable ≠ fclFifo by decide) gpioBootsel0 true
  have h := gpioOut_writes h (show gngpioOutputEnable ≠ fclFifo by decide) gpioBootsel1 true
  have h := gpioOut_writes h (show gngpioOutputValue ≠ fclFifo by decide) gpioBootsel0 true
  have h := gpioOut_writes h (show gngpioOutputValue ≠ fclFifo by decide) gpioBootsel1 false
  exact (h.write_of_ne (by decide) _).write_of_ne (by decide) _

theorem startLoader_writes (h : Writes fclFifo vals g₀ g) (ctrl : BitVec 32) :
    Writes fclFifo vals g₀ (startLoader ctrl g) := by
  have h := h.write_of_ne (a := fclCtrl) (by decide) 0x00
  have h := h.write_of_ne (a := fclIrq) (by decide) 0x00
  have h := h.write_of_ne (a := fclCtrl) (by decide) ctrl
  have h := h.write_of_ne (a := fclClkDiv) (by decide) 0x00
  have h := h.write_of_ne (a := fclTimerCtrl) (by decide) 0x00
  have h := h.write_of_ne (a := fclTimer0) (by decide) 0x10
  have h := h.write_of_ne (a := fclTimer1) (by decide) 0x00
  have h := h.write_of_ne (a := fclTimer20) (by decide) 0x08
  have h := h.write_of_ne (a := fclTimer21) (by decide) 0x00
  have h := h.write_of_ne (a := fclEn) (by decide) 0x17
  exact h.write_of_ne (by decide) _

theorem finish_writes (h : Writes fclFifo vals g₀ g) :
    Writes fclFifo vals g₀ (loaderResetFpga (gpiofixLowLevel g)) := by
  have h := gpioOut_writes h (show gngpioOutputValue ≠ fclFifo by decide) gpioBootsel0 false
  have h := gpioOut_writes h (show gngpioOutputValue ≠ fclFifo by decide) gpioBootsel1 false
  have h := gpioOut_writes h (show gngpioOutputEnable ≠ fclFifo by decide) gpioBootsel0 false
  have h := gpioOut_writes h (show gngpioOutputEnable ≠ fclFifo by decide) gpioBootsel1 false
  exact ((h.read _).write_of_ne (by decide) _).write_of_ne (by decide) _

theorem waitFifo_writes (h : Writes fclFifo vals g₀ g) {fuel : ℕ}
    (hwait : waitFifo fuel g = some g') : Writes fclFifo vals g₀ g' := by
  induction fuel generalizing g with
  | zero => cases hwait
  | succ fuel ih =>
    rw [waitFifo] at hwait
    dsimp only at hwait
    split_ifs at hwait
    · exact ih (h.read fclIrq) hwait
    · obtain rfl := Option.some.inj hwait
      exact h.read fclIrq

/-- The first words of the data. -/
def firstWords (data : ℕ → BitVec 8) (n : ℕ) : List (BitVec 32) :=
  (List.range n).map (bitswapWord data)

@[simp] theorem length_firstWords (n : ℕ) : (firstWords data n).length = n := by
  rw [firstWords, List.length_map, List.length_range]

theorem writeFifo_writes {count wrote : ℕ}
    (h : Writes fclFifo (firstWords data wrote) g₀ g) :
    Writes fclFifo (firstWords data (wrote + count)) g₀ (writeFifo data count wrote g) := by
  induction count generalizing wrote g with
  | zero => exact h
  | succ count ih =>
    have hone : Writes fclFifo (firstWords data (wrote + 1)) g₀
        (g.write fclFifo (bitswapWord data wrote)) := by
      rw [firstWords, List.range_succ, List.map_append]
      exact h.write_self _
    rw [writeFifo, show wrote + (count + 1) = wrote + 1 + count by omega]
    exact ih hone

/-- The loop pushes the words in order: all of them, or fewer when it gives up. -/
theorem pushWords_writes {fuel size32 wrote : ℕ} {done : Bool} {r : ℤ}
    (h : Writes fclFifo (firstWords data wrote) g₀ g)
    (hpush : pushWords data fuel size32 wrote done g = some (r, g')) :
    ∃ k, Writes fclFifo (firstWords data k) g₀ g' ∧
      (0 ≤ r ∧ k = wrote + size32 ∨ r = -eio ∧ k < wrote + size32) := by
  induction fuel generalizing size32 wrote done g with
  | zero => cases hpush
  | succ fuel ih =>
    rw [pushWords] at hpush
    dsimp only at hpush
    split_ifs at hpush with hzero hfail
    · obtain ⟨rfl, rfl⟩ := Prod.mk.inj (Option.some.inj hpush)
      exact ⟨wrote, h.write_of_ne (by decide) _, Or.inl ⟨by omega, by omega⟩⟩
    · obtain ⟨rfl, rfl⟩ := Prod.mk.inj (Option.some.inj hpush)
      exact ⟨wrote, h.read fclIrq, Or.inr ⟨rfl, by omega⟩⟩
    · cases hwait : waitFifo fuel (g.read fclIrq).2 with
      | none =>
        rw [hwait] at hpush
        cases hpush
      | some g₁ =>
        rw [hwait] at hpush
        have hcount : min size32 32 ≤ size32 := min_le_left _ _
        obtain ⟨k, hwrites, hk⟩ :=
          ih (writeFifo_writes (waitFifo_writes (h.read fclIrq) hwait)) hpush
        exact ⟨k, hwrites, by omega⟩

/-- The loader pushes the words that the `int` counts, or fewer when it gives up. -/
theorem loaderLowLevel_writes {fuel : ℕ} {size8 r : ℤ}
    (hload : loaderLowLevel fuel data size8 g = some (r, g')) :
    ∃ k, Writes fclFifo (firstWords data k) g g' ∧
      (0 ≤ r ∧ k = (int32 (size8 + 3) / 4).toNat ∨
        r = -eio ∧ (k = 0 ∨ k < (int32 (size8 + 3) / 4).toNat)) := by
  have hreset := (resetLoader_writes (Writes.refl fclFifo g)).read fclCtrl
  rw [loaderLowLevel] at hload
  dsimp only at hload
  split_ifs at hload with hctrl
  · obtain ⟨rfl, rfl⟩ := Prod.mk.inj (Option.some.inj hload)
    exact ⟨0, hreset, Or.inr ⟨rfl, Or.inl rfl⟩⟩
  · have hstart : Writes fclFifo (firstWords data 0) g
        (startLoader (fclCtrlValue size8) ((resetLoader g).read fclCtrl).2) :=
      startLoader_writes hreset _
    obtain ⟨k, hwrites, hk⟩ := pushWords_writes hstart hload
    exact ⟨k, hwrites, by omega⟩

end Fifo

/-! ### When the loader gives up -/

/-- The value of `FCL_CTRL` after the reset of the loader. -/
def controlAfterReset (input : ℕ → BitVec 32) : BitVec 32 :=
  ((resetLoader ⟨input, []⟩).read fclCtrl).1

/-- A status at the top of the loop over the data for which the loader gives up: an error, unless
DONE is set now or has been since the first words. -/
def StatusError (v : BitVec 32) (wrote : ℕ) (done : Bool) : Prop :=
  ¬ (v &&& 8 ≠ 0 ∧ wrote ≠ 0) ∧ v &&& 0x4 ≠ 0 ∧ !done

/-- By the values of the status the loop over the data gives up: at its next round, which begins
after `pos` accesses with `size32` words to go, or at a later one, after the FIFO has been busy for
`k` reads and a block has been written. -/
inductive StatusFails (input : ℕ → BitVec 32) : ℕ → ℕ → ℕ → Bool → Prop
  | now {pos size32 wrote : ℕ} {done : Bool} (hleft : size32 ≠ 0)
      (herror : StatusError (input pos) wrote done) : StatusFails input pos size32 wrote done
  | later {pos size32 wrote : ℕ} {done : Bool} (k : ℕ) (hleft : size32 ≠ 0)
      (hgood : ¬ StatusError (input pos) wrote done)
      (hbusy : ∀ i < k, input (pos + 1 + i) &&& (1 <<< 5) ≠ 0)
      (hfree : input (pos + 1 + k) &&& (1 <<< 5) = 0)
      (hrest : StatusFails input (pos + 1 + k + 1 + min size32 32) (size32 - min size32 32)
        (wrote + min size32 32) (done || (input pos &&& 8 != 0 && wrote != 0))) :
      StatusFails input pos size32 wrote done

/-- The loader gives up for these values of the registers: `FCL_CTRL` does not read back, or the
loop over the data, which begins after 26 accesses, gives up. -/
def GivesUp (size8 : ℤ) (input : ℕ → BitVec 32) : Prop :=
  controlAfterReset input ≠ 0x40 ∨
    StatusFails input 26 (int32 (size8 + 3) / 4).toNat 0 false

section GivesUp

variable {g g' : GennumRegs} {data : ℕ → BitVec 8}

/-- The wait ends at the first read that shows the FIFO free. -/
theorem waitFifo_reads {fuel : ℕ} (h : waitFifo fuel g = some g') :
    g'.input = g.input ∧ ∃ k, g'.log.length = g.log.length + k + 1 ∧
      (∀ i < k, g.input (g.log.length + i) &&& (1 <<< 5) ≠ 0) ∧
      g.input (g.log.length + k) &&& (1 <<< 5) = 0 := by
  induction fuel generalizing g with
  | zero => cases h
  | succ fuel ih =>
    rw [waitFifo] at h
    dsimp only at h
    split_ifs at h with hbusy
    · obtain ⟨hinput, k, hk, hall, hfree⟩ := ih h
      rw [Regs.length_read] at hk hall hfree
      refine ⟨hinput, k + 1, by omega, fun i hi => ?_, ?_⟩
      · cases i with
        | zero => exact hbusy
        | succ i =>
          have := hall i (by omega)
          rwa [Nat.add_assoc, Nat.add_comm 1 i] at this
      · rwa [Nat.add_assoc, Nat.add_comm 1 k] at hfree
    · obtain rfl := Option.some.inj h
      exact ⟨rfl, 0, Regs.length_read fclIrq g, fun i hi => absurd hi (Nat.not_lt_zero i),
        not_not.mp hbusy⟩

theorem writeFifo_length (data : ℕ → BitVec 8) (count wrote : ℕ) (g : GennumRegs) :
    (writeFifo data count wrote g).input = g.input ∧
      (writeFifo data count wrote g).log.length = g.log.length + count := by
  induction count generalizing wrote g with
  | zero => exact ⟨rfl, rfl⟩
  | succ count ih =>
    obtain ⟨hinput, hlen⟩ := ih (wrote + 1) (g.write fclFifo (bitswapWord data wrote))
    refine ⟨hinput, ?_⟩
    rw [writeFifo, hlen, Regs.length_write]
    omega

@[simp] theorem gpioOut_length (addr : BitVec 32) (bit : ℕ) (value : Bool) (g : GennumRegs) :
    (gpioOut addr bit value g).log.length = g.log.length + 2 := by
  simp [gpioOut]

theorem startLoader_input (ctrl : BitVec 32) (input : ℕ → BitVec 32) :
    (startLoader ctrl ((resetLoader ⟨input, []⟩).read fclCtrl).2).input = input := rfl

/-- The loop over the data begins after 26 accesses. -/
theorem startLoader_length (ctrl : BitVec 32) (input : ℕ → BitVec 32) :
    (startLoader ctrl ((resetLoader ⟨input, []⟩).read fclCtrl).2).log.length = 26 := by
  simp [startLoader, resetLoader]

/-- There is only one first read that shows the FIFO free. -/
theorem busy_unique {p : ℕ → Prop} {k k' : ℕ} (hbusy : ∀ i < k, p i) (hfree : ¬ p k)
    (hbusy' : ∀ i < k', p i) (hfree' : ¬ p k') : k = k' := by
  rcases lt_trichotomy k k' with h | h | h
  · exact absurd (hbusy' k h) hfree
  · exact h
  · exact absurd (hbusy k' h) hfree'

/-- The loop over the data returns an error exactly when the values of the status say so. -/
theorem pushWords_fails_iff {fuel size32 wrote : ℕ} {done : Bool} {r : ℤ}
    (hpush : pushWords data fuel size32 wrote done g = some (r, g')) :
    r = -eio ↔ StatusFails g.input g.log.length size32 wrote done := by
  induction fuel generalizing size32 wrote done g with
  | zero => cases hpush
  | succ fuel ih =>
    rw [pushWords] at hpush
    dsimp only at hpush
    split_ifs at hpush with hzero hfail
    · obtain ⟨rfl, rfl⟩ := Prod.mk.inj (Option.some.inj hpush)
      refine iff_of_false (by simp only [eio]; omega) ?_
      rintro (⟨hleft, -⟩ | ⟨-, hleft, -⟩) <;> exact hleft hzero
    · obtain ⟨rfl, rfl⟩ := Prod.mk.inj (Option.some.inj hpush)
      exact iff_of_true rfl (.now hzero hfail)
    · cases hwait : waitFifo fuel (g.read fclIrq).2 with
      | none =>
        rw [hwait] at hpush
        cases hpush
      | some g₁ =>
        rw [hwait] at hpush
        obtain ⟨hinput, k, hk, hbusy, hfree⟩ := waitFifo_reads hwait
        obtain ⟨hinput', hlen'⟩ := writeFifo_length data (min size32 32) wrote g₁
        rw [Regs.length_read] at hk hbusy hfree
        have hih := ih hpush
        rw [hinput', hlen', hinput, hk] at hih
        refine hih.trans ⟨.later k hzero hfail hbusy hfree, fun hfails => ?_⟩
        cases hfails with
        | now _ herror => exact absurd herror hfail
        | later k' _ _ hbusy' hfree' hrest =>
          obtain rfl :=
            busy_unique hbusy (not_not.mpr hfree) hbusy' (not_not.mpr hfree')
          exact hrest

/-- The loader returns an error exactly when the values of the registers say so. -/
theorem loaderLowLevel_fails_iff {fuel : ℕ} {size8 r : ℤ} {input : ℕ → BitVec 32}
    (hload : loaderLowLevel fuel data size8 ⟨input, []⟩ = some (r, g)) :
    r = -eio ↔ GivesUp size8 input := by
  rw [loaderLowLevel] at hload
  dsimp only at hload
  split_ifs at hload with hctrl
  · obtain ⟨rfl, -⟩ := Prod.mk.inj (Option.some.inj hload)
    exact iff_of_true rfl (Or.inl hctrl)
  · have hpush := pushWords_fails_iff hload
    rw [startLoader_input, startLoader_length] at hpush
    exact hpush.trans (or_iff_right hctrl).symm

end GivesUp

/-! ### The wait for DONE -/

/-- DONE has been read from the status in between, and nothing written to the FIFO. -/
def ReadsDone (g g' : GennumRegs) : Prop :=
  ∃ log, g'.log = g.log ++ log ∧ writesTo fclFifo log = [] ∧
    ∃ v, .read fclIrq v ∈ log ∧ v &&& 8 ≠ 0

/-- The value of the status at the read `i` from here. -/
def GennumRegs.status (g : GennumRegs) (i : ℕ) : BitVec 32 := g.input (g.log.length + i)

/-- A status with DONE comes. -/
def DoneEver (g : GennumRegs) : Prop := ∃ k, g.status k &&& 8 ≠ 0

/-- A status with DONE comes before one with the error bit, and before the time `j`. -/
def DoneInTime (jiffies : ℕ → BitVec 64) (j : BitVec 64) (g : GennumRegs) : Prop :=
  ∃ k, g.status k &&& 8 ≠ 0 ∧ ∀ i < k, g.status i &&& 8 = 0 ∧ g.status i &&& 4 = 0 ∧
    timeAfter (jiffies (g.log.length + i + 1)) j = false

section Done

variable {g g' g'' : GennumRegs} {jiffies : ℕ → BitVec 64} {j : BitVec 64}

theorem ReadsDone.of_read (h : g.status 0 &&& 8 ≠ 0) : ReadsDone g (g.read fclIrq).2 :=
  ⟨[.read fclIrq (g.status 0)], rfl, rfl, g.status 0, List.mem_cons_self, h⟩

theorem ReadsDone.trans (h : ReadsDone g g') (h' : Writes fclFifo [] g' g'') :
    ReadsDone g g'' := by
  obtain ⟨log, hlog, hfifo, v, hmem, hv⟩ := h
  obtain ⟨log', hlog', hfifo'⟩ := h'
  refine ⟨log ++ log', ?_, ?_, v, List.mem_append_left log' hmem, hv⟩
  · rw [hlog', hlog, List.append_assoc]
  · rw [writesTo_append, hfifo, hfifo', List.append_nil]

theorem ReadsDone.after (h : Writes fclFifo [] g g') (h' : ReadsDone g' g'') : ReadsDone g g'' := by
  obtain ⟨log, hlog, hfifo⟩ := h
  obtain ⟨log', hlog', hfifo', v, hmem, hv⟩ := h'
  refine ⟨log ++ log', ?_, ?_, v, List.mem_append_right log hmem, hv⟩
  · rw [hlog', hlog, List.append_assoc]
  · rw [writesTo_append, hfifo, hfifo', List.append_nil]

/-- The status of later reads. -/
theorem status_read (g : GennumRegs) (i : ℕ) :
    GennumRegs.status (g.read fclIrq).2 i = g.status (i + 1) := by
  rw [GennumRegs.status, GennumRegs.status, Regs.length_read, Nat.add_assoc, Nat.add_comm 1 i]
  rfl

theorem read_fst (g : GennumRegs) : (g.read fclIrq).1 = g.status 0 := rfl

/-- The loop of `spec_load_fpga` reports success after DONE in time. -/
theorem waitProgrammed_done {polls : ℕ} (h : waitProgrammed jiffies j polls g = some (0, g')) :
    ReadsDone g g' ∧ DoneInTime jiffies j g := by
  induction polls generalizing g with
  | zero => cases h
  | succ polls ih =>
    rw [waitProgrammed] at h
    dsimp only at h
    rw [read_fst] at h
    split_ifs at h with hdone herror htime
    · obtain rfl := (Prod.mk.inj (Option.some.inj h)).2
      exact ⟨ReadsDone.of_read hdone, 0, hdone, fun i hi => absurd hi (Nat.not_lt_zero i)⟩
    · exact absurd (Prod.mk.inj (Option.some.inj h)).1 (by decide)
    · exact absurd (Prod.mk.inj (Option.some.inj h)).1 (by decide)
    · obtain ⟨hreads, k, hk, hbefore⟩ := ih h
      refine ⟨hreads.after ((Writes.refl fclFifo g).read fclIrq), k + 1, ?_, fun i hi => ?_⟩
      · rwa [status_read] at hk
      · cases i with
        | zero => exact ⟨not_not.mp hdone, not_not.mp herror, by simpa [Regs.read] using htime⟩
        | succ i =>
          have hi := hbefore i (Nat.lt_of_succ_lt_succ hi)
          rw [status_read, Regs.length_read] at hi
          rwa [show g.log.length + (i + 1) + 1 = g.log.length + 1 + i + 1 by omega]

/-- When DONE comes in time, the loop of `spec_load_fpga` reports success. -/
theorem waitProgrammed_of_done (h : DoneInTime jiffies j g) :
    ∃ polls g', waitProgrammed jiffies j polls g = some (0, g') := by
  obtain ⟨k, hk, hbefore⟩ := h
  induction k generalizing g with
  | zero =>
    refine ⟨1, (g.read fclIrq).2, ?_⟩
    rw [waitProgrammed]
    exact if_pos hk
  | succ k ih =>
    obtain ⟨hdone, herror, htime⟩ := hbefore 0 (Nat.zero_lt_succ k)
    have hlater : ∀ i < k, GennumRegs.status (g.read fclIrq).2 i &&& 8 = 0 ∧
        GennumRegs.status (g.read fclIrq).2 i &&& 4 = 0 ∧
        timeAfter (jiffies ((g.read fclIrq).2.log.length + i + 1)) j = false := by
      intro i hi
      have hi := hbefore (i + 1) (Nat.succ_lt_succ hi)
      rw [status_read, Regs.length_read,
        show g.log.length + 1 + i + 1 = g.log.length + (i + 1) + 1 by omega]
      exact hi
    obtain ⟨polls, g', hwait⟩ := ih (by rwa [status_read]) hlater
    refine ⟨polls + 1, g', ?_⟩
    rw [waitProgrammed]
    dsimp only
    rw [read_fst, if_neg (not_not.mpr hdone), if_neg (not_not.mpr herror), if_neg, hwait]
    simpa [Regs.read] using htime

/-- `waitdone_low_level` returns after DONE. -/
theorem waitdoneLowLevel_done {polls : ℕ} (h : waitdoneLowLevel polls g = some g') :
    ReadsDone g g' ∧ DoneEver g := by
  induction polls generalizing g with
  | zero => cases h
  | succ polls ih =>
    rw [waitdoneLowLevel] at h
    dsimp only at h
    rw [read_fst] at h
    split_ifs at h with hdone
    · obtain ⟨hreads, k, hk⟩ := ih h
      rw [status_read] at hk
      exact ⟨hreads.after ((Writes.refl fclFifo g).read fclIrq), k + 1, hk⟩
    · obtain rfl := Option.some.inj h
      exact ⟨ReadsDone.of_read hdone, 0, hdone⟩

/-- When DONE comes, `waitdone_low_level` returns. -/
theorem waitdoneLowLevel_of_done (h : DoneEver g) :
    ∃ polls g', waitdoneLowLevel polls g = some g' := by
  obtain ⟨k, hk⟩ := h
  induction k generalizing g with
  | zero =>
    refine ⟨1, (g.read fclIrq).2, ?_⟩
    rw [waitdoneLowLevel]
    exact if_neg hk
  | succ k ih =>
    by_cases hdone : g.status 0 &&& 8 = 0
    · obtain ⟨polls, g', hwait⟩ := ih (g := (g.read fclIrq).2) (by rwa [status_read])
      refine ⟨polls + 1, g', ?_⟩
      rw [waitdoneLowLevel]
      dsimp only
      rw [read_fst, if_pos hdone, hwait]
    · refine ⟨1, (g.read fclIrq).2, ?_⟩
      rw [waitdoneLowLevel]
      exact if_neg hdone

end Done

/-! ### The main result -/

/-- All words of `n` bytes have been pushed, and after the last of them DONE has been read. -/
def Programmed (data : ℕ → BitVec 8) (n : ℕ) (log : List (Access (BitVec 32) (BitVec 32))) : Prop :=
  ∃ before after, log = before ++ after ∧
    writesTo fclFifo before = firstWords data ((n + 3) / 4) ∧ writesTo fclFifo after = [] ∧
    ∃ v, .read fclIrq v ∈ after ∧ v &&& 8 ≠ 0

/-- When `spec_load_fpga` reports success for a bitstream, the FPGA has been programmed. -/
def LoadFpgaSound (jiffies : ℕ → BitVec 64) (hz : BitVec 64) (data : ℕ → BitVec 8) (n : BitVec 64)
    (input : ℕ → BitVec 32) : Prop :=
  ∀ fuel polls g,
    specLoadFpga jiffies hz fuel polls data (int32 n.toNat) ⟨input, []⟩ = some (0, g) →
      Programmed data n.toNat g.log

/-- When `spec_load_bitstream_buffer` reports success, the FPGA has been programmed. -/
def LoadBufferSound (data : ℕ → BitVec 8) (n : BitVec 64) (input : ℕ → BitVec 32) : Prop :=
  ∀ fuel polls rv g, specLoadBitstreamBuffer fuel polls data n ⟨input, []⟩ = some (rv, g) →
    0 ≤ rv → Programmed data n.toNat g.log

/-- The bitstream is empty; or, if the loader gives up or the size is too large for it, no DONE
comes in time. -/
def LoadFpgaOk (jiffies : ℕ → BitVec 64) (hz : BitVec 64) (data : ℕ → BitVec 8) (n : BitVec 64)
    (input : ℕ → BitVec 32) : Prop :=
  n = 0 ∨ (GivesUp (int32 n.toNat) input ∨ 2 ^ 31 - 3 ≤ n.toNat →
    ∀ fuel r g, loaderLowLevel fuel data (int32 n.toNat) ⟨input, []⟩ = some (r, g) →
      ¬ DoneInTime jiffies (loadDeadline jiffies hz g) g)

/-- The size is not too large for the loader; or, if that does not give up, no DONE comes. -/
def LoadBufferOk (data : ℕ → BitVec 8) (n : BitVec 64) (input : ℕ → BitVec 32) : Prop :=
  n.toNat < 2 ^ 31 - 3 ∨ GivesUp (int32 n.toNat) input ∨
    ∀ fuel r g, loaderLowLevel fuel data (int32 n.toNat) ⟨input, []⟩ = some (r, g) → ¬ DoneEver g

section Main

variable {data : ℕ → BitVec 8} {n : ℕ} {g g' : GennumRegs} {r : ℤ}

theorem wordCount_small (h : n < 2 ^ 31 - 3) :
    (int32 (int32 n + 3) / 4).toNat = (n + 3) / 4 := by
  simp only [int32]
  omega

/-- The loader counts too few words of a large bitstream. -/
theorem wordCount_large (h : 2 ^ 31 - 3 ≤ n) : (int32 (int32 n + 3) / 4).toNat < (n + 3) / 4 := by
  simp only [int32]
  omega

theorem Programmed.writes (h : Programmed data n g.log) :
    writesTo fclFifo g.log = firstWords data ((n + 3) / 4) := by
  obtain ⟨before, after, hlog, hbefore, hafter, -⟩ := h
  rw [hlog, writesTo_append, hbefore, hafter, List.append_nil]

/-- The FPGA has been programmed when the loader has pushed all words and DONE has been read. -/
theorem programmed_iff {k : ℕ} (hwrites : Writes fclFifo (firstWords data k) g g')
    {g₁ : GennumRegs} (hstart : g.log = []) (hdone : ReadsDone g' g₁) :
    Programmed data n g₁.log ↔ k = (n + 3) / 4 := by
  have hpushed := hwrites.of_start hstart
  obtain ⟨log, hlog, hfifo, hread⟩ := hdone
  constructor
  · intro h
    have hall := h.writes
    rw [hlog, writesTo_append, hpushed, hfifo, List.append_nil] at hall
    have hlength := congrArg List.length hall
    rwa [length_firstWords, length_firstWords] at hlength
  · rintro rfl
    exact ⟨g'.log, log, hlog, hpushed, hfifo, hread⟩

/-- The loader has pushed all words when it has not given up and the size is not too large. -/
theorem loaderLowLevel_all {fuel : ℕ}
    (hload : loaderLowLevel fuel data (int32 n) g = some (r, g')) :
    ∃ k, Writes fclFifo (firstWords data k) g g' ∧ (0 ≤ r ∨ r = -eio) ∧
      (k = (n + 3) / 4 ↔ n = 0 ∨ 0 ≤ r ∧ n < 2 ^ 31 - 3) := by
  obtain ⟨k, hwrites, hk⟩ := loaderLowLevel_writes hload
  refine ⟨k, hwrites, hk.imp And.left And.left, ?_⟩
  by_cases hsmall : n < 2 ^ 31 - 3
  · rw [wordCount_small hsmall] at hk
    rcases hk with ⟨hr, hk⟩ | ⟨rfl, hk⟩
    · exact iff_of_true hk (Or.inr ⟨hr, hsmall⟩)
    · simp only [eio]
      omega
  · have hlarge := wordCount_large (not_lt.mp hsmall)
    omega

/-- What remains of `spec_load_fpga` after the loader. -/
theorem specLoadFpga_success {jiffies : ℕ → BitVec 64} {hz : BitVec 64} {fuel polls : ℕ}
    {size : ℤ} :
    specLoadFpga jiffies hz fuel polls data size g = some (0, g') ↔
      ∃ r g₁ g₂, loaderLowLevel fuel data size g = some (r, g₁) ∧
        waitProgrammed jiffies (loadDeadline jiffies hz g₁) polls g₁ = some (0, g₂) ∧
        g' = loaderResetFpga (gpiofixLowLevel g₂) := by
  rw [specLoadFpga]
  cases hload : loaderLowLevel fuel data size g with
  | none => simp
  | some p =>
    obtain ⟨r, g₁⟩ := p
    dsimp only
    cases hwait : waitProgrammed jiffies (loadDeadline jiffies hz g₁) polls g₁ with
    | none => simp [hwait]
    | some q =>
      obtain ⟨ret, g₂⟩ := q
      dsimp only
      by_cases hret : ret = 0
      · subst hret
        simp [hwait, eq_comm]
      · simp [hret, hwait]

theorem loadFpgaSound_iff (jiffies : ℕ → BitVec 64) (hz : BitVec 64) (data : ℕ → BitVec 8)
    (n : BitVec 64) (input : ℕ → BitVec 32) :
    LoadFpgaSound jiffies hz data n input ↔ LoadFpgaOk jiffies hz data n input := by
  have hzero : n = 0 ↔ n.toNat = 0 := by
    rw [← BitVec.toNat_inj]
    rfl
  constructor
  · intro hsound
    by_cases hn : n = 0
    · exact Or.inl hn
    · refine Or.inr fun hbad fuel r g hload hdone => ?_
      obtain ⟨polls, g₂, hwait⟩ := waitProgrammed_of_done hdone
      have hprogrammed := hsound fuel polls _
        (specLoadFpga_success.mpr ⟨r, g, g₂, hload, hwait, rfl⟩)
      obtain ⟨k, hwrites, -, hk⟩ := loaderLowLevel_all hload
      have hreads := (waitProgrammed_done hwait).1.trans (finish_writes (Writes.refl fclFifo g₂))
      rw [programmed_iff hwrites rfl hreads, hk, ← hzero] at hprogrammed
      rcases hprogrammed with hn' | ⟨hr, hsmall⟩
      · exact hn hn'
      · rcases hbad with hgives | hlarge
        · obtain rfl := (loaderLowLevel_fails_iff hload).mpr hgives
          exact absurd hr (by decide)
        · omega
  · rintro hok fuel polls g hrun
    obtain ⟨r, g₁, g₂, hload, hwait, rfl⟩ := specLoadFpga_success.mp hrun
    obtain ⟨hreads, hdone⟩ := waitProgrammed_done hwait
    obtain ⟨k, hwrites, hr, hk⟩ := loaderLowLevel_all hload
    rw [programmed_iff hwrites rfl (hreads.trans (finish_writes (Writes.refl fclFifo g₂))), hk,
      ← hzero]
    rcases hok with hn | hbad
    · exact Or.inl hn
    · obtain ⟨hgood, hsmall⟩ := not_or.mp fun h => hbad h fuel r g₁ hload hdone
      have hne := mt (loaderLowLevel_fails_iff hload).mp hgood
      exact Or.inr ⟨hr.resolve_right hne, not_le.mp hsmall⟩

/-- What remains of `spec_load_bitstream_buffer` after the loader. -/
theorem specLoadBitstreamBuffer_eq {fuel polls : ℕ} {size : BitVec 64} :
    specLoadBitstreamBuffer fuel polls data size g = some (r, g') ↔
      ∃ g₁ g₂, loaderLowLevel fuel data (int32 size.toNat) g = some (r, g₁) ∧
        waitdoneLowLevel polls g₁ = some g₂ ∧ g' = loaderResetFpga (gpiofixLowLevel g₂) := by
  rw [specLoadBitstreamBuffer]
  cases hload : loaderLowLevel fuel data (int32 size.toNat) g with
  | none => simp
  | some p =>
    obtain ⟨rv, g₁⟩ := p
    dsimp only
    cases hwait : waitdoneLowLevel polls g₁ with
    | none => simp +contextual [hwait]
    | some g₂ => simp +contextual [hwait, eq_comm]

theorem loadBufferSound_iff (data : ℕ → BitVec 8) (n : BitVec 64) (input : ℕ → BitVec 32) :
    LoadBufferSound data n input ↔ LoadBufferOk data n input := by
  constructor
  · intro hsound
    by_cases hn : n.toNat < 2 ^ 31 - 3
    · exact Or.inl hn
    · refine Or.inr (or_iff_not_imp_left.mpr fun hgood fuel r g hload hdone => ?_)
      have hr := mt (loaderLowLevel_fails_iff hload).mp hgood
      obtain ⟨polls, g₂, hwait⟩ := waitdoneLowLevel_of_done hdone
      obtain ⟨k, hwrites, hsign, hk⟩ := loaderLowLevel_all hload
      have hprogrammed := hsound fuel polls r _
        (specLoadBitstreamBuffer_eq.mpr ⟨g, g₂, hload, hwait, rfl⟩) (hsign.resolve_right hr)
      have hreads := (waitdoneLowLevel_done hwait).1.trans (finish_writes (Writes.refl fclFifo g₂))
      rw [programmed_iff hwrites rfl hreads, hk] at hprogrammed
      omega
  · rintro hok fuel polls r g hrun hr
    obtain ⟨g₁, g₂, hload, hwait, rfl⟩ := specLoadBitstreamBuffer_eq.mp hrun
    obtain ⟨hreads, hdone⟩ := waitdoneLowLevel_done hwait
    obtain ⟨k, hwrites, -, hk⟩ := loaderLowLevel_all hload
    rw [programmed_iff hwrites rfl (hreads.trans (finish_writes (Writes.refl fclFifo g₂))), hk]
    rcases hok with hsmall | hgives | hbad
    · exact Or.inr ⟨hr, hsmall⟩
    · obtain rfl := (loaderLowLevel_fails_iff hload).mpr hgives
      exact absurd hr (by decide)
    · exact absurd hdone (hbad fuel r g₁ hload)

/-- **Success of FPGA programming.** For any bitstream and any values of the registers:
`spec_load_fpga` reports success only when all words have been pushed and DONE has been read after
that, exactly when the bitstream is empty, or no DONE comes in time if the loader gives up or the
size does not fit it; and `spec_load_bitstream_buffer` does, exactly when the size fits, or no DONE
comes if the loader does not give up. -/
theorem load_iff (jiffies : ℕ → BitVec 64) (hz : BitVec 64) (data : ℕ → BitVec 8) (n : BitVec 64)
    (input : ℕ → BitVec 32) :
    (LoadFpgaSound jiffies hz data n input ↔ LoadFpgaOk jiffies hz data n input) ∧
      (LoadBufferSound data n input ↔ LoadBufferOk data n input) :=
  ⟨loadFpgaSound_iff jiffies hz data n input, loadBufferSound_iff data n input⟩

end Main

/-- The status is DONE from the start. With a control register that does not read back, one word is
not pushed and `spec_load_fpga` succeeds; with one that does, `spec_load_bitstream_buffer` succeeds
for `2^32` bytes of which none is pushed. -/
theorem not_forall_load :
    (¬ ∀ (data : ℕ → BitVec 8) (n : BitVec 64) (input : ℕ → BitVec 32),
      LoadFpgaSound (fun _ => 0) 1000 data n input) ∧
    ¬ ∀ (data : ℕ → BitVec 8) (n : BitVec 64) (input : ℕ → BitVec 32),
      LoadBufferSound data n input := by
  constructor
  · intro hall
    have hwords := (hall (fun _ => 0) 4 (fun _ => 8) 0 1 _ rfl).writes
    revert hwords
    decide
  · intro hall
    have hwords := (hall (fun _ => 0) 0x100000000 (fun i => if i = 14 then 0x40 else 8) 1 1 0 _
      rfl le_rfl).writes
    have hlength := congrArg List.length hwords
    rw [length_firstWords] at hlength
    revert hlength
    decide

end SpecSw.Carrier
