import SpecSw.Dio.Command

/-!
# The DIO interrupt

`wrn_dio_interrupt` measures how much of the processor's time it takes, moves the samples of the
channels whose FIFO is not empty into their rings, and programs the next pulse of a channel with
a train. An interrupt carries what it reads: whether the mezzanine has its EEPROM, the clock at its
start and at its end, the pending channels and, for each channel, the samples its FIFO yields
before it is empty.

## Main definitions

* `Dio.irqRate`, `Dio.throttle`: the protection against interrupt storms.
* `Dio.pushSample`, `Dio.wrnTrigNextPulse`, `Dio.wrnDioInterrupt`.
-/

namespace SpecSw.Dio

/-- One entry of the FIFO of a channel: the registers `fifo_tai_h`, `fifo_tai_l`, `fifo_cycle`. -/
structure FifoSample where
  taiH : BitVec 32
  taiL : BitVec 32
  cycle : BitVec 32

/-- What a run of `wrn_dio_interrupt` reads. -/
structure DioIrq where
  eeprom : Bool
  now : ℤ
  finish : ℤ
  isr : BitVec 32
  fifo : ℕ → List FifoSample

/-- `irqreturn_t`. -/
inductive IrqReturn
  | none
  | handled
  deriving DecidableEq, Repr

/-! ### Protection against interrupts taking all of the processor's time -/

/-- The value a `u64` keeps of `x`. -/
def u64 (x : ℤ) : ℤ := x % 2 ^ 64

/-- The rate, in percent, from the time spent in the previous interrupt and the time since; `none`
when the division traps. -/
def irqRate (ontime offtime : ℤ) : Option ℤ :=
  if u64 (100 * ontime) < offtime then some 0
  else
    let num := int32 (int32 ontime * 100)
    let den := int32 offtime
    if den = 0 ∨ (num = -2 ^ 31 ∧ den = -1) then none else some (num.tdiv den)

/-- `(rate_avg * 1023 + rate) / 1024`. -/
def nextRateAvg (rateAvg rate : ℤ) : ℤ := (int32 (int32 (rateAvg * 1023) + rate)).tdiv 1024

/-- The average is moved towards the rate, and above 80 the DIO line is masked in the VIC. -/
def throttle (d : WrnDrvdata) (rate : ℤ) : WrnDrvdata :=
  let rateAvg := nextRateAvg d.rateAvg rate
  { d with
    rateAvg := rateAvg
    vicImr := if 80 < rateAvg then d.vicImr &&& ~~~wrnVicMaskDio else d.vicImr }

/-- The rate that the interrupt at the time `now` computes. -/
def rateAt (d : WrnDrvdata) (now : ℤ) : Option ℤ :=
  irqRate (u64 (d.tEnd - d.tIni)) (u64 (now - d.tEnd))

/-- The block that protects against interrupt storms, from the second interrupt on. -/
def protect (now : ℤ) (d : WrnDrvdata) : WrnDrvdata :=
  if d.tEnd ≠ 0 then
    match rateAt d now with
    | some rate => throttle { d with tIni := now } rate
    | none => { d with tIni := now, trapped := true }
  else d

/-! ### One channel -/

/-- The time of a sample, less the 5 cycles lost in the input sync circuits. -/
def FifoSample.stamp (x : FifoSample) : Timespec :=
  wrnTsSub ⟨(x.taiH ++ x.taiL).toInt, (8 * x.cycle).toNat⟩ 40

/-- One sample is stored at the head, and a full ring gives up its oldest one. -/
def pushSample (c : DioChannel) (x : FifoSample) : DioChannel :=
  let h := c.bhead
  let bhead := h + 1
  { c with
    tsbuf := Function.update c.tsbuf h x.stamp
    bhead := bhead
    btail := if bhead = c.btail then c.btail + 1 else c.btail }

/-- `wrn_trig_next_pulse`: program a new pulse, on the channel itself from the setpoint, on another
channel from the stamp. A count that is not infinite is decremented. -/
def wrnTrigNextPulse (ch : ℕ) (ts : Timespec) (d : WrnDrvdata) : WrnDrvdata :=
  let c := d.ch ch
  let newts := timespecAdd (if c.targetChannel = ch then c.prevts else ts) c.delay
  let c := if c.targetChannel = ch then { c with prevts := newts } else c
  let d := (wrnNewPulse c.targetChannel newts (d.setCh ch c)).2
  d.setCh ch { c with count := if 0 < c.count.toInt then c.count - 1 else c.count }

/-- The body of the channel loop of `wrn_dio_interrupt`: pull the FIFO to the ring, then serve the
pulse train if there was a sample. -/
def serveChannel (fifo : ℕ → List FifoSample) (d : WrnDrvdata) (ch : ℕ) : WrnDrvdata :=
  let c := (fifo ch).foldl pushSample (d.ch ch)
  let d := d.setCh ch c
  match (fifo ch).getLast? with
  | some x => if c.count ≠ 0 then wrnTrigNextPulse ch x.stamp d else d
  | none => d

/-! ### The interrupt -/

/-- The channels that the loop of `wrn_dio_interrupt` serves. -/
def servedChannels (isr : BitVec 32) : List ℕ :=
  (List.range 5).filter fun ch => (isr &&& wrnDioIrqMask).getLsbD ch

theorem lt_of_mem_servedChannels {isr : BitVec 32} {i : ℕ} (hi : i ∈ servedChannels isr) :
    i < 5 := List.mem_range.mp (List.mem_of_mem_filter hi)

theorem servedChannels_nodup (isr : BitVec 32) : (servedChannels isr).Nodup :=
  List.nodup_range.filter _

/-- `wrn_dio_interrupt`. -/
def wrnDioInterrupt (irq : DioIrq) (d : WrnDrvdata) : IrqReturn × WrnDrvdata :=
  if irq.eeprom then
    let d := (servedChannels irq.isr).foldl (serveChannel irq.fifo) (protect irq.now d)
    (.handled, { d with tEnd := irq.finish })
  else
    -- no mezzanine, disabling irqs
    (.none, { d with dio := { d.dio with eicImr := 0 } })

end SpecSw.Dio
