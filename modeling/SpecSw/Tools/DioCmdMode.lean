import SpecSw.Dio.Iomode
import SpecSw.Library.Run
import SpecSw.Tools.DioIoctl

/-!
# The `mode` command of `wr-dio-cmd`

`scan_inout` collects the channels of a `mode` command in a mask and their modes in four bit
planes of `value`, and passes both to one INOUT. It only ever sets bits, so two modes for one
channel are combined: `mode 1 d 1 c` connects channel 1 to the WRPC, as `mode 1 p` does.

What INOUT does to a channel is described by the view of that channel: the four bits of `IOMODE`,
and the bit of the GPIO. A mode replaces the view by one computed from its planes
(`view_inoutChannel`). So a command with several pairs leaves the view of the planes of all modes of
the channel, and the single commands that of one mode after the other.

## Main definitions

* `Tools.oneMode`, `Tools.scanInout`, `Tools.mainMode`.
* `Tools.ModePair`, `Tools.oneByOne`, `Tools.Planes`, `Tools.View`.
* `Tools.LastCovers`: the condition on the modes named for a channel.

## Main results

* `Tools.mainMode_pairs_iff`, `Tools.not_forall_mainMode_pairs`.
-/

namespace SpecSw.Tools

open Dio EventRun

/-! ### The tool -/

/-- What `one_mode` ORs into `value` for a mode, in the order of its `switch`, which falls through
from upper case to lower case. -/
def modeBits : Char → Option (List (BitVec 32))
  | 'D' => some [wrDioInoutTerm, wrDioInoutDio, wrDioInoutOutput]
  | 'd' => some [wrDioInoutDio, wrDioInoutOutput]
  | 'C' => some [wrDioInoutTerm, wrDioInoutDio, wrDioInoutValue]
  | 'c' => some [wrDioInoutDio, wrDioInoutValue]
  | 'P' => some [wrDioInoutTerm, wrDioInoutDio, wrDioInoutValue, wrDioInoutOutput]
  | 'p' => some [wrDioInoutDio, wrDioInoutValue, wrDioInoutOutput]
  | 'I' => some [wrDioInoutTerm]
  | 'i' => some []
  | '1' => some [wrDioInoutValue, wrDioInoutOutput]
  | '0' => some [wrDioInoutOutput]
  | _ => none

/-- `cmd->value |= bits << index`. -/
def orValue (index : ℕ) (cmd : WrDioCmd) (bits : BitVec 32) : WrDioCmd :=
  { cmd with value := cmd.value ||| shl bits index }

/-- `one_mode`, or `none` where it returns -1. -/
def oneMode (c : Char) (index : ℕ) (cmd : WrDioCmd) : Option WrDioCmd :=
  if c = '-' then some cmd
  else
    let cmd := { cmd with channel := cmd.channel ||| 1 <<< index }
    if index = 0 ∧ c ∈ ['d', 'D', '0', '1'] then none -- only p/P modes for channel 0
    else (modeBits c).map fun bits => bits.foldl (orValue index) cmd

/-- The loop of `scan_inout` over the characters of its one word. -/
def scanString (text : List Char) (cmd : WrDioCmd) : Option WrDioCmd :=
  text.zipIdx.foldlM (fun cmd p => oneMode p.1 p.2 cmd) cmd

/-- The loop of `scan_inout` over channels and modes, as long as there are two more words. -/
def scanPairs : List Word → WrDioCmd → Option WrDioCmd
  | w :: m :: args, cmd =>
    match w.integer, m.text with
    | some ch, [c] =>
      if ch < 0 ∨ 4 < ch then none else (oneMode c ch.toNat cmd).bind (scanPairs args)
    | _, _ => none
  | _, cmd => some cmd

/-- What a run of the tool does: how it ends, and the driver after it. -/
structure ModeRun where
  fin : ToolEnd
  drvdata : WrnDrvdata

/-- `scan_inout` from the ioctl on, unless a mode has been rejected. -/
def issueInout (utc : UtcReads) (d : WrnDrvdata) : Option WrDioCmd → ModeRun
  | none => ⟨.ret (-1), d⟩
  | some cmd =>
    match mezzanineCmd utc d cmd with
    | none => ⟨.sleeps, d⟩
    | some r => ⟨.ret (if r.ret < 0 then -1 else 0), r.drvdata⟩

/-- `scan_inout` on the words behind the name of the command. -/
def scanInout (utc : UtcReads) (args : List Word) (d : WrnDrvdata) (cmd : WrDioCmd) : ModeRun :=
  let cmd := { cmd with flags := wrDioFMask, channel := 0, value := 0 }
  let argc := args.length + 1
  match args with
  | [w] =>
    if w.text.length ≠ 5 then ⟨.exit 1, d⟩ -- wrong argument
    else issueInout utc d (scanString w.text cmd)
  | _ =>
    if argc < 3 ∨ 11 < argc ∨ argc % 2 = 0 then ⟨.ret (-1), d⟩ -- wrong number of arguments
    else issueInout utc d (scanPairs args cmd)

/-- `main` on `mode`. -/
def mainMode (utc : UtcReads) (args : List Word) (d : WrnDrvdata) : ModeRun :=
  let r := scanInout utc args d (staticCmd .inout)
  { r with fin := r.fin.ofMain }

/-- A channel and a mode on the command line. -/
structure ModePair where
  channel : Word
  mode : Word

/-- The words of a list of pairs. -/
def pairWords (ps : List ModePair) : List Word := ps.flatMap fun p => [p.channel, p.mode]

/-- The commands given one by one, each in a run of the tool. -/
def oneByOne (utc : UtcReads) (d : WrnDrvdata) (ps : List ModePair) : WrnDrvdata :=
  run (fun d p => (mainMode utc (pairWords [p]) d).drvdata) d ps

/-- The pair makes a command that is accepted. -/
def ModePair.Accepted (p : ModePair) : Prop :=
  ∀ utc d, (mainMode utc (pairWords [p]) d).fin = .exit 0

/-! ### Modes and views of a channel -/

/-- The bits of a mode in the four planes of `value`. -/
@[ext] structure Planes where
  dio : Bool
  value : Bool
  output : Bool
  term : Bool
  deriving DecidableEq, Repr

namespace Planes

/-- The bits of one channel, shifted back. -/
def ofBits (bits : BitVec 32) : Planes :=
  ⟨bits.getLsbD 0, bits.getLsbD 8, bits.getLsbD 16, bits.getLsbD 24⟩

/-- No bit. -/
def none : Planes := ⟨false, false, false, false⟩

/-- The bits of two modes together. -/
def or (m m' : Planes) : Planes :=
  ⟨m.dio || m'.dio, m.value || m'.value, m.output || m'.output, m.term || m'.term⟩

/-- The four bits of `IOMODE`: `TERM`, `OUTPUT_ENABLE_N` and the source. -/
def iomode (m : Planes) : BitVec 4 :=
  BitVec.ofBool m.term ++ BitVec.ofBool (!m.output) ++ BitVec.ofBool (m.dio && m.value) ++
    BitVec.ofBool (m.dio && !m.value)

instance : Std.Associative or := ⟨fun a b c => by simp [or, Bool.or_assoc]⟩

@[simp] theorem none_or (m : Planes) : none.or m = m := by simp [none, or]

@[simp] theorem or_none (m : Planes) : m.or none = m := by simp [none, or]

theorem or_or_eq_iff (a b m : Planes) : (a.or b).or m = m ↔ a.or m = m ∧ b.or m = m := by
  simp only [Planes.ext_iff, or, Bool.or_eq_right_iff_imp, Bool.or_eq_true, or_imp]
  tauto

/-- Modes of the GPIO have the same bits of `IOMODE` for both values, all others have bits of their
own. -/
theorem iomode_eq_iff (m m' : Planes) :
    m.iomode = m'.iomode ↔ m.dio = m'.dio ∧ m.output = m'.output ∧ m.term = m'.term ∧
      (m.dio = true → m.value = m'.value) := by
  obtain ⟨d, v, o, t⟩ := m
  obtain ⟨d', v', o', t'⟩ := m'
  revert d v o t d' v' o' t'
  decide

end Planes

/-- What INOUT can change of a channel: its bits of `IOMODE`, and its bit of the GPIO. -/
@[ext] structure View where
  iomode : BitVec 4
  gpio : Bool
  deriving DecidableEq, Repr

/-- The view of a channel. -/
def view (d : WrnDrvdata) (ch : ℕ) : View :=
  ⟨d.dio.iomode.extractLsb' (4 * ch) 4, d.gpio.getLsbD (4 * ch)⟩

/-- A mode replaces the bits of `IOMODE`, and the bit of the GPIO if it is a mode of the GPIO. -/
def Planes.apply (m : Planes) (v : View) : View := ⟨m.iomode, if m.dio then v.gpio else m.value⟩

/-- The bits of `IOMODE` that INOUT computes are those of the mode. -/
theorem setWidth_inoutIomode (bits : BitVec 32) :
    (inoutIomode bits).setWidth 4 = (Planes.ofBits bits).iomode := setWidth_inoutIomode_eq bits

/-! ### INOUT -/

/-- The bit of the GPIO is set or cleared for one channel. -/
theorem getLsbD_gpio (x : BitVec 32) (b : Bool) {ch k : ℕ} (hch : ch ≤ 4) (hk : k < 32) :
    (if b then x ||| wrnGpioValue ch else x &&& ~~~wrnGpioValue ch).getLsbD k =
      if k = 4 * ch then b else x.getLsbD k := by
  have hone : (1 : BitVec 32).getLsbD (k - 4 * ch) = decide (k - 4 * ch = 0) := by
    change (1#32).getLsbD (k - 4 * ch) = _
    rw [BitVec.getLsbD_one]
    simp
  have hbit : (wrnGpioValue ch).getLsbD k = decide (k = 4 * ch) := by
    rw [wrnGpioValue, getLsbD_shl _ (by omega) hk, Nat.add_zero, hone, ← Bool.decide_and,
      decide_eq_decide]
    omega
  cases b with
  | true =>
    rw [if_pos rfl, BitVec.getLsbD_or, hbit]
    split_ifs with h <;> simp [h]
  | false =>
    rw [if_neg Bool.false_ne_true, BitVec.getLsbD_and, BitVec.getLsbD_not, hbit]
    split_ifs with h <;> simp [h, hk]

/-- The bits of `IOMODE` after a turn of the loop. -/
theorem extractLsb'_inoutChannel (value : BitVec 32) (d : WrnDrvdata) {ch j : ℕ} (hch : ch ≤ 4)
    (hj : j ≤ 4) :
    (inoutChannel value d ch).dio.iomode.extractLsb' (4 * j) 4 =
      if j = ch then (Planes.ofBits (value >>> ch)).iomode
      else d.dio.iomode.extractLsb' (4 * j) 4 := by
  refine BitVec.eq_of_getLsbD_eq fun i hi => ?_
  have hmod : ch % 32 = ch := Nat.mod_eq_of_lt (by omega)
  have hk : 4 * j + i < 32 := by omega
  simp only [inoutChannel, hmod]
  rw [← setWidth_inoutIomode, BitVec.getLsbD_extractLsb',
    getLsbD_writeChannel _ _ (inoutIomode_spec _).1 hch hk]
  by_cases hjc : j = ch
  · subst hjc
    simp [hi]
  · have hout : ¬ (4 * ch ≤ 4 * j + i ∧ 4 * j + i < 4 * ch + 4) := by omega
    simp [hi, hout, hjc]

/-- The output value of a channel after a turn of the loop. -/
theorem gpio_inoutChannel (value : BitVec 32) (d : WrnDrvdata) {ch j : ℕ} (hch : ch ≤ 4)
    (hj : j ≤ 4) :
    (inoutChannel value d ch).gpio.getLsbD (4 * j) =
      if j = ch ∧ (value >>> ch).getLsbD 0 = false then (value >>> ch).getLsbD 8
      else d.gpio.getLsbD (4 * j) := by
  have hmod : ch % 32 = ch := Nat.mod_eq_of_lt (by omega)
  have hbit : ∀ b, (if b then d.gpio ||| wrnGpioValue ch
      else d.gpio &&& ~~~wrnGpioValue ch).getLsbD (4 * j) =
        if j = ch then b else d.gpio.getLsbD (4 * j) := by
    intro b
    rw [getLsbD_gpio _ _ hch (by omega)]
    simp
  simp only [inoutChannel, hmod,
    and_plane_ne_zero _ (k := 0) (by decide) (rfl : wrDioInoutDio = _),
    and_plane_ne_zero _ (k := 8) (by decide) (rfl : wrDioInoutValue = _)]
  cases (value >>> ch).getLsbD 0 with
  | true => simp
  | false => simp [hbit]

/-- INOUT applies the planes of each of its channels to the view of that channel. -/
theorem view_inoutChannel (value : BitVec 32) (d : WrnDrvdata) {ch j : ℕ} (hch : ch ≤ 4)
    (hj : j ≤ 4) :
    view (inoutChannel value d ch) j =
      if j = ch then (Planes.ofBits (value >>> ch)).apply (view d j) else view d j := by
  rw [view, extractLsb'_inoutChannel value d hch hj, gpio_inoutChannel value d hch hj]
  by_cases hjc : j = ch
  · simp only [hjc, if_true, true_and, Planes.apply, Planes.ofBits, view]
    cases (value >>> ch).getLsbD 0 <;> rfl
  · simp only [hjc, if_false, false_and]
    rfl

/-- All that is no part of a view is the same. -/
structure SameElsewhere (d d' : WrnDrvdata) : Prop where
  iomode : ∀ k < 32, 20 ≤ k → d'.dio.iomode.getLsbD k = d.dio.iomode.getLsbD k
  gpio : ∀ k < 32, (∀ ch ≤ 4, k ≠ 4 * ch) → d'.gpio.getLsbD k = d.gpio.getLsbD k

theorem SameElsewhere.refl (d : WrnDrvdata) : SameElsewhere d d :=
  ⟨fun _ _ _ => rfl, fun _ _ _ => rfl⟩

theorem SameElsewhere.trans {d d' d'' : WrnDrvdata} (h : SameElsewhere d d')
    (h' : SameElsewhere d' d'') : SameElsewhere d d'' where
  iomode k hk hge := (h'.iomode k hk hge).trans (h.iomode k hk hge)
  gpio k hk hne := (h'.gpio k hk hne).trans (h.gpio k hk hne)

theorem sameElsewhere_inoutChannel (value : BitVec 32) (d : WrnDrvdata) {ch : ℕ} (hch : ch ≤ 4) :
    SameElsewhere d (inoutChannel value d ch) where
  iomode k hk hge := by
    have hout : ¬ (4 * ch ≤ k ∧ k < 4 * ch + 4) := by omega
    simp only [inoutChannel]
    rw [getLsbD_writeChannel _ _ (inoutIomode_spec _).1 hch hk, if_neg hout]
  gpio k hk hne := by
    simp only [inoutChannel]
    split_ifs
    · rfl
    · exact (getLsbD_gpio d.gpio true hch hk).trans (if_neg (hne ch hch))
    · exact (getLsbD_gpio d.gpio false hch hk).trans (if_neg (hne ch hch))

/-- The views determine the registers, but for the bits that are no part of them. -/
theorem SameElsewhere.eq_iff {d d₁ d₂ : WrnDrvdata} (h₁ : SameElsewhere d d₁)
    (h₂ : SameElsewhere d d₂) :
    d₁.dio.iomode = d₂.dio.iomode ∧ d₁.gpio = d₂.gpio ↔ ∀ ch ≤ 4, view d₁ ch = view d₂ ch := by
  constructor
  · rintro ⟨hiomode, hgpio⟩ ch -
    rw [view, view, hiomode, hgpio]
  · intro hviews
    constructor
    · refine BitVec.eq_of_getLsbD_eq fun k hk => ?_
      by_cases hge : 20 ≤ k
      · rw [h₁.iomode k hk hge, h₂.iomode k hk hge]
      · have hview := congrArg View.iomode (hviews (k / 4) (by omega))
        have hbit := congrArg (fun x => x.getLsbD (k % 4)) hview
        have hmod : k % 4 < 4 := Nat.mod_lt k (by decide)
        simpa [view, BitVec.getLsbD_extractLsb', hmod, Nat.div_add_mod] using hbit
    · refine BitVec.eq_of_getLsbD_eq fun k hk => ?_
      by_cases hch : ∃ ch ≤ 4, k = 4 * ch
      · obtain ⟨ch, hle, rfl⟩ := hch
        exact congrArg View.gpio (hviews ch hle)
      · have hne : ∀ ch ≤ 4, k ≠ 4 * ch := fun ch hle heq => hch ⟨ch, hle, heq⟩
        rw [h₁.gpio k hk hne, h₂.gpio k hk hne]

/-! ### The structure that the tool fills -/

/-- A mode as the tool reads it for a channel: it is rejected, it is none, or it sets planes. -/
def readMode (ch : ℕ) (c : Char) : Option (Option (ℕ × BitVec 32)) :=
  if c = '-' then some none
  else if ch = 0 ∧ c ∈ ['d', 'D', '0', '1'] then none
  else (modeBits c).map fun bits => some (ch, bits.foldl (· ||| ·) 0)

/-- A pair as the tool reads it. -/
def ModePair.read (p : ModePair) : Option (Option (ℕ × BitVec 32)) :=
  match p.channel.integer, p.mode.text with
  | some ch, [c] => if ch < 0 ∨ 4 < ch then none else readMode ch.toNat c
  | _, _ => none

/-- The channels and planes set by the pairs. -/
def settings (ps : List ModePair) : List (ℕ × BitVec 32) := ps.filterMap fun p => p.read.join

/-- Set the planes of a channel. -/
def applySetting (cmd : WrDioCmd) (s : ℕ × BitVec 32) : WrDioCmd :=
  { cmd with channel := cmd.channel ||| 1 <<< s.1, value := cmd.value ||| shl s.2 s.1 }

theorem shl_or (x y : BitVec 32) (n : ℕ) : shl (x ||| y) n = shl x n ||| shl y n :=
  BitVec.shiftLeft_or_distrib ..

theorem foldl_orValue (index : ℕ) (bits : List (BitVec 32)) (acc : BitVec 32) (cmd : WrDioCmd) :
    bits.foldl (orValue index) { cmd with value := cmd.value ||| shl acc index } =
      { cmd with value := cmd.value ||| shl (bits.foldl (· ||| ·) acc) index } := by
  induction bits generalizing acc with
  | nil => rfl
  | cons b bits ih =>
    rw [List.foldl_cons, List.foldl_cons, ← ih, orValue, shl_or, BitVec.or_assoc]

theorem oneMode_eq (c : Char) (ch : ℕ) (cmd : WrDioCmd) :
    oneMode c ch cmd = (readMode ch c).map fun s => s.elim cmd (applySetting cmd) := by
  unfold oneMode readMode
  split_ifs
  · rfl
  · rfl
  · rw [Option.map_map]
    refine congrArg (fun f => (modeBits c).map f) (funext fun bits => ?_)
    have hfold := foldl_orValue ch bits 0 { cmd with channel := cmd.channel ||| 1 <<< ch }
    have hzero (x : BitVec 32) : x ||| shl 0 ch = x := by simp [shl]
    rw [hzero] at hfold
    exact hfold

/-- The loop handles a pair as it is read. -/
theorem scanPairs_cons (p : ModePair) (args : List Word) (cmd : WrDioCmd) :
    scanPairs (p.channel :: p.mode :: args) cmd =
      p.read.bind fun s => scanPairs args (s.elim cmd (applySetting cmd)) := by
  obtain ⟨⟨-, integer⟩, ⟨text, -⟩⟩ := p
  simp only [scanPairs, ModePair.read]
  cases integer with
  | none => rfl
  | some ch =>
    match text with
    | [] => rfl
    | _ :: _ :: _ => rfl
    | [c] =>
      dsimp only
      by_cases hrange : ch < 0 ∨ 4 < ch
      · rw [if_pos hrange, if_pos hrange, Option.bind_none]
      · rw [if_neg hrange, if_neg hrange, oneMode_eq, Option.bind_map]
        rfl

/-- The loop rejects the pairs exactly when it rejects one of them, and else applies what they
set. -/
theorem scanPairs_pairWords (ps : List ModePair) (cmd : WrDioCmd) :
    scanPairs (pairWords ps) cmd =
      if ∀ p ∈ ps, p.read.isSome then some ((settings ps).foldl applySetting cmd) else none := by
  induction ps generalizing cmd with
  | nil => rfl
  | cons p ps ih =>
    have hwords : pairWords (p :: ps) = p.channel :: p.mode :: pairWords ps := rfl
    rw [hwords, scanPairs_cons]
    cases hread : p.read with
    | none => simp [hread]
    | some s =>
      have hsettings : settings (p :: ps) = s.toList ++ settings ps := by
        cases s <;> simp [settings, hread]
      rw [Option.bind_some, ih, hsettings, List.foldl_append]
      cases s <;> simp [hread]

/-! ### What the driver makes of it -/

/-- The planes set for a channel by the pairs, in their order. -/
def modesOf (ps : List ModePair) (ch : ℕ) : List Planes :=
  ((settings ps).filter fun s => s.1 = ch).map fun s => Planes.ofBits s.2

/-- The bits of a mode lie in the places of channel 0. -/
def Planar (bits : BitVec 32) : Prop := ∀ k < 32, bits.getLsbD k = true → k % 8 = 0

instance (bits : BitVec 32) : Decidable (Planar bits) :=
  inferInstanceAs (Decidable (∀ k < 32, bits.getLsbD k = true → k % 8 = 0))

theorem planar_of_modeBits {c : Char} {bits : List (BitVec 32)} (h : modeBits c = some bits) :
    Planar (bits.foldl (· ||| ·) 0) := by
  unfold modeBits at h
  split at h
  all_goals first
    | (obtain rfl := Option.some.inj h; decide)
    | cases h

/-- What a pair sets is in range. -/
theorem of_mem_settings {ps : List ModePair} {s : ℕ × BitVec 32} (h : s ∈ settings ps) :
    s.1 ≤ 4 ∧ Planar s.2 := by
  obtain ⟨p, -, hp⟩ := List.mem_filterMap.mp h
  rw [Option.join_eq_some_iff] at hp
  unfold ModePair.read at hp
  split at hp
  · split_ifs at hp with hrange
    unfold readMode at hp
    split_ifs at hp with hdash hzero
    · simp at hp
    · obtain ⟨bits, hbits, hs⟩ := Option.map_eq_some_iff.mp hp
      obtain rfl := Option.some.inj hs
      exact ⟨by dsimp only; omega, planar_of_modeBits hbits⟩
  · cases hp

/-- The planes of one channel are not in the place of another. -/
theorem ofBits_or_shl (x : BitVec 32) {bits : BitVec 32} {i ch : ℕ} (hbits : Planar bits)
    (hi : i ≤ 4) (hch : ch ≤ 4) :
    Planes.ofBits ((x ||| shl bits i) >>> ch) =
      (Planes.ofBits (x >>> ch)).or (if i = ch then Planes.ofBits bits else Planes.none) := by
  have hbit : ∀ k ≤ 24, k % 8 = 0 → ((x ||| shl bits i) >>> ch).getLsbD k =
      ((x >>> ch).getLsbD k || (decide (i = ch) && bits.getLsbD k)) := by
    intro k hk hmod
    rw [BitVec.getLsbD_ushiftRight, BitVec.getLsbD_ushiftRight, BitVec.getLsbD_or,
      getLsbD_shl _ (by omega) (by omega)]
    by_cases hich : i = ch
    · subst hich
      simp
    · cases hset : bits.getLsbD (ch + k - i) with
      | false => simp [hich]
      | true =>
        have hplane := hbits (ch + k - i) (by omega) hset
        have hlt : ¬ i ≤ ch + k := by omega
        simp [hich, hlt]
  ext
  all_goals
    simp only [Planes.ofBits, Planes.or]
    rw [hbit _ (by decide) (by decide)]
    by_cases hich : i = ch <;> simp [hich, Planes.none]

/-- The structure after the pairs: its mask, its planes and the fields left alone. -/
theorem foldl_applySetting {ss : List (ℕ × BitVec 32)} (hss : ∀ s ∈ ss, s.1 ≤ 4 ∧ Planar s.2)
    (cmd : WrDioCmd) {ch : ℕ} (hch : ch ≤ 4) :
    (ss.foldl applySetting cmd).flags = cmd.flags ∧
      (ss.foldl applySetting cmd).command = cmd.command ∧
      (ss.foldl applySetting cmd).channel.getLsbD ch =
        (cmd.channel.getLsbD ch || ss.any fun s => s.1 = ch) ∧
      Planes.ofBits ((ss.foldl applySetting cmd).value >>> ch) =
        ((ss.filter fun s => s.1 = ch).map fun s => Planes.ofBits s.2).foldl Planes.or
          (Planes.ofBits (cmd.value >>> ch)) := by
  induction ss generalizing cmd with
  | nil => simp
  | cons s ss ih =>
    obtain ⟨hle, hplanar⟩ := hss s List.mem_cons_self
    obtain ⟨hflags, hcommand, hchannel, hvalue⟩ :=
      ih (fun s hs => hss s (List.mem_cons_of_mem _ hs)) (applySetting cmd s)
    have hbit : (BitVec.ofNat 16 (1 <<< s.1)).getLsbD ch = decide (s.1 = ch) := by
      rw [BitVec.getLsbD_ofNat, Nat.one_shiftLeft, Nat.testBit_two_pow]
      simp
      omega
    refine ⟨hflags, hcommand, ?_, ?_⟩
    · rw [List.foldl_cons, hchannel, List.any_cons]
      simp only [applySetting, BitVec.getLsbD_or]
      rw [← Bool.or_assoc, ← hbit]
      rfl
    · rw [List.foldl_cons, hvalue, applySetting, ofBits_or_shl _ hplanar hle hch]
      by_cases hs : s.1 = ch <;> simp [hs]

/-- The structure that INOUT is passed for the pairs. -/
def pairsCmd (ps : List ModePair) : WrDioCmd :=
  (settings ps).foldl applySetting { staticCmd .inout with flags := wrDioFMask }

/-- One to five pairs are passed to INOUT in one structure, unless one of them is rejected. -/
theorem mainMode_pairWords (utc : UtcReads) (d : WrnDrvdata) {ps : List ModePair}
    (hlo : 1 ≤ ps.length) (hhi : ps.length ≤ 5) :
    mainMode utc (pairWords ps) d =
      if ∀ p ∈ ps, p.read.isSome then ⟨.exit 0, (wrnDioCmdInout d (pairsCmd ps)).drvdata⟩
      else ⟨.exit 1, d⟩ := by
  have hlen : (pairWords ps).length = 2 * ps.length := by
    simp [pairWords, List.length_flatMap, Nat.mul_comm]
  have hargc : ¬ ((pairWords ps).length + 1 < 3 ∨ 11 < (pairWords ps).length + 1 ∨
      ((pairWords ps).length + 1) % 2 = 0) := by omega
  have hscan : scanInout utc (pairWords ps) d (staticCmd .inout) =
      issueInout utc d (scanPairs (pairWords ps)
        { staticCmd .inout with flags := wrDioFMask }) := by
    unfold scanInout
    split
    · rename_i w hw
      rw [hw, List.length_singleton] at hlen
      omega
    · dsimp only
      rw [if_neg hargc]
      rfl
  rw [mainMode, hscan, scanPairs_pairWords]
  split_ifs with hall
  · have hcommand : (pairsCmd ps).command = commandNumber .inout :=
      (foldl_applySetting (fun s hs => of_mem_settings hs) _ (Nat.zero_le 4)).2.1
    have hcall := mezzanineCmd_inout utc d hcommand
    rw [issueInout, ← pairsCmd, hcall]
    rfl
  · rfl

/-- A pair is accepted when the tool can read it. -/
theorem accepted_iff (p : ModePair) : p.Accepted ↔ p.read.isSome = true := by
  have hrun (utc : UtcReads) (d : WrnDrvdata) :=
    mainMode_pairWords utc d (Nat.le_refl [p].length) (Nat.le_add_left 1 4)
  simp only [List.mem_singleton, forall_eq] at hrun
  constructor
  · intro h
    by_contra hread
    have hfin := h ⟨0, 0, 0, 0⟩ (wrnMezzanineInit .zero)
    rw [hrun, if_neg hread] at hfin
    cases hfin
  · intro h utc d
    rw [hrun, if_pos h]

theorem pairsCmd_has (ps : List ModePair) : (pairsCmd ps).has wrDioFMask = true := by
  have hflags : (pairsCmd ps).flags = wrDioFMask :=
    (foldl_applySetting (fun s hs => of_mem_settings hs) _ (Nat.zero_le 4)).1
  rw [WrDioCmd.has, hflags]
  decide

/-- INOUT goes through the channels that have a mode. -/
theorem mem_channels_pairsCmd (ps : List ModePair) {ch : ℕ} (hch : ch ≤ 4) :
    ch ∈ (chSelect (pairsCmd ps)).channels ↔ modesOf ps ch ≠ [] := by
  obtain ⟨-, -, hchannel, -⟩ := foldl_applySetting
    (fun s hs => of_mem_settings hs) { staticCmd .inout with flags := wrDioFMask } hch
  rw [← pairsCmd] at hchannel
  have hlt : ch < 5 := by omega
  rw [channels_mask (pairsCmd_has ps), List.mem_filter, List.mem_range, hchannel, modesOf, Ne,
    List.map_eq_nil_iff, List.filter_eq_nil_iff]
  simp [hlt, staticCmd]

/-- The planes of a channel in the value of the command. -/
theorem ofBits_pairsCmd (ps : List ModePair) {ch : ℕ} (hch : ch ≤ 4) :
    Planes.ofBits ((pairsCmd ps).value >>> ch) = (modesOf ps ch).foldl Planes.or Planes.none := by
  obtain ⟨-, -, -, hvalue⟩ := foldl_applySetting
    (fun s hs => of_mem_settings hs) { staticCmd .inout with flags := wrDioFMask } hch
  rw [← pairsCmd] at hvalue
  have hstart : Planes.ofBits ((0 : BitVec 32) >>> ch) = Planes.none := by
    simp [Planes.ofBits, Planes.none]
  rw [hvalue, ← hstart]
  rfl

/-- INOUT applies to each channel the planes of all its modes together. -/
theorem view_inout (d : WrnDrvdata) (ps : List ModePair) {ch : ℕ} (hch : ch ≤ 4) :
    view (wrnDioCmdInout d (pairsCmd ps)).drvdata ch =
      if modesOf ps ch = [] then view d ch
      else ((modesOf ps ch).foldl Planes.or Planes.none).apply (view d ch) := by
  have hmask := pairsCmd_has ps
  have hmem := mem_channels_pairsCmd ps hch
  have hle := (chSelect_le (Or.inl hmask)).1
  have hnodup : (chSelect (pairsCmd ps)).channels.Nodup := by
    rw [channels_mask hmask]
    exact List.nodup_range.filter _
  have hother : ∀ t, ∀ j ∈ (chSelect (pairsCmd ps)).channels, True → j ≠ ch →
      view (inoutChannel (pairsCmd ps).value t j) ch = view t ch := by
    intro t j hj _ hne
    rw [view_inoutChannel _ t (hle j hj) hch, if_neg hne.symm]
  simp only [wrnDioCmdInout, hmask, if_true]
  by_cases hnil : modesOf ps ch = []
  · rw [if_pos hnil]
    exact run_proj_eq (I := fun _ => True) (f := fun t => view t ch) (fun _ _ _ _ => trivial)
      (fun t j hj _ => hother t j hj trivial fun h => hmem.mp (h ▸ hj) hnil) trivial
  · have hself : ∀ t, True → view (inoutChannel (pairsCmd ps).value t ch) ch =
        (Planes.ofBits ((pairsCmd ps).value >>> ch)).apply (view t ch) := by
      intro t _
      rw [view_inoutChannel _ t hch hch, if_pos rfl]
    rw [if_neg hnil, ← ofBits_pairsCmd ps hch]
    exact run_proj_of_mem (I := fun _ => True) (f := fun t => view t ch)
      (g := (Planes.ofBits ((pairsCmd ps).value >>> ch)).apply) hnodup (hmem.mpr hnil)
      (fun _ _ _ _ => trivial) hself hother trivial

/-- INOUT leaves all else. -/
theorem sameElsewhere_inout (d : WrnDrvdata) (ps : List ModePair) :
    SameElsewhere d (wrnDioCmdInout d (pairsCmd ps)).drvdata := by
  have hle := (chSelect_le (Or.inl (pairsCmd_has ps))).1
  simp only [wrnDioCmdInout]
  generalize (chSelect (pairsCmd ps)).channels = chs at hle
  generalize WrDioCmd.value _ = value
  induction chs generalizing d with
  | nil => exact .refl d
  | cons ch chs ih =>
    have hhead := sameElsewhere_inoutChannel value d (hle ch List.mem_cons_self)
    exact hhead.trans (ih _ fun i hi => hle i (List.mem_cons_of_mem ch hi))

/-! ### One command and several -/

theorem modesOf_cons (p : ModePair) (ps : List ModePair) (ch : ℕ) :
    modesOf (p :: ps) ch = modesOf [p] ch ++ modesOf ps ch := by
  have hsettings : settings (p :: ps) = settings [p] ++ settings ps := by
    rw [settings, settings, settings, ← List.filterMap_append, List.singleton_append]
  rw [modesOf, hsettings, List.filter_append, List.map_append]
  rfl

/-- A pair names at most one mode. -/
theorem modesOf_singleton (p : ModePair) (ch : ℕ) : (modesOf [p] ch).length ≤ 1 := by
  rw [modesOf, List.length_map]
  refine (List.length_filter_le _ _).trans ?_
  rw [settings]
  exact List.length_filterMap_le _ [p]

/-- The commands given one by one apply the modes of a channel one after the other. -/
theorem view_oneByOne (utc : UtcReads) (d : WrnDrvdata) {ps : List ModePair}
    (hps : ∀ p ∈ ps, p.read.isSome) {ch : ℕ} (hch : ch ≤ 4) :
    view (oneByOne utc d ps) ch = (modesOf ps ch).foldl (fun v m => m.apply v) (view d ch) ∧
      SameElsewhere d (oneByOne utc d ps) := by
  induction ps generalizing d with
  | nil => exact ⟨rfl, .refl d⟩
  | cons p ps ih =>
    have hp := hps p List.mem_cons_self
    have hstep : (mainMode utc (pairWords [p]) d).drvdata =
        (wrnDioCmdInout d (pairsCmd [p])).drvdata := by
      rw [mainMode_pairWords utc d (Nat.le_refl [p].length) (Nat.le_add_left 1 4), if_pos]
      simpa using hp
    obtain ⟨hview, helse⟩ := ih (mainMode utc (pairWords [p]) d).drvdata
      fun q hq => hps q (List.mem_cons_of_mem p hq)
    have hone : view (mainMode utc (pairWords [p]) d).drvdata ch =
        (modesOf [p] ch).foldl (fun v m => m.apply v) (view d ch) := by
      have hlen := modesOf_singleton p ch
      rw [hstep, view_inout d [p] hch]
      match hmodes : modesOf [p] ch with
      | [] => rfl
      | [m] => simp
      | _ :: _ :: _ => simp [hmodes] at hlen
    refine ⟨?_, ?_⟩
    · rw [modesOf_cons, List.foldl_append, ← hone]
      exact hview
    · exact (hstep ▸ sameElsewhere_inout d [p]).trans helse

/-- The last of the modes has all bits of the others; and if it is none of the GPIO, the bit of
the GPIO is already what the last of those that are makes it. -/
def LastCovers (modes : List Planes) (gpio : Bool) : Prop :=
  ∀ last ∈ modes.getLast?, (∀ m ∈ modes, m.or last = last) ∧
    (last.dio = true → ∀ g ∈ (modes.filter fun m => !m.dio).getLast?, g.value = gpio)

instance (modes : List Planes) (gpio : Bool) : Decidable (LastCovers modes gpio) :=
  inferInstanceAs (Decidable (∀ last ∈ modes.getLast?, (∀ m ∈ modes, m.or last = last) ∧
    (last.dio = true → ∀ g ∈ (modes.filter fun m => !m.dio).getLast?, g.value = gpio)))

/-- Modes applied one after the other leave the bits of the last one, and in the GPIO the value
of the last that is of the GPIO. -/
theorem gpio_foldl_apply (modes : List Planes) (v : View) :
    (modes.foldl (fun v m => m.apply v) v).gpio =
      ((modes.filter fun m => !m.dio).getLast?.map Planes.value).getD v.gpio := by
  induction modes using List.reverseRecOn with
  | nil => rfl
  | append_singleton modes m ih =>
    rw [List.foldl_append, List.filter_append]
    cases hdio : m.dio with
    | false =>
      have hone : [m].filter (fun m => !m.dio) = [m] := by simp [hdio]
      rw [hone, List.getLast?_concat]
      simp [Planes.apply, hdio]
    | true =>
      have hnil : [m].filter (fun m => !m.dio) = [] := by simp [hdio]
      rw [hnil, List.append_nil, ← ih]
      exact if_pos hdio

theorem foldl_or_eq_iff (modes : List Planes) (m : Planes) :
    (modes.foldl Planes.or Planes.none).or m = m ↔ ∀ m' ∈ modes, m'.or m = m := by
  induction modes using List.reverseRecOn with
  | nil => simp
  | append_singleton modes a ih =>
    rw [List.foldl_append, List.foldl_cons, List.foldl_nil, Planes.or_or_eq_iff, ih]
    simp [or_imp, forall_and]

/-- Bits in addition to those of a mode make no difference when there are none, and what is in the
GPIO is the same. -/
theorem apply_or_eq_iff (s m : Planes) (v v' : View) :
    (s.or m).apply v = m.apply v' ↔ (s.or m).or m = m ∧ (m.dio = true → v'.gpio = v.gpio) := by
  rw [View.ext_iff, Planes.apply, Planes.apply, Planes.iomode_eq_iff]
  obtain ⟨-, g⟩ := v
  obtain ⟨-, g'⟩ := v'
  obtain ⟨d, x, o, t⟩ := m
  obtain ⟨d', x', o', t'⟩ := s
  simp only [Planes.or, Planes.ext_iff]
  revert d x o t d' x' o' t' g g'
  decide

/-- All modes at once are the modes one after the other exactly when the last covers them. -/
theorem apply_or_iff (modes : List Planes) (v : View) :
    (if modes = [] then v else (modes.foldl Planes.or Planes.none).apply v) =
      modes.foldl (fun v m => m.apply v) v ↔ LastCovers modes v.gpio := by
  rcases List.eq_nil_or_concat modes with rfl | ⟨modes, m, rfl⟩
  · simp [LastCovers]
  · rw [List.concat_eq_append]
    have hcovers := foldl_or_eq_iff (modes ++ [m]) m
    rw [List.foldl_append, List.foldl_cons, List.foldl_nil] at hcovers
    have hgpio : m.dio = true → ((modes.foldl (fun v m => m.apply v) v).gpio = v.gpio ↔
        ∀ g ∈ ((modes ++ [m]).filter fun m => !m.dio).getLast?, g.value = v.gpio) := by
      intro hdio
      have hnil : [m].filter (fun m => !m.dio) = [] := by simp [hdio]
      rw [gpio_foldl_apply, List.filter_append, hnil, List.append_nil]
      cases (modes.filter fun m => !m.dio).getLast? <;> simp
    rw [if_neg (by simp), List.foldl_append, List.foldl_append, List.foldl_cons, List.foldl_nil,
      List.foldl_cons, List.foldl_nil, apply_or_eq_iff, hcovers, LastCovers]
    simp only [List.getLast?_concat, Option.mem_some_iff, forall_eq']
    exact and_congr_right fun _ => forall_congr' hgpio

/-! ### The main result -/

/-- A command with several pairs leaves the `IOMODE` register and the GPIO output bits as the single
commands do, if each of these is accepted; else it writes no register. -/
def PairsAgree (utc : UtcReads) (d : WrnDrvdata) (ps : List ModePair) : Prop :=
  let d' := (mainMode utc (pairWords ps) d).drvdata
  ((∀ p ∈ ps, p.Accepted) → d'.dio.iomode = (oneByOne utc d ps).dio.iomode ∧
    d'.gpio = (oneByOne utc d ps).gpio) ∧ (¬ (∀ p ∈ ps, p.Accepted) → d' = d)

/-- **The `mode` command.** One to five pairs in one command do what the commands given one by one
do exactly when, unless one of the pairs is rejected, the last mode of each channel covers the other
modes named for it. -/
theorem mainMode_pairs_iff (utc : UtcReads) (d : WrnDrvdata) (ps : List ModePair)
    (hlo : 1 ≤ ps.length) (hhi : ps.length ≤ 5) :
    PairsAgree utc d ps ↔
      ((∀ p ∈ ps, p.Accepted) →
        ∀ ch ≤ 4, LastCovers (modesOf ps ch) (d.gpio.getLsbD (4 * ch))) := by
  have haccepted : (∀ p ∈ ps, p.Accepted) ↔ ∀ p ∈ ps, p.read.isSome :=
    forall₂_congr fun p _ => accepted_iff p
  rw [PairsAgree, mainMode_pairWords utc d hlo hhi, haccepted]
  by_cases hall : ∀ p ∈ ps, p.read.isSome
  · rw [if_pos hall]
    have helse := (view_oneByOne utc d hall (Nat.zero_le 4)).2
    refine (and_iff_left fun hnot => absurd hall hnot).trans (imp_congr_right fun _ => ?_)
    rw [(sameElsewhere_inout d ps).eq_iff helse]
    refine forall₂_congr fun ch hch => ?_
    rw [view_inout d ps hch, (view_oneByOne utc d hall hch).1, apply_or_iff]
    rfl
  · rw [if_neg hall]
    simp [hall]

/-- The pair of a channel and a mode letter. -/
def ModePair.of (ch : ℕ) (c : Char) : ModePair := ⟨⟨(toString ch).toList, some ch⟩, ⟨[c], none⟩⟩

/-- `mode 1 i 1 I 4 0`, on a card with all registers zero. -/
theorem mainMode_pairs_three : PairsAgree ⟨0, 0, 0, 0⟩ (wrnMezzanineInit .zero)
    [.of 1 'i', .of 1 'I', .of 4 '0'] :=
  (mainMode_pairs_iff _ _ _ (by decide) (by decide)).mpr fun _ => by decide

/-- `mode 1 d 1 c` connects channel 1 to the WRPC as an output; `mode 1 c` after `mode 1 d` makes it
an input. -/
theorem not_forall_mainMode_pairs : ¬ ∀ (utc : UtcReads) (d : WrnDrvdata) (ps : List ModePair),
    1 ≤ ps.length → ps.length ≤ 5 → PairsAgree utc d ps := by
  intro hall
  obtain ⟨hiomode, -⟩ := (hall ⟨0, 0, 0, 0⟩ (wrnMezzanineInit .zero) [.of 1 'd', .of 1 'c']
    (by decide) (by decide)).1 (by
      intro p hp
      rw [accepted_iff]
      revert p
      decide)
  revert hiomode
  decide

end SpecSw.Tools
