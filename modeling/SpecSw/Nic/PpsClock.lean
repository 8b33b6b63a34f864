import SpecSw.Nic.Receive

/-!
# Hardware time stamps get the right second

A hardware time stamp is a count of clock cycles within a second. The driver completes it with the
seconds of the PPS generator, read later: `wrn_ppsg_read_time` reads the seconds, the cycles and the
seconds again, and the cycles once more if the second has changed meanwhile. The stamp is in the
previous second when the cycles read are below it.

Here the PPS generator is a clock. Time is counted in cycles of `REFCLK_FREQ`, so an event at the
cycle `c` of second `S` happens at `S * REFCLK_FREQ + c`, and the registers at the time `t` hold the
second of `t`, modulo `2 ^ 32`, and its cycle. If all reads are made less than a second after the
event, the three places that complete a time stamp get the second of the event
(`hwTstamp_second`).

## Main definitions

* `Nic.cntrUtclo`, `Nic.cntrNsec`: the registers of the PPS generator.
* `Nic.ReadTimes`, `Nic.ReadTimes.Follow`.

## Main results

* `Nic.backdated_second`, `Nic.hwTstamp_second`.
-/

namespace SpecSw.Nic

/-- `REFCLK_FREQ`: the cycles of a second. -/
def refclkFreq : ℕ := 125000000

/-- `CNTR_UTCLO` at the time `t`. -/
def cntrUtclo (t : ℕ) : BitVec 32 := BitVec.ofNat 32 (t / refclkFreq)

/-- `CNTR_NSEC` at the time `t`; the register counts cycles. -/
def cntrNsec (t : ℕ) : BitVec 32 := BitVec.ofNat 32 (t % refclkFreq)

/-- The times of the register reads of `wrn_ppsg_read_time`, in the order of the code. -/
structure ReadTimes where
  utc1 : ℕ
  cnt1 : ℕ
  utc2 : ℕ
  cnt2 : ℕ

/-- What the reads return. -/
def ReadTimes.reads (t : ReadTimes) : PpsgReads :=
  ⟨cntrUtclo t.utc1, cntrNsec t.cnt1, cntrUtclo t.utc2, cntrNsec t.cnt2⟩

/-- The reads are made in order, none before the time `e` and all less than a second after it; the
last one only if it is made. -/
structure ReadTimes.Follow (t : ReadTimes) (e : ℕ) : Prop where
  utc1 : e ≤ t.utc1
  cnt1 : t.utc1 ≤ t.cnt1
  utc2 : t.cnt1 ≤ t.utc2
  utc2_lt : t.utc2 < e + refclkFreq
  cnt2 : t.reads.utc2 ≠ t.reads.utc1 → t.utc2 ≤ t.cnt2 ∧ t.cnt2 < e + refclkFreq

/-! ### The clock -/

theorem cntrNsec_toNat (t : ℕ) : (cntrNsec t).toNat = t % refclkFreq := by
  rw [cntrNsec, BitVec.toNat_ofNat, Nat.mod_eq_of_lt]
  simp only [refclkFreq]
  omega

/-- Less than a second after the cycle `c` of second `S` the clock is in the same second, at or
behind that cycle, or in the next one, before it. -/
theorem clock_cases {S c t : ℕ} (hc : c < refclkFreq) (hlo : S * refclkFreq + c ≤ t)
    (hhi : t < S * refclkFreq + c + refclkFreq) :
    (t / refclkFreq = S ∧ c ≤ t % refclkFreq) ∨ (t / refclkFreq = S + 1 ∧ t % refclkFreq < c) := by
  simp only [refclkFreq] at *
  omega

/-- Reads of the seconds less than a second apart differ exactly if the second has changed. -/
theorem cntrUtclo_eq_iff {t u : ℕ} (htu : t ≤ u) (hlt : u < t + refclkFreq) :
    cntrUtclo u = cntrUtclo t ↔ u / refclkFreq = t / refclkFreq := by
  constructor
  · intro heq
    have hle : t / refclkFreq ≤ u / refclkFreq ∧ u / refclkFreq ≤ t / refclkFreq + 1 := by
      simp only [refclkFreq] at *
      omega
    by_contra hne
    have hsucc : u / refclkFreq = t / refclkFreq + 1 := by omega
    rw [cntrUtclo, cntrUtclo, hsucc, BitVec.ofNat_add] at heq
    simp at heq
  · intro heq
    rw [cntrUtclo, cntrUtclo, heq]

/-- A cycle and a second read in the same second give the second of the event, once the second is
moved back by one if the cycle is below that of the event. -/
theorem backdate_of_same {S t u : ℕ} {cycles : BitVec 32} (hc : cycles.toNat < refclkFreq)
    (ht : S * refclkFreq + cycles.toNat ≤ t)
    (hlt : t < S * refclkFreq + cycles.toNat + refclkFreq)
    (htu : t / refclkFreq = u / refclkFreq) :
    (if cntrNsec t < cycles then cntrUtclo u - 1 else cntrUtclo u) = BitVec.ofNat 32 S := by
  have hiff : cntrNsec t < cycles ↔ t % refclkFreq < cycles.toNat := by
    rw [BitVec.lt_def, cntrNsec_toNat]
  rw [cntrUtclo, ← htu]
  rcases clock_cases hc ht hlt with ⟨hsec, hcyc⟩ | ⟨hsec, hcyc⟩
  · rw [if_neg (mt hiff.mp (Nat.not_lt.mpr hcyc)), hsec]
  · rw [if_pos (hiff.mpr hcyc), hsec, BitVec.ofNat_add]
    exact BitVec.add_sub_cancel _ _

/-- **The second of an event.** The seconds that `wrn_ppsg_read_time` returns, moved back by one if
the cycles it returns are below those of the event, are those of the event. -/
theorem backdated_second {S : ℕ} {cycles : BitVec 32} (hc : cycles.toNat < refclkFreq)
    {t : ReadTimes} (ht : t.Follow (S * refclkFreq + cycles.toNat)) :
    (if (wrnPpsgReadTime t.reads).1 < cycles then (wrnPpsgReadTime t.reads).2 - 1
      else (wrnPpsgReadTime t.reads).2) = BitVec.ofNat 32 S := by
  have h1 := ht.utc1
  have h2 := ht.cnt1
  have h3 := ht.utc2
  have h4 := ht.utc2_lt
  have hiff : t.reads.utc2 = t.reads.utc1 ↔ t.utc2 / refclkFreq = t.utc1 / refclkFreq :=
    cntrUtclo_eq_iff (h2.trans h3) (by omega)
  by_cases hsame : t.reads.utc2 = t.reads.utc1
  · -- the first cycle read lies between two reads of the same second
    have hsecs : t.cnt1 / refclkFreq = t.utc2 / refclkFreq := by
      have hle := Nat.div_le_div_right (c := refclkFreq) h2
      have hle' := Nat.div_le_div_right (c := refclkFreq) h3
      have := hiff.mp hsame
      omega
    simp only [wrnPpsgReadTime, hsame, ne_eq, not_true_eq_false, if_false]
    rw [← hsame]
    exact backdate_of_same hc (h1.trans h2) (by omega) hsecs
  · -- the second has changed since the event and does not change again before the last read
    obtain ⟨h5, h6⟩ := ht.cnt2 hsame
    have hsecs : t.cnt2 / refclkFreq = t.utc2 / refclkFreq := by
      have hne := mt hiff.mpr hsame
      have hle := Nat.div_le_div_right (c := refclkFreq) h5
      have hle' := Nat.div_le_div_right (c := refclkFreq) (h2.trans h3)
      rcases clock_cases hc (by omega) h6 with ⟨hsec, -⟩ | ⟨hsec, -⟩ <;>
        rcases clock_cases (t := t.utc1) hc h1 (by omega) with ⟨hsec', -⟩ | ⟨hsec', -⟩ <;> omega
    simp only [wrnPpsgReadTime, ne_eq, hsame, not_false_eq_true, if_true]
    exact backdate_of_same hc (by omega) h6 hsecs

/-! ### The three places that complete a time stamp -/

theorem toNat_and_31 (x : BitVec 32) : (x &&& 0x7fffffff).toNat = x.toNat % 2 ^ 31 := by
  rw [BitVec.toNat_and, ← Nat.and_two_pow_sub_one_eq_mod]
  rfl

/-- Bit 31 is cleared again, whether or not it has been set. -/
theorem and_not_bit31 (x : BitVec 32) (p : Prop) [Decidable p] :
    (if p then x &&& 0x7fffffff ||| 0x80000000 else x &&& 0x7fffffff) &&& ~~~0x80000000 =
      x &&& 0x7fffffff := by
  have hmask : ~~~(0x80000000 : BitVec 32) = 0x7fffffff := by decide
  rw [hmask]
  split_ifs
  · rw [BitVec.and_comm, BitVec.and_or_distrib_left, BitVec.and_comm, BitVec.and_assoc]
    simp
  · rw [BitVec.and_assoc, BitVec.and_self]

theorem toNat_second (S : ℕ) : (BitVec.ofNat 32 S &&& 0x7fffffff).toNat = S % 2 ^ 31 := by
  rw [toNat_and_31, BitVec.toNat_ofNat]
  omega

variable {S : ℕ} {cycles : BitVec 32} {t : ReadTimes}

/-- `wrn_tx_tstamp_skb` and `record_tstamp` compute the time of the event. -/
theorem txTime_eq (hc : cycles.toNat < refclkFreq)
    (ht : t.Follow (S * refclkFreq + cycles.toNat)) :
    txTime t.reads cycles = ⟨(S % 2 ^ 31 : ℕ), (8 * cycles.toNat : ℕ)⟩ := by
  simp only [txTime, backdated_second hc ht, toNat_second]
  rw [Nat.mul_comm 8]
  rfl

/-- `__wrn_rx_descriptor` computes the time of the event, whatever the falling-edge counter is. -/
theorem rxTime_eq (hc : cycles.toNat < refclkFreq)
    (ht : t.Follow (S * refclkFreq + cycles.toNat)) (tsF : BitVec 32) :
    rxTime t.reads cycles tsF = ⟨(S % 2 ^ 31 : ℕ), (8 * cycles.toNat : ℕ)⟩ := by
  have hns : cycles.toNat * 8 % 2 ^ 31 = 8 * cycles.toNat := by
    simp only [refclkFreq] at hc
    omega
  simp only [rxTime, backdated_second hc ht, and_not_bit31, toNat_second, hns]

/-- **Hardware time stamps.** For an event at the cycle `c` of second `S`, and reads in order less
than a second after it, a received frame, a frame whose time stamp has been saved and a frame found
by `record_tstamp` are all given the second `S`, modulo `2 ^ 31`, and `8 * c` nanoseconds. -/
theorem hwTstamp_second {S c : ℕ} (hc : c < refclkFreq) {t : ReadTimes}
    (ht : t.Follow (S * refclkFreq + c)) :
    (∀ (fresh : ℤ → Byte) (nic : NicDev) (desc : Desc), (nic.rxd desc).errored = false →
      (nic.rxd desc).port = 0 → (nic.rxd desc).rx1 &&& nicRx1TsIncorrect = 0 →
      (nic.rxd desc).tsR.toNat = c →
      ∃ skb, (wrnRxDescriptor t.reads fresh nic desc).received = nic.received ++ [skb] ∧
        skb.hwtstamp = some ⟨(S % 2 ^ 31 : ℕ), (8 * c : ℕ)⟩) ∧
    (∀ (wrn : WrnDev) (desc : Desc) (skb : SkBuff), (wrn.skbDesc desc).skb = some skb →
      (wrn.skbDesc desc).valid ≠ 0 → (wrn.skbDesc desc).valid &&& tsInvalid = 0 →
      (wrn.skbDesc desc).cycles.toNat = c →
      (wrnTxTstampSkb t.reads wrn desc).stamped =
        (skb.handle, ⟨(S % 2 ^ 31 : ℕ), (8 * c : ℕ)⟩) :: wrn.stamped) ∧
    (∀ (wrn : WrnDev) (tsval idreg r2 : BitVec 32) (i : Desc) (skb : SkBuff),
      findSkb wrn (txtsuFid idreg) = some i → (wrn.skbDesc i).skb = some skb → r2 &&& 1 = 0 →
      (tsval &&& 0xfffffff).toNat = c →
      (recordTstamp t.reads wrn tsval idreg r2).stamped =
        (skb.handle, ⟨(S % 2 ^ 31 : ℕ), (8 * c : ℕ)⟩) :: wrn.stamped) := by
  refine ⟨?_, ?_, ?_⟩
  · rintro fresh nic desc herr hport hok rfl
    simp only [wrnRxDescriptor, herr, hport, hok, rxTime_eq hc ht, Bool.false_eq_true, if_false,
      ne_eq, not_true_eq_false, if_true]
    exact ⟨_, rfl, rfl⟩
  · rintro wrn desc skb hskb hvalid hinvalid rfl
    simp only [wrnTxTstampSkb, hskb, hvalid, hinvalid, if_false, if_true, txTime_eq hc ht]
    rfl
  · rintro wrn tsval idreg r2 i skb hfind hskb hok rfl
    simp only [recordTstamp, hfind, hskb, hok, if_true, txTime_eq hc ht]
    rfl

/-- The last cycle of a second, with the roll-over after the first read. -/
theorem hwTstamp_second_rollOver :
    (wrnTxTstampSkb (ReadTimes.reads ⟨999999999, 1000000000, 1000000000, 1000000000⟩)
      ((wrnProbe ⟨fun _ => 0, fun _ => 0, fun _ => 0⟩).setDesc 0
        ⟨some ⟨⟨60, fun _ => 0, 1⟩, 5⟩, 1, 1, 124999999⟩) 0).stamped = [(5, ⟨7, 999999992⟩)] :=
  (hwTstamp_second (S := 7) (c := 124999999) (by decide)
    ⟨by decide, by decide, by decide, by decide, fun _ => ⟨by decide, by decide⟩⟩).2.1
    _ 0 ⟨⟨60, fun _ => 0, 1⟩, 5⟩ rfl (by decide) (by decide) rfl

end SpecSw.Nic
