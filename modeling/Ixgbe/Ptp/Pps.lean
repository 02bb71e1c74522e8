import Ixgbe.Hw.Basic

/-! # Realignment of the 1PPS output

`ixgbe_ptp_update_1pps_e600`. A start in the past is rounded up already; the shift by 31 loses the
upper bits of late times. -/

namespace Ixgbe

open Nat

/-- `hw_cc.mult` as `ixgbe_ptp_adjfine_e600` sets it. -/
def adjfineMult (scaledPpm : ℤ) : ℕ :=
  (((2 : ℤ) ^ 31 + (scaledPpm * 2 ^ 9).tdiv 15625) % 2 ^ 32).toNat

def ppsPeriod (mult : ℕ) : ℕ := 10 ^ 9 <<< 31 / mult % 2 ^ 32

/-- `FREQOUT0`, `TRGTTIML0` and `TRGTTIMH0`; `phc` is the counter. -/
def ptpUpdate1pps (mult frac trgttiml trgttimh phc : ℕ) : ℕ × ℕ × ℕ :=
  let period := ppsPeriod mult
  let start := trgttiml + trgttimh * 10 ^ 9
  let start := (start + period / 2) / period * period
  let start := if start < phc then (start + period - 1) / period * period else start
  let start := start <<< 31 % 2 ^ 64 / mult + frac
  (period / 2, start % 10 ^ 9, start / 10 ^ 9 % 2 ^ 32)

def targetTime (regs : ℕ × ℕ) : ℕ := regs.1 + regs.2 * 10 ^ 9

/-- Not in the past, less than two periods ahead, a multiple but for `frac`. -/
def StartsWell (period frac phc start : ℕ) : Prop :=
  phc ≤ start ∧ start < phc + 2 * period ∧ frac ≤ start ∧ period ∣ start - frac

/-- The number of periods closest to the old start; half a period is rounded up. -/
def closestPeriods (mult trgttiml trgttimh : ℕ) : ℕ :=
  (trgttiml + trgttimh * 10 ^ 9 + ppsPeriod mult / 2) / ppsPeriod mult

/-- A start after `k` periods is neither in the past nor two periods ahead. -/
def Timely (period frac phc k : ℕ) : Prop :=
  phc ≤ k * period + frac ∧ k * period + frac < phc + 2 * period

theorem adjfineMult_bounds {scaledPpm : ℤ} (h : |scaledPpm| * 1000 ≤ 500000000 * 2 ^ 16) :
    2 ^ 30 ≤ adjfineMult scaledPpm ∧ adjfineMult scaledPpm ≤ 3 * 2 ^ 30 := by
  have hdiv : ((scaledPpm * 2 ^ 9).tdiv 15625).natAbs = scaledPpm.natAbs * 2 ^ 9 / 15625 := by
    rw [Int.natAbs_tdiv, Int.natAbs_mul]
    rfl
  rw [Int.abs_eq_natAbs] at h
  unfold adjfineMult
  generalize (scaledPpm * 2 ^ 9).tdiv 15625 = adj at hdiv
  rw [Int.emod_eq_of_lt (by omega) (by omega)]
  omega

theorem roundup_multiple (k : ℕ) {p : ℕ} (hp : 0 < p) : (k * p + p - 1) / p * p = k * p := by
  rw [Nat.add_sub_assoc hp, Nat.mul_comm k, mul_add_div hp, div_eq_of_lt (by omega),
    Nat.add_zero, Nat.mul_comm]

theorem ppsPeriod_pos {mult : ℕ} (hlo : 2 ^ 30 ≤ mult) (hhi : mult ≤ 3 * 2 ^ 30) :
    0 < ppsPeriod mult := by
  have hle : 2 ^ 29 ≤ 10 ^ 9 <<< 31 / mult := by
    rw [Nat.le_div_iff_mul_le (by omega), shiftLeft_eq]
    omega
  have hlt : 10 ^ 9 <<< 31 / mult < 2 ^ 32 := by
    rw [Nat.div_lt_iff_lt_mul (by omega), shiftLeft_eq]
    omega
  change 0 < 10 ^ 9 <<< 31 / mult % 2 ^ 32
  omega

/-- The round-up of a start in the past does nothing, and the shift keeps 33 bits. -/
theorem targetTime_ptpUpdate1pps {mult frac : ℕ} (hlo : 2 ^ 30 ≤ mult) (hhi : mult ≤ 3 * 2 ^ 30)
    (hfrac : frac < 2 ^ 31) (trgttiml trgttimh phc : ℕ) :
    ∃ t < 2 ^ 34, targetTime (ptpUpdate1pps mult frac trgttiml trgttimh phc).2 = t + frac ∧
      t = closestPeriods mult trgttiml trgttimh * ppsPeriod mult % 2 ^ 33 * 2 ^ 31 / mult := by
  let closest := closestPeriods mult trgttiml trgttimh * ppsPeriod mult
  -- a multiple of the period is not rounded up
  have hstart : (if closest < phc then (closest + ppsPeriod mult - 1) / ppsPeriod mult *
      ppsPeriod mult else closest) = closest := by
    split_ifs
    · exact roundup_multiple _ (ppsPeriod_pos hlo hhi)
    · rfl
  have hshift : closest <<< 31 % 2 ^ 64 = closest % 2 ^ 33 * 2 ^ 31 := by
    omega
  have hsmall : closest % 2 ^ 33 * 2 ^ 31 / mult < 2 ^ 34 := by
    rw [Nat.div_lt_iff_lt_mul (by omega)]
    omega
  refine ⟨_, hsmall, ?_, rfl⟩
  change ((if closest < phc then (closest + ppsPeriod mult - 1) / ppsPeriod mult * ppsPeriod mult
      else closest) <<< 31 % 2 ^ 64 / mult + frac) % 10 ^ 9 +
    ((if closest < phc then (closest + ppsPeriod mult - 1) / ppsPeriod mult * ppsPeriod mult
      else closest) <<< 31 % 2 ^ 64 / mult + frac) / 10 ^ 9 % 2 ^ 32 * 10 ^ 9 =
      closest % 2 ^ 33 * 2 ^ 31 / mult + frac
  rw [hstart, hshift]
  generalize closest % 2 ^ 33 * 2 ^ 31 / mult = t at hsmall
  omega

theorem periods_div (n p x : ℕ) {m : ℕ} (hm : 0 < m) :
    n * p * x / m = n * x / m * p + p * (n * x % m) / m := by
  have hx : n * p * x = p * (n * x % m) + m * (n * x / m * p) := by
    calc n * p * x = (n * x % m + m * (n * x / m)) * p := by
          rw [mod_add_div, Nat.mul_right_comm]
      _ = p * (n * x % m) + m * (n * x / m * p) := by ring
  rw [hx, add_mul_div_left _ _ hm, Nat.add_comm]

/-- The quotient is a number of periods if the remainder makes up for less than a unit. -/
theorem dvd_periods_div_iff {n p x m : ℕ} (hm : 0 < m) (hp : 0 < p) :
    p ∣ n * p * x / m ↔ p * (n * x % m) < m := by
  rw [periods_div n p x hm, Nat.dvd_add_right (Nat.dvd_mul_left ..), ← div_eq_zero_iff_lt hm]
  refine ⟨fun hdvd => eq_zero_of_dvd_of_lt hdvd ?_, fun h => h ▸ Nat.dvd_zero p⟩
  rw [Nat.div_lt_iff_lt_mul hm]
  exact Nat.mul_lt_mul_of_pos_left (mod_lt _ hm) hp

/-- **The output is realigned well**, as long as the shift by 31 does not overflow, if and only if
the multiplier divides the shifted number of periods but for a remainder that one period does not
turn into a unit, and the quotient is in the window; the round-up never helps. Past the overflow
33 bits of the start count, and a counter beyond `2 ^ 34` is never reached. -/
theorem pps_realigned_iff (scaledPpm : ℤ) (hadj : |scaledPpm| * 1000 ≤ 500000000 * 2 ^ 16)
    (mult : ℕ) (hmult : adjfineMult scaledPpm = mult) (trgttiml trgttimh phc frac : ℕ)
    (hfrac : frac < 2 ^ 31) :
    (StartsWell (ppsPeriod mult) frac phc
        (targetTime (ptpUpdate1pps mult frac trgttiml trgttimh phc).2) ↔
      if closestPeriods mult trgttiml trgttimh * ppsPeriod mult < 2 ^ 33 then
        ppsPeriod mult * (closestPeriods mult trgttiml trgttimh * 2 ^ 31 % mult) < mult ∧
        Timely (ppsPeriod mult) frac phc
          (closestPeriods mult trgttiml trgttimh * 2 ^ 31 / mult)
      else ∃ k, Timely (ppsPeriod mult) frac phc k ∧ k * ppsPeriod mult * mult ≤
          closestPeriods mult trgttiml trgttimh * ppsPeriod mult % 2 ^ 33 * 2 ^ 31 ∧
        closestPeriods mult trgttiml trgttimh * ppsPeriod mult % 2 ^ 33 * 2 ^ 31 <
          (k * ppsPeriod mult + 1) * mult) ∧
    (2 ^ 34 + frac ≤ phc → ¬ StartsWell (ppsPeriod mult) frac phc
      (targetTime (ptpUpdate1pps mult frac trgttiml trgttimh phc).2)) := by
  obtain ⟨hlo, hhi⟩ := hmult ▸ adjfineMult_bounds hadj
  obtain ⟨t, hlt, htarget, ht⟩ := targetTime_ptpUpdate1pps hlo hhi hfrac trgttiml trgttimh phc
  rw [htarget, StartsWell, Nat.add_sub_cancel]
  refine ⟨?_, fun hlate hwell => absurd hwell.1 (by omega)⟩
  have hm : 0 < mult := by omega
  split_ifs with hfits
  · rw [mod_eq_of_lt hfits] at ht
    have hdvd : ppsPeriod mult ∣ t ↔ _ < mult :=
      ht ▸ dvd_periods_div_iff hm (ppsPeriod_pos hlo hhi)
    have hwhole (hd : ppsPeriod mult ∣ t) :
        t = closestPeriods mult trgttiml trgttimh * 2 ^ 31 / mult * ppsPeriod mult := by
      rw [ht, periods_div _ _ _ hm, div_eq_of_lt (hdvd.mp hd), Nat.add_zero]
    rw [← hdvd]
    constructor
    · rintro ⟨hpast, hfar, -, hd⟩
      rw [hwhole hd] at hpast hfar
      exact ⟨hd, hpast, hfar⟩
    · rintro ⟨hd, hpast, hfar⟩
      rw [hwhole hd]
      exact ⟨hpast, hfar, Nat.le_add_left .., Nat.dvd_mul_left ..⟩
  · have hquot (c : ℕ) : t = c ↔ c * mult ≤ closestPeriods mult trgttiml trgttimh *
        ppsPeriod mult % 2 ^ 33 * 2 ^ 31 ∧ closestPeriods mult trgttiml trgttimh *
        ppsPeriod mult % 2 ^ 33 * 2 ^ 31 < (c + 1) * mult := by
      rw [← Nat.le_div_iff_mul_le hm, ← Nat.div_lt_iff_lt_mul hm, ← ht]
      omega
    constructor
    · rintro ⟨hpast, hfar, -, k, hk⟩
      rw [Nat.mul_comm] at hk
      exact ⟨k, ⟨hk ▸ hpast, hk ▸ hfar⟩, (hquot _).mp hk⟩
    · rintro ⟨k, ⟨hpast, hfar⟩, hk⟩
      rw [(hquot _).mpr hk]
      exact ⟨hpast, hfar, Nat.le_add_left .., Nat.dvd_mul_left ..⟩

theorem pps_realigned_ahead :
    StartsWell (ppsPeriod (adjfineMult 0)) 0 4500000000
      (targetTime (ptpUpdate1pps (adjfineMult 0) 0 0 5 4500000000).2) :=
  (pps_realigned_iff 0 (by decide) _ rfl 0 5 4500000000 0 (by decide)).1.2
    (by rw [if_pos (by decide), Timely]; decide)

/-- A start 2 s in the past stays there; one at 9 s, ahead of the counter, is moved to 0.41 s. -/
theorem pps_in_the_past :
    ¬ StartsWell (ppsPeriod (adjfineMult 0)) 0 7000000000
        (targetTime (ptpUpdate1pps (adjfineMult 0) 0 0 5 7000000000).2) ∧
      ¬ StartsWell (ppsPeriod (adjfineMult 0)) 0 8500000000
        (targetTime (ptpUpdate1pps (adjfineMult 0) 0 0 9 8500000000).2) := by
  unfold StartsWell
  decide

end Ixgbe
