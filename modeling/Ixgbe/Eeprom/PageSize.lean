import Ixgbe.Eeprom.SpiWrite
import Mathlib.Tactic.IntervalCases

/-! # Page-size detection

The driver writes 128 words that count up, which wrap within the real page, and reads the first
address back. -/

namespace Ixgbe

open PageWrap List Nat

theorem endsBurst_pageSizeMax (a : ℕ) :
    endsBurst (BitVec.ofNat 16 eepromPageSizeMax) a = decide (a % 128 = 127) := by
  have hmod : a &&& 127 = a % 128 := and_two_pow_sub_one_eq_mod a 7
  change (false || a &&& 127 == 127) = decide (a % 128 = 127)
  rw [hmod, Bool.false_or]
  rfl

theorem burstLen_pageSizeMax (a n : ℕ) :
    burstLen (BitVec.ofNat 16 eepromPageSizeMax) a n = min n (128 - a % 128) := by
  induction n generalizing a with
  | zero => exact (zero_min _).symm
  | succ n ih =>
    rw [burstLen, endsBurst_pageSizeMax, ih]
    by_cases hlast : a % 128 = 127
    · rw [if_pos (decide_eq_true hlast)]
      omega
    · rw [if_neg (by simpa using hlast)]
      omega

theorem wordAddr_mod (bits : AddressBits) (a : ℕ) : wordAddr bits a % 128 = a % 128 := by
  cases bits with
  | bits8 =>
    rw [wordAddr]
    split <;> omega
  | bits16 =>
    rw [wordAddr]
    omega

theorem marching_split {L k : ℕ} (hk : k < L) (hL : L ≤ 128) :
    ∃ vs : List U16, vs.length = L - 1 - k ∧
      marchingData.take L = (range k).map (BitVec.ofNat 16) ++ BitVec.ofNat 16 k :: vs := by
  refine ⟨(range' (k + 1) (L - 1 - k)).map (BitVec.ofNat 16), by simp, ?_⟩
  have hrange : range L = range k ++ k :: range' (k + 1) (L - 1 - k) := by
    rw [range_eq_range', range_eq_range', ← range'_succ, show L - 1 - k + 1 = L - k by omega]
    have happ := range'_append_1 (s := 0) (m := k) (n := L - k)
    rw [Nat.zero_add, show k + (L - k) = L by omega] at happ
    exact happ.symm
  rw [marchingData, ← map_take, take_range, eepromPageSizeMax, min_eq_left hL,
    hrange, map_append, map_cons]

theorem store_aligned {α : Type*} {P s x : ℕ} (hP : P ∣ 128) (hs : s % 128 = 0) (ws : List α)
    (m : ℕ → α) (hx : ws.length ≤ x % 128) : store P s 0 ws m x = m x := by
  refine store_of_ne ws 0 m fun i hi hslot => ?_
  have hPs : P ∣ s := hP.trans (dvd_of_mod_eq_zero hs)
  obtain ⟨c, rfl⟩ := hPs
  have hpos : 0 < P := pos_of_dvd_of_pos hP (by decide)
  have hmod : i % P ≤ i := Nat.mod_le i P
  rw [slot, Nat.zero_add, Nat.mul_div_cancel_left _ hpos, Nat.mul_add_mod,
    Nat.mul_comm c P] at hslot
  omega

/-- **What is found**: the last word of the first burst that comes round to the start. -/
theorem marching_at_start (e : PagedEeprom) (bits : AddressBits) (o : ℕ) (hP : e.pageSize ∣ 128) :
    (e.writeBursts bits (BitVec.ofNat 16 eepromPageSizeMax) marchingData.length o marchingData).mem
        (wordAddr bits o) =
      BitVec.ofNat 16 (e.pageSize * ((127 - o % 128) / e.pageSize)) := by
  have hpos : 0 < e.pageSize := pos_of_dvd_of_pos hP (by decide)
  have hlen : marchingData.length = 126 + 1 + 1 := by simp [marchingData, eepromPageSizeMax]
  have hmul := mul_div_le (127 - o % 128) e.pageSize
  have hnext := lt_mul_div_succ (127 - o % 128) hpos
  rw [mul_add] at hnext
  have hfirst : burstLen (BitVec.ofNat 16 eepromPageSizeMax) o marchingData.length =
      128 - o % 128 := by
    rw [burstLen_pageSizeMax, hlen]
    omega
  have hrest : (marchingData.drop (128 - o % 128)).length = o % 128 := by
    rw [length_drop, hlen]
    omega
  have hsecond : burstLen (BitVec.ofNat 16 eepromPageSizeMax) (o + (128 - o % 128)) (o % 128) =
      o % 128 := by
    rw [burstLen_pageSizeMax]
    omega
  have hdone : (marchingData.drop (128 - o % 128)).drop (o % 128) = [] :=
    drop_eq_nil_of_le hrest.le
  rw [congrArg (fun n => e.writeBursts bits _ n o marchingData) hlen]
  rw [PagedEeprom.writeBursts_succ, hfirst, PagedEeprom.writeBursts_succ, hrest, hsecond, hdone,
    PagedEeprom.writeBursts_nil]
  obtain ⟨vs, hvs, hsplit⟩ := marching_split (L := 128 - o % 128)
    (k := e.pageSize * ((127 - o % 128) / e.pageSize)) (by omega) (by omega)
  have haligned : wordAddr bits (o + (128 - o % 128)) % 128 = 0 := by
    rw [wordAddr_mod]
    omega
  refine (store_aligned hP haligned _ _ ?_).trans ?_
  · rw [wordAddr_mod, length_take, hrest]
    omega
  · rw [PagedEeprom.burst, hsplit]
    exact store_start _ vs _ _ ⟨_, length_map .. |>.trans length_range⟩ (by omega)

theorem detect_success {env : ℕ → SpiReply} {o : ℕ} {hw : SpiHw}
    (hok : (detectEepromPageSizeGeneric env o hw).1 = success) :
    (detectEepromPageSizeGeneric env o hw).2.wordPageSize = BitVec.ofNat 16 eepromPageSizeMax -
      (hw.dev.toPagedEeprom.writeBursts hw.addressBits (BitVec.ofNat 16 eepromPageSizeMax)
        marchingData.length o marchingData).mem (wordAddr hw.addressBits o) := by
  rw [detectEepromPageSizeGeneric] at hok ⊢
  rcases write_cases env o marchingData
    { hw with wordPageSize := BitVec.ofNat 16 eepromPageSizeMax } with
    ⟨hfail, -⟩ | ⟨hwrite, d, hd, hheld⟩
  · rw [if_pos hfail] at hok
    exact absurd hok hfail
  · rw [if_neg (not_not.mpr hwrite), hheld] at hok ⊢
    rcases read_cases env o 1 { hw with holds := hw.holds + 1, dev := d, wordPageSize := 0 } with
      ⟨hfail, -⟩ | ⟨hread, hwords, -⟩
    · rw [if_pos hfail] at hok
      exact absurd hok hfail
    · rw [if_neg (not_not.mpr hread), hwords, ← hd]
      rfl

theorem detected_page_size {env : ℕ → SpiReply} {o : ℕ} {hw : SpiHw} (hP : hw.dev.pageSize ∣ 128)
    (hok : (detectEepromPageSizeGeneric env o hw).1 = success) :
    (detectEepromPageSizeGeneric env o hw).2.wordPageSize.toNat =
      128 - hw.dev.pageSize * ((127 - o % 128) / hw.dev.pageSize) := by
  have hmul := mul_div_le (127 - o % 128) hw.dev.pageSize
  rw [detect_success hok, marching_at_start _ _ _ hP, eepromPageSizeMax]
  simp
  omega

/-- **Detection is right**, for powers of two up to 128, exactly if the offset is in the first page
of its 128 words. -/
theorem page_size_detected_iff (env : ℕ → SpiReply) (hw : SpiHw) (offset : U16) (k : ℕ)
    (hdev : hw.dev.pageSize = 2 ^ k) (hmax : 2 ^ k ≤ eepromPageSizeMax)
    (hok : (detectEepromPageSizeGeneric env offset.toNat hw).1 = success) :
    (detectEepromPageSizeGeneric env offset.toNat hw).2.wordPageSize.toNat = hw.dev.pageSize ↔
      offset.toNat % 128 < hw.dev.pageSize := by
  have hk : k ≤ 7 := (Nat.pow_le_pow_iff_right (by decide)).mp (hmax : 2 ^ k ≤ 2 ^ 7)
  have hdvd : hw.dev.pageSize ∣ 128 := hdev ▸ pow_dvd_pow 2 hk
  rw [detected_page_size hdvd hok, hdev]
  interval_cases k <;> omega

theorem detect_granted (o : ℕ) (hw : SpiHw) :
    (detectEepromPageSizeGeneric (fun _ => .granted) o hw).1 = success := by
  rw [detectEepromPageSizeGeneric, if_neg (not_not.mpr (write_granted _ _ _)),
    if_neg (not_not.mpr (read_granted _ _ _))]

theorem page_size_detected_of_32 :
    (detectEepromPageSizeGeneric (fun _ => .granted) 0 eepromOf32).2.wordPageSize.toNat = 32 ∧
      (detectEepromPageSizeGeneric (fun _ => .granted) 159 eepromOf32).2.wordPageSize.toNat = 32 :=
  ⟨(page_size_detected_iff (fun _ => .granted) eepromOf32 0 5 rfl (by decide)
      (detect_granted 0 eepromOf32)).mpr (by decide),
    (page_size_detected_iff (fun _ => .granted) eepromOf32 159 5 rfl (by decide)
      (detect_granted 159 eepromOf32)).mpr (by decide)⟩

/-- Pages of 32 words are taken for pages of 64, or of 96. -/
theorem page_size_wrong_of_32 :
    (detectEepromPageSizeGeneric (fun _ => .granted) 32 eepromOf32).1 = success ∧
      (detectEepromPageSizeGeneric (fun _ => .granted) 32 eepromOf32).2.wordPageSize.toNat = 64 ∧
      (detectEepromPageSizeGeneric (fun _ => .granted) 64 eepromOf32).1 = success ∧
      (detectEepromPageSizeGeneric (fun _ => .granted) 64 eepromOf32).2.wordPageSize.toNat = 96 :=
  ⟨detect_granted 32 eepromOf32,
    detected_page_size ⟨4, rfl⟩ (detect_granted 32 eepromOf32),
    detect_granted 64 eepromOf32,
    detected_page_size ⟨4, rfl⟩ (detect_granted 64 eepromOf32)⟩

end Ixgbe
