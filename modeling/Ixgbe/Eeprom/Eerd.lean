import Ixgbe.Eeprom.Spi

/-! # Access to the EEPROM by register

Words are read through EERD and written through EEWR; whether a poll ends in time is the
environment's choice. -/

namespace Ixgbe

open PageWrap Function

def eerdEewrAttempts : ℕ := 100000

/-- `((offset + i) << IXGBE_EEPROM_RW_ADDR_SHIFT) | IXGBE_EEPROM_RW_REG_START` for word `a`. -/
def eerdValue (a : ℕ) : U32 := (BitVec.ofNat 32 a <<< 2) ||| 1

def eewrValue (a : ℕ) (w : U16) : U32 :=
  (BitVec.ofNat 32 a <<< 2) ||| (w.setWidth 32 <<< 16) ||| 1

def eewrAddr (v : U32) : ℕ := (v >>> 2).toNat % 2 ^ 14

def eewrData (v : U32) : U16 := (v >>> 16).setWidth 16

/-- The address field has 14 bits or more. -/
structure EerdHw where
  wordSize : U32
  readBits : ℕ
  readBits_ge : 14 ≤ readBits
  mem : ℕ → U16
  log : List EepromAccess
  polls : ℕ

namespace EerdHw

def eerdAddr (hw : EerdHw) (v : U32) : ℕ := (v >>> 2).toNat % 2 ^ hw.readBits

def startRead (hw : EerdHw) (v : U32) : EerdHw :=
  { hw with log := hw.log ++ [.read (hw.eerdAddr v)] }

def startWrite (hw : EerdHw) (v : U32) : EerdHw :=
  { hw with
    mem := update hw.mem (eewrAddr v) (eewrData v)
    log := hw.log ++ [.write (eewrAddr v) (eewrData v)] }

end EerdHw

section

variable {a : ℕ} (env : ℕ → ℕ → Bool) (offset : U16) (hw : EerdHw)

/-- `env n k` is the done bit at read `k` of poll `n`. -/
def pollEerdEewrDone : ℤ × EerdHw :=
  (if pollUntil (env hw.polls) eerdEewrAttempts 0 then success else errEeprom,
    { hw with polls := hw.polls + 1 })

def readEerdLoop (env : ℕ → ℕ → Bool) (offset : ℕ) :
    ℕ → ℕ → (ℕ → U16) → EerdHw → ℤ × (ℕ → U16) × EerdHw
  | 0, _, data, hw => (success, data, hw)
  | n + 1, i, data, hw =>
    let eerd := eerdValue (offset + i)
    let r := pollEerdEewrDone env (hw.startRead eerd)
    if r.1 = success then
      readEerdLoop env offset n (i + 1) (update data i (hw.mem (hw.eerdAddr eerd))) r.2
    else (r.1, data, r.2)

def readEerdBufferGeneric (words : U16) (data : ℕ → U16) (hw : EerdHw) : ℤ × (ℕ → U16) × EerdHw :=
  if words = 0 then (errInvalidArgument, data, hw)
  else if offset.setWidth 32 ≥ hw.wordSize then (errEeprom, data, hw)
  else readEerdLoop env offset.toNat words.toNat 0 data hw

def readEerdGeneric : ℤ × U16 × EerdHw :=
  let r := readEerdBufferGeneric env offset 1 (fun _ => 0) hw
  (r.1, r.2.1 0, r.2.2)

/-- `n` words are left from word `i` on. The counter does not wrap. -/
def writeEewrLoop (env : ℕ → ℕ → Bool) (offset : ℕ) (data : ℕ → U16) :
    ℕ → ℕ → EerdHw → ℤ × EerdHw
  | 0, _, hw => (success, hw)
  | n + 1, i, hw =>
    let eewr := eewrValue (offset + i) (data i)
    let r := pollEerdEewrDone env hw
    if r.1 ≠ success then r
    else
      let r := pollEerdEewrDone env (r.2.startWrite eewr)
      if r.1 ≠ success then r else writeEewrLoop env offset data n (i + 1) r.2

def writeEewrBufferGeneric (words : U16) (data : ℕ → U16) (hw : EerdHw) : ℤ × EerdHw :=
  if words = 0 then (errInvalidArgument, hw)
  else if offset.setWidth 32 ≥ hw.wordSize then (errEeprom, hw)
  else writeEewrLoop env offset.toNat data words.toNat 0 hw

def writeEewrGeneric (data : U16) (hw : EerdHw) : ℤ × EerdHw :=
  writeEewrBufferGeneric env offset 1 (fun _ => data) hw

theorem toNat_ofNat_shiftLeft_two (ha : a < 2 ^ 30) : (BitVec.ofNat 32 a <<< 2).toNat = a * 4 := by
  rw [BitVec.toNat_shiftLeft, BitVec.toNat_ofNat, Nat.shiftLeft_eq]
  omega

theorem toNat_setWidth_shiftLeft (w : U16) : (w.setWidth 32 <<< 16).toNat = w.toNat * 2 ^ 16 := by
  rw [BitVec.toNat_shiftLeft, BitVec.toNat_setWidth, Nat.shiftLeft_eq]
  omega

theorem eerdAddr_eerdValue (ha : a < 2 ^ 30) : hw.eerdAddr (eerdValue a) = a % 2 ^ hw.readBits := by
  have hfield : (eerdValue a >>> 2).toNat = a := by
    rw [eerdValue, BitVec.toNat_ushiftRight, BitVec.toNat_or, toNat_ofNat_shiftLeft_two ha,
      Nat.shiftRight_or_distrib, Nat.shiftRight_eq_div_pow]
    simp
  rw [EerdHw.eerdAddr, hfield]

theorem eewrAddr_eewrValue (w : U16) (ha : a < 2 ^ 30) : eewrAddr (eewrValue a w) = a % 2 ^ 14 := by
  have hfield : (eewrValue a w >>> 2).toNat = a ||| w.toNat * 2 ^ 14 := by
    rw [eewrValue, BitVec.toNat_ushiftRight, BitVec.toNat_or, BitVec.toNat_or,
      toNat_ofNat_shiftLeft_two ha, toNat_setWidth_shiftLeft, Nat.shiftRight_or_distrib,
      Nat.shiftRight_or_distrib, Nat.shiftRight_eq_div_pow, Nat.shiftRight_eq_div_pow,
      show a * 4 / 2 ^ 2 = a by omega, show w.toNat * 2 ^ 16 / 2 ^ 2 = w.toNat * 2 ^ 14 by omega]
    exact Nat.or_zero _
  rw [eewrAddr, hfield, Nat.or_mod_two_pow, Nat.mul_mod_left, Nat.or_zero]

theorem eewrData_eewrValue (w : U16) (ha : a < 2 ^ 14) : eewrData (eewrValue a w) = w := by
  apply BitVec.eq_of_toNat_eq
  rw [eewrData, eewrValue, BitVec.toNat_setWidth, BitVec.toNat_ushiftRight, BitVec.toNat_or,
    BitVec.toNat_or, toNat_ofNat_shiftLeft_two (by omega), toNat_setWidth_shiftLeft,
    Nat.shiftRight_or_distrib, Nat.shiftRight_or_distrib, Nat.shiftRight_eq_div_pow,
    Nat.shiftRight_eq_div_pow, show a * 4 / 2 ^ 16 = 0 by omega,
    Nat.mul_div_cancel _ (by decide), Nat.zero_or]
  exact (congrArg (· % 2 ^ 16) (Nat.or_zero _)).trans (Nat.mod_eq_of_lt w.isLt)

theorem pollEerdEewrDone_snd :
    (pollEerdEewrDone env hw).2 = { hw with polls := hw.polls + 1 } := rfl

end

section

variable (env : ℕ → ℕ → Bool) {offset n i : ℕ} (data : ℕ → U16) (hw : EerdHw)

theorem readEerdLoop_spec
    (hfit : offset + i + n < 2 ^ 30) :
    let r := readEerdLoop env offset n i data hw
    ∃ m ≤ n, ∃ p, r.2.2 = { hw with polls := p, log := hw.log ++
        (List.range' (offset + i) m).map fun a => .read (a % 2 ^ hw.readBits) } ∧
      (r.1 = success → m = n ∧ r.2.1 = fill i
        ((List.range' (offset + i) n).map fun a => hw.mem (a % 2 ^ hw.readBits)) data) := by
  induction n generalizing i data hw with
  | zero => exact ⟨0, le_rfl, hw.polls, by simp [readEerdLoop], fun _ => ⟨rfl, rfl⟩⟩
  | succ n ih =>
    rw [readEerdLoop, eerdAddr_eerdValue hw (by omega), EerdHw.startRead,
      eerdAddr_eerdValue hw (by omega)]
    split
    · rw [pollEerdEewrDone_snd]
      obtain ⟨m, hm, p, hlog, hok⟩ := ih (i := i + 1)
        (update data i (hw.mem ((offset + i) % 2 ^ hw.readBits)))
        { hw with polls := hw.polls + 1, log := hw.log ++
          [.read ((offset + i) % 2 ^ hw.readBits)] } (by omega)
      refine ⟨m + 1, by omega, p, ?_, fun hr => ?_⟩
      · rw [hlog, List.range'_succ, List.map_cons, List.append_assoc]
        rfl
      · obtain ⟨rfl, hdata⟩ := hok hr
        refine ⟨rfl, hdata.trans ?_⟩
        rfl
    case isFalse hdone =>
      exact ⟨1, by omega, _, rfl, fun hr => absurd hr hdone⟩

def eewrAccess (offset : ℕ) (data : ℕ → U16) (j : ℕ) : EepromAccess :=
  .write (eewrAddr (eewrValue (offset + j) (data j))) (eewrData (eewrValue (offset + j) (data j)))

theorem writeEewrLoop_spec :
    let r := writeEewrLoop env offset data n i hw
    ∃ m ≤ n, ∃ p mem, r.2 = { hw with
        polls := p, mem := mem, log := hw.log ++ (List.range' i m).map (eewrAccess offset data) } ∧
      (r.1 = success → m = n ∧ (offset + i + n ≤ 2 ^ 14 →
        mem = fill (offset + i) ((List.range' i n).map data) hw.mem)) := by
  induction n generalizing i hw with
  | zero =>
    exact ⟨0, le_rfl, hw.polls, hw.mem, by simp [writeEewrLoop], fun _ => ⟨rfl, fun _ => rfl⟩⟩
  | succ n ih =>
    rw [writeEewrLoop]
    by_cases hready : (pollEerdEewrDone env hw).1 = success
    · rw [if_neg (not_not.mpr hready), pollEerdEewrDone_snd]
      generalize hs : EerdHw.startWrite { hw with polls := hw.polls + 1 }
        (eewrValue (offset + i) (data i)) = s
      have hs' : s = { hw with
          polls := hw.polls + 1
          mem := update hw.mem (eewrAddr (eewrValue (offset + i) (data i)))
            (eewrData (eewrValue (offset + i) (data i)))
          log := hw.log ++ [eewrAccess offset data i] } := hs.symm
      by_cases hdone : (pollEerdEewrDone env s).1 = success
      · rw [if_neg (not_not.mpr hdone), pollEerdEewrDone_snd]
        obtain ⟨m, hm, p, mem, hlog, hok⟩ := ih (i := i + 1) { s with polls := s.polls + 1 }
        refine ⟨m + 1, by omega, p, mem, ?_, fun hr => ?_⟩
        · rw [hlog, hs', List.range'_succ, List.map_cons]
          simp only [List.append_assoc, List.singleton_append]
        · obtain ⟨rfl, hmem⟩ := hok hr
          refine ⟨rfl, fun hfit => (hmem (by omega)).trans ?_⟩
          rw [hs', List.range'_succ, List.map_cons, fill]
          change fill _ _ (update hw.mem _ _) = _
          rw [eewrAddr_eewrValue _ (by omega), eewrData_eewrValue _ (by omega),
            Nat.mod_eq_of_lt (by omega), Nat.add_assoc]
      · rw [if_pos hdone]
        exact ⟨1, by omega, s.polls + 1, s.mem, by rw [pollEerdEewrDone_snd, hs']; rfl,
          fun hr => absurd hr hdone⟩
    · rw [if_pos hready]
      exact ⟨0, by omega, hw.polls + 1, hw.mem, by simp [pollEerdEewrDone_snd],
        fun hr => absurd hr hready⟩

end

theorem pollEerdEewrDone_true (hw : EerdHw) :
    (pollEerdEewrDone (fun _ _ => true) hw).1 = success := rfl

theorem readEerdLoop_done (offset n i : ℕ) (data : ℕ → U16) (hw : EerdHw) :
    (readEerdLoop (fun _ _ => true) offset n i data hw).1 = success := by
  induction n generalizing i data hw with
  | zero => rfl
  | succ n ih =>
    exact ih ..

theorem writeEewrLoop_done (offset n i : ℕ) (data : ℕ → U16) (hw : EerdHw) :
    (writeEewrLoop (fun _ _ => true) offset data n i hw).1 = success := by
  induction n generalizing i hw with
  | zero => rfl
  | succ n ih =>
    exact ih ..

end Ixgbe
