import Ixgbe.Nvm.Pfa

/-! # The PBA string

`ixgbe_read_pba_string_generic` and `ixgbe_read_pba_string_E610` copy the part number into the
caller's buffer, by lengths found in the EEPROM. -/

namespace Ixgbe

open List

def errPbaSection : ℤ := -31

/-- Each byte with its index, the newest first. -/
abbrev PbaOut := List (ℕ × ℕ)

def PbaOut.Ok {σ : Type} (size : ℕ) (r : Except ℤ Unit × PbaOut × σ) : Prop :=
  (∀ w ∈ r.2.1, w.1 < size) ∧ (r.1 = .ok () → ∃ i < size, r.2.1.lookup i = some 0)

/-- The words from `base + i` on, and the NUL behind them. -/
def pbaWords {σ : Type} (read : ℕ → σ → Except ℤ ℕ × σ) (base : ℕ) :
    (left i : ℕ) → PbaOut → σ → Except ℤ Unit × PbaOut × σ
  | 0, i, out, s => (.ok (), (i * 2, 0) :: out, s)
  | left + 1, i, out, s =>
    match read ((base + i) % 2 ^ 16) s with
    | (.error e, s) => (.error e, out, s)
    | (.ok data, s) =>
      pbaWords read base left (i + 1)
        ((i * 2 + 1, data % 256) :: (i * 2, data / 256 % 256) :: out) s

/-- The characters of the legacy format, before they are made digits. -/
def legacyNibbles (data ptr : ℕ) : List ℕ :=
  [data / 2 ^ 12 % 16, data / 2 ^ 8 % 16, data / 2 ^ 4 % 16, data % 16, ptr / 2 ^ 12 % 16,
    ptr / 2 ^ 8 % 16, 45, 0, ptr / 2 ^ 4 % 16, ptr % 16]

def hexChar (c : ℕ) : ℕ := if c < 0xA then c + 48 else c + (65 - 0xA)

def legacyPba (data ptr : ℕ) : PbaOut :=
  let cs := (legacyNibbles data ptr).zipIdx.reverse
  ((cs.filter (·.1 < 0x10)).map fun c => (c.2, hexChar c.1)) ++ (10, 0) :: cs.map Prod.swap

def readPbaStringGeneric {σ : Type} (read : ℕ → σ → Except ℤ ℕ × σ) (wordSize : ℕ) (null : Bool)
    (size : ℕ) (s : σ) : Except ℤ Unit × PbaOut × σ :=
  if null then (.error errInvalidArgument, [], s) else
  match read 0x15 s with
  | (.error e, s) => (.error e, [], s)
  | (.ok data, s) =>
  match read 0x16 s with
  | (.error e, s) => (.error e, [], s)
  | (.ok pbaPtr, s) =>
  if data ≠ 0xFAFA then
    if size < 11 then (.error errNoSpace, [], s) else (.ok (), legacyPba data pbaPtr, s)
  else
  match read pbaPtr s with
  | (.error e, s) => (.error e, [], s)
  | (.ok length, s) =>
  if length = 0xFFFF ∨ length = 0 ∨ length > wordSize then (.error errPbaSection, [], s)
  else if size < length * 2 - 1 then (.error errNoSpace, [], s)
  else pbaWords read (pbaPtr + 1) (length - 1) 0 [] s

/-- `pba_size` is decremented in 16 bits; none if the search does not end. -/
def NvmFirmware.readPbaStringE610 (fw : NvmFirmware) (fuel size : ℕ) (hw : NvmHw) :
    Option (Except ℤ Unit × PbaOut × NvmHw) :=
  (fw.getPfaModuleTlv fuel 0x16 hw).map fun
  | (.error e, hw) => (.error e, [], hw)
  | (.ok (pbaTlv, pbaTlvLen), hw) =>
    match fw.readEeAci ((pbaTlv + 2) % 2 ^ 16) hw with
    | (.error e, hw) => (.error e, [], hw)
    | (.ok pbaSize, hw) =>
      let words := (pbaSize + (2 ^ 16 - 1)) % 2 ^ 16
      if pbaTlvLen < pbaSize then (.error errInvalSize, [], hw)
      else if size < words * 2 + 1 then (.error errParam, [], hw)
      else pbaWords fw.readEeAci (pbaTlv + 2 + 1) words 0 [] hw

theorem pbaWords_ok {σ : Type} (read : ℕ → σ → Except ℤ ℕ × σ) (base left i : ℕ) (out : PbaOut)
    (s : σ) {size : ℕ} (hsize : (i + left) * 2 < size) (hout : ∀ w ∈ out, w.1 < size) :
    PbaOut.Ok size (pbaWords read base left i out s) := by
  induction left generalizing i out s with
  | zero =>
    refine ⟨forall_mem_cons.mpr ⟨?_, hout⟩, fun _ => ⟨i * 2, ?_, lookup_cons_self⟩⟩ <;>
      omega
  | succ left ih =>
    unfold pbaWords
    split
    · exact ⟨hout, nofun⟩
    · refine ih _ _ _ (by omega) ?_
      rw [forall_mem_cons, forall_mem_cons]
      exact ⟨by omega, by omega, hout⟩

theorem legacyPba_ok (data ptr : ℕ) {σ : Type} (s : σ) {size : ℕ} (hsize : 11 ≤ size) :
    PbaOut.Ok size (.ok (), legacyPba data ptr, s) := by
  have hidx : ∀ c ∈ (legacyNibbles data ptr).zipIdx.reverse, c.2 < 10 := fun c hc =>
    snd_lt_of_mem_zipIdx (mem_reverse.mp hc)
  refine ⟨fun w hw => ?_, fun _ => ⟨10, hsize, ?_⟩⟩
  · rcases mem_append.mp hw with hw | hw
    · obtain ⟨c, hc, rfl⟩ := mem_map.mp hw
      have := hidx c (mem_of_mem_filter hc)
      omega
    · rcases mem_cons.mp hw with rfl | hw
      · exact hsize
      · obtain ⟨c, hc, rfl⟩ := mem_map.mp hw
        have := hidx c hc
        dsimp only [Prod.swap]
        omega
  · -- entry 10 is not among the digits
    rw [legacyPba, lookup_append, lookup_eq_none_iff.mpr, lookup_cons_self]
    · rfl
    · intro w hw
      obtain ⟨c, hc, rfl⟩ := mem_map.mp hw
      exact bne_iff_ne.mpr (hidx c (mem_of_mem_filter hc)).ne'

/-- **The readers write only inside the buffer and leave a terminated string.** -/
theorem readPbaString_ok {σ : Type} (read : ℕ → σ → Except ℤ ℕ × σ) (wordSize size fuel : ℕ)
    (null : Bool) (s : σ) (fw : NvmFirmware) (hw : NvmHw) :
    PbaOut.Ok size (readPbaStringGeneric read wordSize null size s) ∧
      ∀ r ∈ fw.readPbaStringE610 fuel size hw, PbaOut.Ok size r := by
  have herr {τ : Type} (e : ℤ) (t : τ) : PbaOut.Ok size (.error e, [], t) := ⟨nofun, nofun⟩
  constructor
  · unfold readPbaStringGeneric
    repeat' split
    any_goals exact herr ..
    · exact legacyPba_ok _ _ _ (by omega)
    · exact pbaWords_ok _ _ _ _ _ _ (by omega) nofun
  · intro r hr
    obtain ⟨x, -, rfl⟩ := Option.map_eq_some_iff.mp hr
    dsimp only
    split
    · exact herr ..
    · split
      · exact herr ..
      · split_ifs
        · exact herr ..
        · exact herr ..
        · exact pbaWords_ok _ _ _ _ _ _ (by omega) nofun

end Ixgbe
