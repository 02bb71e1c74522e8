import Ixgbe.Eeprom.SpiFrames
import Ixgbe.Eeprom.Eerd

/-! # Which words of the EEPROM are accessed

A request should access its own words and be refused if they are not in the EEPROM. Four functions
check that, each differently. -/

namespace Ixgbe

open PageWrap PagedEeprom

/-- Own words only, and refused without an access if empty or beyond the EEPROM. -/
def StaysInRange (wordSize : U32) (offset words : U16) (before : List EepromAccess) (status : ℤ)
    (after : List EepromAccess) : Prop :=
  ∃ accesses, after = before ++ accesses ∧
    (∀ x ∈ accesses, offset.toNat ≤ x.addr ∧ x.addr < offset.toNat + words.toNat ∧
      x.addr < wordSize.toNat) ∧
    (words.toNat = 0 ∨ wordSize.toNat < offset.toNat + words.toNat →
      status ≠ success ∧ accesses = [])

/-- `ixgbe_write_eeprom_buffer_bit_bang_generic` ends and stays in range. -/
def WriteInRange (wordSize : U32) (bits : AddressBits) (offset words : U16) : Prop :=
  ∀ (hw : SpiHw) (env : ℕ → SpiReply) (data : ℕ → U16), hw.wordSize = wordSize →
    hw.addressBits = bits → ∃ r, WrapLoop.Returns
      (fun fuel => writeEepromBufferBitBangGeneric fuel env offset words data hw) r ∧
      StaysInRange wordSize offset words hw.dev.log r.1 r.2.dev.log

def ReadInRange (wordSize : U32) (bits : AddressBits) (offset words : U16) : Prop :=
  ∀ (hw : SpiHw) (env : ℕ → SpiReply) (data : ℕ → U16), hw.wordSize = wordSize →
    hw.addressBits = bits → ∃ r, WrapLoop.Returns
      (fun fuel => readEepromBufferBitBangGeneric fuel env offset words data hw) r ∧
      StaysInRange wordSize offset words hw.dev.log r.1 r.2.2.dev.log

def EerdInRange (hw : EerdHw) (offset words : U16) : Prop :=
  ∀ (env : ℕ → ℕ → Bool) (data : ℕ → U16),
    let r := readEerdBufferGeneric env offset words data hw
    StaysInRange hw.wordSize offset words hw.log r.1 r.2.2.log

def EewrInRange (hw : EerdHw) (offset words : U16) : Prop :=
  ∀ (env : ℕ → ℕ → Bool) (data : ℕ → U16),
    let r := writeEewrBufferGeneric env offset words data hw
    StaysInRange hw.wordSize offset words hw.log r.1 r.2.log

def AddressBits.capacity : AddressBits → ℕ
  | bits8 => 256
  | bits16 => 2 ^ 15

def AddressBits.wrapTo : AddressBits → ℕ
  | bits8 => 128
  | bits16 => 0

def BitBangFits (wordSize : U32) (bits : AddressBits) (offset words : U16) : Prop :=
  words.toNat = 0 ∨ offset.toNat ≤ wordSize.toNat ∧
    (offset.toNat + words.toNat ≤ wordSize.toNat → words.toNat ≤ 65280 ∧
      (offset.toNat ≤ bits.wrapTo ∨ offset.toNat + words.toNat ≤ bits.capacity))

def RegisterFits (wordSize : U32) (fieldBits : ℕ) (offset words : U16) : Prop :=
  words.toNat = 0 ∨ wordSize.toNat ≤ offset.toNat ∨
    offset.toNat + words.toNat ≤ wordSize.toNat ∧
      (offset.toNat = 0 ∨ offset.toNat + words.toNat ≤ 2 ^ fieldBits)

theorem bitBang_accepts_iff (w : U32) (offset words : U16) :
    ¬ words.setWidth 32 > w - offset.setWidth 32 ↔
      offset.toNat + words.toNat ≤ w.toNat ∨ w.toNat < offset.toNat := by
  rw [gt_iff_lt, BitVec.lt_def, BitVec.toNat_sub, BitVec.toNat_setWidth_of_le (by decide),
    BitVec.toNat_setWidth_of_le (by decide)]
  omega

section

variable {bits : AddressBits}

theorem wordAddr_of_lt {a : ℕ} (h : a < bits.capacity) : wordAddr bits a = a := by
  cases bits with
  | bits8 =>
    have h' : a < 256 := h
    rw [wordAddr]
    split <;> omega
  | bits16 => exact Nat.mod_eq_of_lt h

theorem wordAddr_le (bits : AddressBits) (a : ℕ) : wordAddr bits a ≤ a := by
  cases bits with
  | bits8 =>
    rw [wordAddr]
    split <;> omega
  | bits16 => exact Nat.mod_le ..

theorem le_wordAddr {o a : ℕ} (ho : o ≤ bits.wrapTo) (ha : o ≤ a) : o ≤ wordAddr bits a := by
  cases bits with
  | bits8 =>
    have ho' : o ≤ 128 := ho
    rw [wordAddr]
    split <;> omega
  | bits16 => exact ho.trans (Nat.zero_le _)

theorem exists_wordAddr_lt {o n : ℕ} (ho : bits.wrapTo < o) (hn : 0 < n)
    (hcap : bits.capacity < o + n) (hlt : o < 2 ^ 16) :
    ∃ p < n, o + p < 2 ^ 16 ∧ wordAddr bits (o + p) < o := by
  have hcap' : bits.capacity < 2 ^ 16 ∧ ∀ a, wordAddr bits a < bits.capacity := by
    cases bits with
    | bits8 =>
      refine ⟨by decide, fun a => ?_⟩
      rw [wordAddr, AddressBits.capacity]
      split <;> omega
    | bits16 => exact ⟨by decide, fun a => Nat.mod_lt _ (by decide)⟩
  have hwrap : wordAddr bits bits.capacity = bits.wrapTo := by cases bits <;> rfl
  by_cases hbeyond : bits.capacity ≤ o
  · exact ⟨0, hn, hlt, (hcap'.2 o).trans_le hbeyond⟩
  · refine ⟨bits.capacity - o, by omega, by omega, ?_⟩
    rw [show o + (bits.capacity - o) = bits.capacity by omega, hwrap]
    exact ho

/-! ## Pieces -/

def Reaches (bits : AddressBits) (a n : ℕ) (x : EepromAccess) : Prop :=
  ∃ a' k, a ≤ a' ∧ a' + k < a + n ∧ x.addr = wordAddr bits a' + k

theorem Reaches.mono {a n b m : ℕ} {x : EepromAccess}
    (h : Reaches bits a n x) (hb : b ≤ a) (hm : a + n ≤ b + m) : Reaches bits b m x := by
  obtain ⟨a', k, ha', hk, hx⟩ := h
  exact ⟨a', k, hb.trans ha', hk.trans_le hm, hx⟩

theorem Reaches.in_range {o n : ℕ} {x : EepromAccess}
    (h : Reaches bits o n x) (hfits : o ≤ bits.wrapTo ∨ o + n ≤ bits.capacity) :
    o ≤ x.addr ∧ x.addr < o + n := by
  obtain ⟨a, k, ha, hk, hx⟩ := h
  have hle := wordAddr_le bits a
  have hge : o ≤ wordAddr bits a := by
    rcases hfits with hwrap | hcap
    · exact le_wordAddr hwrap ha
    · rwa [wordAddr_of_lt (by omega)]
  omega

end

def GrowsBy (P : EepromAccess → Prop) (before after : List EepromAccess) : Prop :=
  ∃ accesses, after = before ++ accesses ∧ ∀ x ∈ accesses, P x

theorem GrowsBy.refl {P : EepromAccess → Prop} (log : List EepromAccess) : GrowsBy P log log :=
  ⟨[], (List.append_nil log).symm, nofun⟩

theorem GrowsBy.trans {P : EepromAccess → Prop} {a b c : List EepromAccess} (h : GrowsBy P a b)
    (h' : GrowsBy P b c) : GrowsBy P a c := by
  obtain ⟨xs, rfl, hxs⟩ := h
  obtain ⟨ys, rfl, hys⟩ := h'
  refine ⟨xs ++ ys, List.append_assoc .., fun x hx => ?_⟩
  exact (List.mem_append.mp hx).elim (hxs x) (hys x)

theorem GrowsBy.mono {P Q : EepromAccess → Prop} {a b : List EepromAccess} (h : GrowsBy P a b)
    (hPQ : ∀ x, P x → Q x) : GrowsBy Q a b := by
  obtain ⟨xs, hxs, hP⟩ := h
  exact ⟨xs, hxs, fun x hx => hPQ x (hP x hx)⟩

theorem mem_burstLog {a : ℕ} {ws : List U16} {x : EepromAccess} (hx : x ∈ burstLog a ws) :
    ∃ k < ws.length, x.addr = a + k := by
  induction ws generalizing a with
  | nil => cases hx
  | cons w ws ih =>
    rcases List.mem_cons.mp hx with rfl | hx
    · exact ⟨0, Nat.succ_pos _, rfl⟩
    · obtain ⟨k, hk, hadd⟩ := ih hx
      exact ⟨k + 1, Nat.succ_lt_succ hk, by omega⟩

theorem writeBursts_grows (bits : AddressBits) (pageSize : U16) (n a : ℕ) (ws : List U16)
    (e : PagedEeprom) :
    GrowsBy (Reaches bits a ws.length) e.log (e.writeBursts bits pageSize n a ws).log := by
  induction n generalizing a ws e with
  | zero => exact .refl _
  | succ n ih =>
    have hle := burstLen_le pageSize a ws.length
    rw [writeBursts_succ]
    generalize burstLen pageSize a ws.length = m at hle
    have hburst : GrowsBy (Reaches bits a ws.length) e.log
        (e.burst (wordAddr bits a) (ws.take m)).log := by
      refine ⟨_, rfl, fun x hx => ?_⟩
      obtain ⟨k, hk, hadd⟩ := mem_burstLog hx
      rw [List.length_take] at hk
      exact ⟨a, k, le_rfl, by omega, hadd⟩
    have hrest : (ws.drop m).length = ws.length - m := List.length_drop
    exact hburst.trans ((ih (a + m) (ws.drop m) _).mono fun x hx =>
      hx.mono (Nat.le_add_right a m) (by omega))

theorem reads_grow (bits : AddressBits) (a n : ℕ) (log : List EepromAccess) :
    GrowsBy (Reaches bits a n) log
      (log ++ ((List.range' a n).map (wordAddr bits)).map .read) := by
  refine ⟨_, rfl, fun x hx => ?_⟩
  simp only [List.mem_map, List.mem_range'_1, exists_exists_and_eq_and] at hx
  obtain ⟨a', ⟨hlo, hhi⟩, rfl⟩ := hx
  exact ⟨a', 0, hlo, hhi, rfl⟩

theorem write_grows (env : ℕ → SpiReply) (offset : ℕ) (data : List U16) (hw : SpiHw) :
    let hw' := (writeEepromBufferBitBang env offset data hw).2
    hw'.addressBits = hw.addressBits ∧
      GrowsBy (Reaches hw.addressBits offset data.length) hw.dev.log hw'.dev.log := by
  rcases write_cases env offset data hw with ⟨-, d, hd, hheld⟩ | ⟨-, d, hd, hheld⟩
  · rw [hheld]
    exact ⟨rfl, hd ▸ .refl _⟩
  · rw [hheld]
    exact ⟨rfl, hd ▸ writeBursts_grows ..⟩

theorem read_grows (env : ℕ → SpiReply) (offset words : ℕ) (hw : SpiHw) :
    let hw' := (readEepromBufferBitBang env offset words hw).2.2
    hw'.addressBits = hw.addressBits ∧
      GrowsBy (Reaches hw.addressBits offset words) hw.dev.log hw'.dev.log := by
  rcases read_cases env offset words hw with ⟨-, d, hd, hheld⟩ | ⟨-, -, d, hd, hheld⟩
  · rw [hheld]
    exact ⟨rfl, hd ▸ .refl _⟩
  · rw [hheld]
    exact ⟨rfl, hd ▸ reads_grow ..⟩

theorem detect_grows (env : ℕ → SpiReply) (offset : ℕ) (hw : SpiHw) :
    let hw' := (detectEepromPageSizeGeneric env offset hw).2
    hw'.addressBits = hw.addressBits ∧
      GrowsBy (Reaches hw.addressBits offset 128) hw.dev.log hw'.dev.log := by
  obtain ⟨hbits, hwrite⟩ := write_grows env offset marchingData
    { hw with wordPageSize := BitVec.ofNat 16 eepromPageSizeMax }
  have hlen : marchingData.length = 128 := by simp [marchingData, eepromPageSizeMax]
  simp only [detectEepromPageSizeGeneric]
  generalize writeEepromBufferBitBang env offset marchingData
    { hw with wordPageSize := BitVec.ofNat 16 eepromPageSizeMax } = w at hbits hwrite
  split
  · exact ⟨hbits, hwrite⟩
  · obtain ⟨hbits', hread⟩ := read_grows env offset 1 { w.2 with wordPageSize := 0 }
    generalize readEepromBufferBitBang env offset 1 { w.2 with wordPageSize := 0 } = r
      at hbits' hread
    have hboth : GrowsBy (Reaches hw.addressBits offset 128) hw.dev.log r.2.2.dev.log := by
      refine hwrite.trans (hread.mono fun x hx => ?_)
      have hx' : Reaches hw.addressBits offset 1 x := hbits ▸ hx
      exact hx'.mono le_rfl (by omega)
    split
    · exact ⟨hbits'.trans hbits, hboth⟩
    · exact ⟨hbits'.trans hbits, hboth⟩

/-! ## Requests by bit-banging -/

section Pieces

variable {σ : Type*} (hwOf : σ → SpiHw) (piece : ℕ → ℕ → σ → ℤ × σ) (bits : AddressBits)
  (offset : ℕ)

/-- What a piece does, whether it succeeds or not. -/
def PieceGrows : Prop :=
  ∀ i count s, (hwOf s).addressBits = bits →
    (hwOf (piece i count s).2).addressBits = bits ∧
      GrowsBy (Reaches bits ((offset + i) % 2 ^ 16) count) (hwOf s).dev.log
        (hwOf (piece i count s).2).dev.log

variable {hwOf piece bits offset}

theorem pieceLoop_grows (hpiece : PieceGrows hwOf piece bits offset) {words : ℕ}
    (hwords : words ≤ 65280) (hfit : offset + words ≤ 2 ^ 16) {s : σ}
    (hbits : (hwOf s).addressBits = bits) :
    ∃ r, WrapLoop.Returns (fun fuel => pieceLoop piece words fuel s) r ∧
      GrowsBy (Reaches bits offset words) (hwOf s).dev.log (hwOf r.2).dev.log := by
  have hstep : ∀ i s', i < words → ((hwOf s').addressBits = bits ∧
      GrowsBy (Reaches bits offset words) (hwOf s).dev.log (hwOf s').dev.log) →
      (hwOf (piece i (pieceCount words i) s').2).addressBits = bits ∧
        GrowsBy (Reaches bits offset words) (hwOf s).dev.log
          (hwOf (piece i (pieceCount words i) s').2).dev.log := by
    intro i s' hi hs'
    have hcount := pieceCount_eq words i
    obtain ⟨hbits', hgrows⟩ := hpiece i (pieceCount words i) s' hs'.1
    exact ⟨hbits', hs'.2.trans (hgrows.mono fun x hx => hx.mono (by omega) (by omega))⟩
  obtain ⟨r, hr, hcases⟩ := pieceLoop_cases piece hwords
    (fun _ s' => (hwOf s').addressBits = bits ∧
      GrowsBy (Reaches bits offset words) (hwOf s).dev.log (hwOf s').dev.log)
    (fun i s' hi hs' _ => hstep i s' hi hs') ⟨hbits, .refl _⟩
  refine ⟨r, hr, ?_⟩
  rcases hcases with ⟨-, -, hgrows⟩ | ⟨i, s', hi, hs', -, rfl⟩
  · exact hgrows
  · exact (hstep i s' hi hs').2

def PieceTouches (hwOf : σ → SpiHw) (piece : ℕ → ℕ → σ → ℤ × σ) (bits : AddressBits)
    (offset : ℕ) (J : σ → Prop) : Prop :=
  ∀ i count s, J s → (piece i count s).1 = success ∧ J (piece i count s).2 ∧
    ∃ accesses, (hwOf (piece i count s).2).dev.log = (hwOf s).dev.log ++ accesses ∧
      ∀ j < count, ∃ x ∈ accesses, x.addr = wordAddr bits ((offset + i) % 2 ^ 16 + j)

theorem pieceLoop_touches {J : σ → Prop} (hpiece : PieceTouches hwOf piece bits offset J)
    {words : ℕ} (hwords : words ≤ 65280) {s : σ} (hJ : J s) {r : ℤ × σ}
    (hr : WrapLoop.Returns (fun fuel => pieceLoop piece words fuel s) r) :
    ∃ accesses, (hwOf r.2).dev.log = (hwOf s).dev.log ++ accesses ∧
      ∀ p < words, offset + p < 2 ^ 16 → ∃ x ∈ accesses, x.addr = wordAddr bits (offset + p) := by
  obtain ⟨r', hr', hcases⟩ := pieceLoop_cases piece hwords
    (fun i s' => J s' ∧ ∃ accesses, (hwOf s').dev.log = (hwOf s).dev.log ++ accesses ∧
      ∀ p < i, offset + p < 2 ^ 16 → ∃ x ∈ accesses, x.addr = wordAddr bits (offset + p))
    (by
      rintro i s' - ⟨hJ', xs, hxs, hall⟩ -
      obtain ⟨-, hJ'', ys, hys, hnew⟩ := hpiece i (pieceCount words i) s' hJ'
      refine ⟨hJ'', xs ++ ys, by rw [hys, hxs, List.append_assoc], fun p hp hlt => ?_⟩
      by_cases hold : p < i
      · obtain ⟨x, hx, hadd⟩ := hall p hold hlt
        exact ⟨x, List.mem_append_left _ hx, hadd⟩
      · obtain ⟨x, hx, hadd⟩ := hnew (p - i) (by omega)
        rw [Nat.mod_eq_of_lt (by omega), show offset + i + (p - i) = offset + p by omega] at hadd
        exact ⟨x, List.mem_append_right _ hx, hadd⟩)
    ⟨hJ, [], (List.append_nil _).symm, fun p hp => absurd hp (Nat.not_lt_zero p)⟩
  obtain rfl := hr.unique hr'
  rcases hcases with ⟨-, -, h⟩ | ⟨i, s', -, ⟨hJ', -⟩, hfail, -⟩
  · exact h
  · exact absurd (hpiece i _ s' hJ').1 hfail

variable {w : U32} {offset words : U16}

variable (hwOf) in
theorem inRange_of_fits {run : ℕ → Option (ℤ × σ)} {s : σ} (hfits : BitBangFits w bits offset words)
    (hempty : words = 0 → ∀ fuel, run fuel = some (errInvalidArgument, s))
    (hrefused : words ≠ 0 → words.setWidth 32 > w - offset.setWidth 32 →
      ∀ fuel, run fuel = some (errEeprom, s))
    (haccepted : words ≠ 0 → ¬ words.setWidth 32 > w - offset.setWidth 32 →
      words.toNat ≤ 65280 → offset.toNat + words.toNat ≤ 2 ^ 16 →
      ∃ r, WrapLoop.Returns run r ∧ GrowsBy (Reaches bits offset.toNat words.toNat)
        (hwOf s).dev.log (hwOf r.2).dev.log) :
    ∃ r, WrapLoop.Returns run r ∧
      StaysInRange w offset words (hwOf s).dev.log r.1 (hwOf r.2).dev.log := by
  by_cases hn : words = 0
  · exact ⟨_, ⟨0, fun fuel _ => hempty hn fuel⟩, [], (List.append_nil _).symm, nofun,
      fun _ => ⟨show errInvalidArgument ≠ success by decide, rfl⟩⟩
  · have hn' : words.toNat ≠ 0 := fun h => hn (BitVec.eq_of_toNat_eq h)
    obtain ⟨hoff, hin⟩ := hfits.resolve_left hn'
    by_cases hcheck : words.setWidth 32 > w - offset.setWidth 32
    · exact ⟨_, ⟨0, fun fuel _ => hrefused hn hcheck fuel⟩, [], (List.append_nil _).symm, nofun,
        fun _ => ⟨show errEeprom ≠ success by decide, rfl⟩⟩
    · have hsize := ((bitBang_accepts_iff w offset words).mp hcheck).resolve_right (by omega)
      obtain ⟨hwords, hfit⟩ := hin hsize
      have hlt : offset.toNat + words.toNat ≤ 2 ^ 16 := by
        have hwrap : bits.wrapTo ≤ 128 := by cases bits <;> decide
        have hcap : bits.capacity ≤ 2 ^ 16 := by cases bits <;> decide
        omega
      obtain ⟨r, hr, xs, hxs, hall⟩ := haccepted hn hcheck hwords hlt
      refine ⟨r, hr, xs, hxs, fun x hx => ?_, fun hbad => ?_⟩
      · obtain ⟨hlo, hhi⟩ := (hall x hx).in_range hfit
        exact ⟨hlo, hhi, hhi.trans_le hsize⟩
      · omega

variable (hwOf piece) in
theorem fits_of_inRange {J : σ → Prop} {run : ℕ → Option (ℤ × σ)} {s : σ} (hJ : J s)
    (hpiece : PieceTouches hwOf piece bits offset.toNat J)
      (hok : ∀ i n s, (piece i n s).1 = success)
    (haccepted : words ≠ 0 → ¬ words.setWidth 32 > w - offset.setWidth 32 →
      ∀ fuel, run fuel = pieceLoop piece words.toNat fuel s)
    (h : ∃ r, WrapLoop.Returns run r ∧
      StaysInRange w offset words (hwOf s).dev.log r.1 (hwOf r.2).dev.log) :
    BitBangFits w bits offset words := by
  obtain ⟨r, hr, xs, hxs, hrange, hrefuse⟩ := h
  by_contra hnot
  rw [BitBangFits, not_or] at hnot
  obtain ⟨hn, hnot⟩ := hnot
  have hn' : words ≠ 0 := by
    rintro rfl
    exact hn rfl
  have hcheck : ¬ words.setWidth 32 > w - offset.setWidth 32 := by
    rw [bitBang_accepts_iff]
    by_contra hrefused
    exact hnot ⟨by omega, by omega⟩
  have hrun : run = fun fuel => pieceLoop piece words.toNat fuel s :=
    funext (haccepted hn' hcheck)
  rw [hrun] at hr
  obtain ⟨fuel, hfuel⟩ := hr.exists_fuel
  by_cases hsize : offset.toNat + words.toNat ≤ w.toNat
  · by_cases hwords : words.toNat ≤ 65280
    · -- a word beyond the address bits
      have hbits : bits.wrapTo < offset.toNat ∧
          bits.capacity < offset.toNat + words.toNat := by
        by_contra hbits
        exact hnot ⟨by omega, fun _ => ⟨hwords, by omega⟩⟩
      obtain ⟨p, hp, hlt, hbelow⟩ := exists_wordAddr_lt hbits.1 (by omega) hbits.2 offset.isLt
      obtain ⟨ys, hys, htouch⟩ := pieceLoop_touches hpiece hwords hJ hr
      obtain rfl := List.append_cancel_left (hxs.symm.trans hys)
      obtain ⟨x, hx, hadd⟩ := htouch p hp hlt
      have hlo := (hrange x hx).1
      omega
    · -- the counter of the pieces wraps
      have hnone : pieceLoop piece words.toNat fuel s = none :=
        WrapLoop.loop_eq_none _ (by decide) (by rw [eepromRdBufferMaxCount]; omega)
          (fun i s => hok i _ s) fuel s (by decide) (by decide)
      rw [hnone] at hfuel
      cases hfuel
  · -- the subtraction wraps
    have hsuccess : r.1 = success := WrapLoop.loop_success _ (fun i s => hok i _ s) hfuel
    exact (hrefuse (.inr (by omega))).1 hsuccess

end Pieces

theorem writeBursts_touches (bits : AddressBits) (n a : ℕ) (ws : List U16) (e : PagedEeprom)
    (hn : ws.length ≤ n) :
    ∃ accesses, (e.writeBursts bits 1 n a ws).log = e.log ++ accesses ∧
      ∀ j < ws.length, ∃ x ∈ accesses, x.addr = wordAddr bits (a + j) := by
  induction n generalizing a ws e with
  | zero => exact ⟨[], (List.append_nil _).symm, fun j hj => absurd (hj.trans_le hn) (by omega)⟩
  | succ n ih =>
    cases ws with
    | nil => exact ⟨[], by simp, fun j hj => absurd hj (Nat.not_lt_zero j)⟩
    | cons v ws =>
      have hone : burstLen 1 a (v :: ws).length = 1 := by
        rw [List.length_cons, burstLen, if_pos]
        simp [endsBurst]
      obtain ⟨ys, hys, hrest⟩ := ih (a + 1) ws (e.burst (wordAddr bits a) [v])
        (Nat.le_of_succ_le_succ hn)
      rw [writeBursts_succ, hone]
      refine ⟨.write (wordAddr bits a) v :: ys, ?_, fun j hj => ?_⟩
      · refine hys.trans ?_
        simp [burst, burstLog]
      · cases j with
        | zero => exact ⟨_, List.mem_cons_self, rfl⟩
        | succ j =>
          obtain ⟨x, hx, hadd⟩ := hrest j (Nat.lt_of_succ_lt_succ hj)
          exact ⟨x, List.mem_cons_of_mem _ hx, by rw [hadd, Nat.add_right_comm, Nat.add_assoc]⟩

theorem write_pieceGrows (env : ℕ → SpiReply) (bits : AddressBits) (offset : ℕ) (data : ℕ → U16) :
    PieceGrows id (fun i count hw => writeEepromBufferBitBang env ((offset + i) % 2 ^ 16)
      (bufferSlice data i count) hw) bits offset := by
  rintro i count hw rfl
  have hgrows := write_grows env ((offset + i) % 2 ^ 16) (bufferSlice data i count) hw
  rwa [show (bufferSlice data i count).length = count by simp [bufferSlice]] at hgrows

theorem read_pieceGrows (env : ℕ → SpiReply) (bits : AddressBits) (offset : ℕ) :
    PieceGrows (fun s : (ℕ → U16) × SpiHw => s.2) (fun i count s =>
      let r := readEepromBufferBitBang env ((offset + i) % 2 ^ 16) count s.2
      (r.1, fill i r.2.1 s.1, r.2.2)) bits offset := by
  rintro i count s rfl
  exact read_grows env ((offset + i) % 2 ^ 16) count s.2

theorem write_in_range_iff (w : U32) (bits : AddressBits) (offset words : U16) :
    WriteInRange w bits offset words ↔ BitBangFits w bits offset words := by
  constructor
  · intro h
    -- no page-size detection, and every word sent for itself
    let hw : SpiHw := ⟨w, bits, 1, ⟨⟨1, fun _ => 0, []⟩, false, .opcode⟩, 0⟩
    have hdetect : ¬ (hw.wordPageSize = 0 ∧ words.toNat > eepromPageSizeMax) :=
      fun hd => absurd hd.1 (show (1 : U16) ≠ 0 by decide)
    refine fits_of_inRange id (fun i count hw => writeEepromBufferBitBang (fun _ => .granted)
        ((offset.toNat + i) % 2 ^ 16) (bufferSlice (fun _ => 0) i count) hw) (s := hw)
      (J := fun s => s.addressBits = bits ∧ s.wordPageSize = 1)
      ⟨rfl, rfl⟩ ?_ (fun i n s => write_granted _ _ _) ?_
      (h hw (fun _ => .granted) (fun _ => 0) rfl rfl)
    · rintro i count s ⟨hbits, hpage⟩
      rcases write_cases (fun _ => .granted) ((offset.toNat + i) % 2 ^ 16)
        (bufferSlice (fun _ => 0) i count) s with ⟨hfail, -⟩ | ⟨hok, d, hd, hheld⟩
      · exact absurd (write_granted _ _ _) hfail
      · obtain ⟨xs, hxs, hall⟩ := writeBursts_touches bits count ((offset.toNat + i) % 2 ^ 16)
          (bufferSlice (fun _ => 0) i count) s.dev.toPagedEeprom (by simp [bufferSlice])
        have hlen : (bufferSlice (fun _ => 0) i count).length = count := by simp [bufferSlice]
        rw [hbits, hpage, hlen] at hd
        rw [hlen] at hall
        refine ⟨hok, ?_, xs, ?_, hall⟩
        · rw [hheld]
          exact ⟨hbits, hpage⟩
        · rw [hheld]
          exact (congrArg log hd).trans hxs
    · intro hn hcheck fuel
      rw [writeEepromBufferBitBangGeneric, if_neg hn, if_neg hcheck, if_neg hdetect]
  · intro hfits hw env data hsize hbits
    subst hsize hbits
    refine inRange_of_fits id (s := hw) hfits ?_ ?_ ?_
    · intro hn fuel
      rw [writeEepromBufferBitBangGeneric, if_pos hn]
    · intro hn hcheck fuel
      rw [writeEepromBufferBitBangGeneric, if_neg hn, if_pos hcheck]
    · intro hn hcheck hwords hlt
      simp only [writeEepromBufferBitBangGeneric, if_neg hn, if_neg hcheck]
      split
      case isTrue hdetect =>
        obtain ⟨hbits, hgrows⟩ := detect_grows env offset.toNat hw
        obtain ⟨r, hr, hrest⟩ := pieceLoop_grows
          (write_pieceGrows env hw.addressBits offset.toNat data) hwords hlt hbits
        refine ⟨r, hr, (hgrows.mono fun x hx => hx.mono le_rfl ?_).trans hrest⟩
        have hlong : 128 < words.toNat := hdetect.2
        omega
      · exact pieceLoop_grows (write_pieceGrows env hw.addressBits offset.toNat data) hwords hlt rfl

theorem read_in_range_iff (w : U32) (bits : AddressBits) (offset words : U16) :
    ReadInRange w bits offset words ↔ BitBangFits w bits offset words := by
  constructor
  · intro h
    let hw : SpiHw := ⟨w, bits, 0, ⟨⟨1, fun _ => 0, []⟩, false, .opcode⟩, 0⟩
    refine fits_of_inRange (fun s : (ℕ → U16) × SpiHw => s.2) (fun i count s =>
        let r := readEepromBufferBitBang (fun _ => .granted) ((offset.toNat + i) % 2 ^ 16) count s.2
        (r.1, fill i r.2.1 s.1, r.2.2)) (s := (fun _ => 0, hw))
          (J := fun s => s.2.addressBits = bits)
      rfl ?_ (fun i n s => read_granted ((offset.toNat + i) % 2 ^ 16) n s.2) ?_
      (h hw (fun _ => .granted) (fun _ => 0) rfl rfl)
    · intro i count s hbits
      rcases read_cases (fun _ => .granted) ((offset.toNat + i) % 2 ^ 16) count s.2 with
        ⟨hfail, -⟩ | ⟨hok, -, d, hd, hheld⟩
      · exact absurd (read_granted _ _ _) hfail
      · refine ⟨hok, ?_, ((List.range' ((offset.toNat + i) % 2 ^ 16) count).map
          (wordAddr s.2.addressBits)).map .read, ?_, fun j hj => ?_⟩
        · change (readEepromBufferBitBang _ _ _ _).2.2.addressBits = bits
          exact hbits
        · change (readEepromBufferBitBang _ _ _ _).2.2.dev.log = _
          rw [hheld]
          exact congrArg log hd
        · rw [← hbits]
          refine ⟨.read (wordAddr s.2.addressBits ((offset.toNat + i) % 2 ^ 16 + j)), ?_, rfl⟩
          exact List.mem_map_of_mem (List.mem_map_of_mem
            (List.mem_range'_1.mpr ⟨by omega, by omega⟩))
    · intro hn hcheck fuel
      rw [readEepromBufferBitBangGeneric, if_neg hn, if_neg hcheck]
  · intro hfits hw env data hsize hbits
    subst hsize hbits
    refine inRange_of_fits (fun s : (ℕ → U16) × SpiHw => s.2) (s := (data, hw)) hfits ?_ ?_ ?_
    · intro hn fuel
      rw [readEepromBufferBitBangGeneric, if_pos hn]
    · intro hn hcheck fuel
      rw [readEepromBufferBitBangGeneric, if_neg hn, if_pos hcheck]
    · intro hn hcheck hwords hlt
      simp only [readEepromBufferBitBangGeneric, if_neg hn, if_neg hcheck]
      exact pieceLoop_grows (read_pieceGrows env hw.addressBits offset.toNat) hwords hlt rfl

theorem mod_in_range {fieldBits o n a : ℕ} (hfit : o = 0 ∨ o + n ≤ 2 ^ fieldBits) (hlo : o ≤ a)
    (hhi : a < o + n) : o ≤ a % 2 ^ fieldBits ∧ a % 2 ^ fieldBits < o + n := by
  have hle := Nat.mod_le a (2 ^ fieldBits)
  refine ⟨?_, by omega⟩
  rcases hfit with rfl | hfit
  · exact Nat.zero_le _
  · rwa [Nat.mod_eq_of_lt (by omega)]

theorem exists_mod_lt {fieldBits o n : ℕ} (ho : o ≠ 0) (hn : 0 < n)
    (hlong : 2 ^ fieldBits < o + n) :
    ∃ p < n, (o + p) % 2 ^ fieldBits < o := by
  have hpos := Nat.two_pow_pos fieldBits
  by_cases hbeyond : 2 ^ fieldBits ≤ o
  · exact ⟨0, hn, (Nat.mod_lt _ hpos).trans_le hbeyond⟩
  · refine ⟨2 ^ fieldBits - o, by omega, ?_⟩
    rw [show o + (2 ^ fieldBits - o) = 2 ^ fieldBits by omega, Nat.mod_self]
    omega

/-- **The rule of the registers.** An accepted request accesses, for some of its words in order, the
word given by `fieldBits` bits of the address; for all if no poll times out. -/
theorem register_in_range_iff {w : U32} {fieldBits : ℕ} {offset words : U16} {ι : Type*}
    {before : List EepromAccess} (status : ι → (ℕ → U16) → ℤ)
    (after : ι → (ℕ → U16) → List EepromAccess) (done : ι)
    (hempty : words = 0 → ∀ e d, status e d = errInvalidArgument ∧ after e d = before)
    (hrefused : words ≠ 0 → offset.setWidth 32 ≥ w →
      ∀ e d, status e d = errEeprom ∧ after e d = before)
    (haccepted : words ≠ 0 → ¬ offset.setWidth 32 ≥ w → ∀ e d, ∃ m ≤ words.toNat,
      ∃ access : ℕ → EepromAccess, (∀ j < m, (access j).addr = (offset.toNat + j) % 2 ^ fieldBits) ∧
        after e d = before ++ (List.range' 0 m).map access ∧
        (status e d = success → m = words.toNat))
    (hdone : words ≠ 0 → ¬ offset.setWidth 32 ≥ w → ∀ d, status done d = success) :
    (∀ e d, StaysInRange w offset words before (status e d) (after e d)) ↔
      RegisterFits w fieldBits offset words := by
  have ho : (offset.setWidth 32).toNat = offset.toNat := BitVec.toNat_setWidth_of_le (by decide)
  have hcheck : offset.setWidth 32 ≥ w ↔ w.toNat ≤ offset.toNat := by
    rw [ge_iff_le, BitVec.le_def, ho]
  by_cases hn : words = 0
  · have hfits : RegisterFits w fieldBits offset words := .inl (by rw [hn]; rfl)
    refine ⟨fun _ => hfits, fun _ e d => ?_⟩
    obtain ⟨hst, hafter⟩ := hempty hn e d
    exact ⟨[], by rw [hafter, List.append_nil], nofun, fun _ => ⟨by rw [hst]; decide, rfl⟩⟩
  · have hn' : words.toNat ≠ 0 := fun h => hn (BitVec.eq_of_toNat_eq h)
    by_cases hoff : offset.setWidth 32 ≥ w
    · refine ⟨fun _ => .inr (.inl (hcheck.mp hoff)), fun _ e d => ?_⟩
      obtain ⟨hst, hafter⟩ := hrefused hn hoff e d
      exact ⟨[], by rw [hafter, List.append_nil], nofun, fun _ => ⟨by rw [hst]; decide, rfl⟩⟩
    · have hoff' : offset.toNat < w.toNat := Nat.lt_of_not_le (mt hcheck.mpr hoff)
      constructor
      · intro h
        obtain ⟨xs, hxs, hrange, hrefuse⟩ := h done 0
        obtain ⟨m, -, access, hadd, hafter, hall⟩ := haccepted hn hoff done 0
        obtain rfl := hall (hdone hn hoff 0)
        obtain rfl := List.append_cancel_left (hxs.symm.trans hafter)
        have hsize : offset.toNat + words.toNat ≤ w.toNat := by
          by_contra hlarge
          exact (hrefuse (.inr (by omega))).1 (hdone hn hoff 0)
        refine .inr (.inr ⟨hsize, ?_⟩)
        by_contra hfit
        rw [not_or] at hfit
        obtain ⟨p, hp, hbelow⟩ := exists_mod_lt hfit.1 (Nat.pos_of_ne_zero hn')
          (Nat.lt_of_not_le hfit.2)
        have hlo := (hrange (access p)
          (List.mem_map_of_mem (List.mem_range'_1.mpr ⟨by omega, by omega⟩))).1
        rw [hadd p hp] at hlo
        omega
      · intro hfits e d
        obtain ⟨hsize, hfit⟩ := (hfits.resolve_left hn').resolve_left (by omega)
        obtain ⟨m, hm, access, hadd, hafter, -⟩ := haccepted hn hoff e d
        refine ⟨_, hafter, fun x hx => ?_, fun hbad => by omega⟩
        obtain ⟨j, hj, rfl⟩ := List.mem_map.mp hx
        rw [List.mem_range'_1] at hj
        rw [hadd j (by omega)]
        obtain ⟨hlo, hhi⟩ := mod_in_range (a := offset.toNat + j) hfit (by omega) (by omega)
        exact ⟨hlo, hhi, hhi.trans_le hsize⟩

theorem eerd_in_range_iff (hw : EerdHw) (offset words : U16) :
    EerdInRange hw offset words ↔ RegisterFits hw.wordSize hw.readBits offset words := by
  refine register_in_range_iff (fun e d => (readEerdBufferGeneric e offset words d hw).1)
    (fun e d => (readEerdBufferGeneric e offset words d hw).2.2.log) (fun _ _ => true) ?_ ?_ ?_ ?_
  · intro hn e d
    rw [readEerdBufferGeneric, if_pos hn]
    exact ⟨rfl, rfl⟩
  · intro hn hoff e d
    rw [readEerdBufferGeneric, if_neg hn, if_pos hoff]
    exact ⟨rfl, rfl⟩
  · intro hn hoff e d
    rw [readEerdBufferGeneric, if_neg hn, if_neg hoff]
    have hfit : offset.toNat + 0 + words.toNat < 2 ^ 30 := by omega
    obtain ⟨m, hm, p, hlog, hok⟩ := readEerdLoop_spec e d hw hfit
    refine ⟨m, hm, fun j => .read ((offset.toNat + j) % 2 ^ hw.readBits), fun j _ => rfl, ?_,
      fun h => (hok h).1⟩
    rw [hlog]
    simp [List.range'_eq_map_range, Function.comp_def]
  · intro hn hoff d
    rw [readEerdBufferGeneric, if_neg hn, if_neg hoff]
    exact readEerdLoop_done ..

theorem eewr_in_range_iff (hw : EerdHw) (offset words : U16) :
    EewrInRange hw offset words ↔ RegisterFits hw.wordSize 14 offset words := by
  refine register_in_range_iff (fun e d => (writeEewrBufferGeneric e offset words d hw).1)
    (fun e d => (writeEewrBufferGeneric e offset words d hw).2.log) (fun _ _ => true) ?_ ?_ ?_ ?_
  · intro hn e d
    rw [writeEewrBufferGeneric, if_pos hn]
    exact ⟨rfl, rfl⟩
  · intro hn hoff e d
    rw [writeEewrBufferGeneric, if_neg hn, if_pos hoff]
    exact ⟨rfl, rfl⟩
  · intro hn hoff e d
    rw [writeEewrBufferGeneric, if_neg hn, if_neg hoff]
    obtain ⟨m, hm, p, mem, hlog, hok⟩ := writeEewrLoop_spec e d hw
    refine ⟨m, hm, eewrAccess offset.toNat d, fun j hj => ?_, ?_, fun h => (hok h).1⟩
    · exact eewrAddr_eewrValue _ (by omega)
    · rw [hlog]
  · intro hn hoff d
    rw [writeEewrBufferGeneric, if_neg hn, if_neg hoff]
    exact writeEewrLoop_done ..

/-- **The requests that stay in range**, for the four functions. -/
theorem eeprom_in_range_iff (w : U32) (bits : AddressBits) (hw : EerdHw) (offset words : U16) :
    (WriteInRange w bits offset words ↔ BitBangFits w bits offset words) ∧
    (ReadInRange w bits offset words ↔ BitBangFits w bits offset words) ∧
    (EerdInRange hw offset words ↔ RegisterFits hw.wordSize hw.readBits offset words) ∧
    (EewrInRange hw offset words ↔ RegisterFits hw.wordSize 14 offset words) :=
  ⟨write_in_range_iff w bits offset words, read_in_range_iff w bits offset words,
    eerd_in_range_iff hw offset words, eewr_in_range_iff hw offset words⟩

def eerdOf64 : EerdHw where
  wordSize := 64
  readBits := 14
  readBits_ge := le_rfl
  mem := fun _ => 0
  log := []
  polls := 0

def spiOf64 : SpiHw where
  wordSize := 64
  addressBits := .bits16
  wordPageSize := 32
  dev := { pageSize := 32, mem := fun _ => 0, log := [], latch := false, phase := .opcode }
  holds := 0

/-- Offset 100 is sent bit by bit, and by register the word after the last is accessed. -/
theorem accesses_beyond_64 :
    (∃ hw', writeEepromBufferBitBangGeneric 2 (fun _ => .granted) 100 1 (fun _ => 7) spiOf64 =
        some (success, hw') ∧ hw'.dev.log = [.write 100 7]) ∧
      (readEerdBufferGeneric (fun _ _ => true) 63 2 (fun _ => 0) eerdOf64).1 = success ∧
      (readEerdBufferGeneric (fun _ _ => true) 63 2 (fun _ => 0) eerdOf64).2.2.log =
        [.read 63, .read 64] ∧
      (writeEewrBufferGeneric (fun _ _ => true) 63 2 (fun _ => 7) eerdOf64).2.log =
        [.write 63 7, .write 64 7] :=
  ⟨⟨_, rfl, by decide⟩, by decide, by decide, by decide⟩

end Ixgbe
