import Ixgbe.Eeprom.SpiFrames

/-! # Writes to an SPI EEPROM

A burst ends before it runs past a page: pieces, bursts and words share one counter. -/

namespace Ixgbe

open PageWrap List

theorem endsBurst_of_two_pow {pageSize : U16} {k a : ℕ} (hpage : pageSize.toNat = 2 ^ k)
    (ha : a % 2 ^ k = 2 ^ k - 1) : endsBurst pageSize a = true := by
  rw [endsBurst, hpage, Nat.and_two_pow_sub_one_eq_mod, ha]
  simp

theorem burstLen_in_page {pageSize : U16} {k : ℕ}
    (hpage : pageSize = 0 ∨ pageSize.toNat = 2 ^ k) (a n : ℕ) :
    a % 2 ^ k + burstLen pageSize a n ≤ 2 ^ k := by
  have hlt : a % 2 ^ k < 2 ^ k := Nat.mod_lt _ (Nat.two_pow_pos k)
  rcases hpage with rfl | hpage
  · -- with no page size every word is a burst
    cases n with
    | zero => exact hlt.le
    | succ n =>
      exact hlt
  · by_contra hlong
    have hlast : (a + (2 ^ k - 1 - a % 2 ^ k)) % 2 ^ k = 2 ^ k - 1 := by
      rw [Nat.add_mod, Nat.mod_eq_of_lt (show 2 ^ k - 1 - a % 2 ^ k < 2 ^ k by omega),
        show a % 2 ^ k + (2 ^ k - 1 - a % 2 ^ k) = 2 ^ k - 1 by omega]
      exact Nat.mod_eq_of_lt (by omega)
    have hgoes : endsBurst pageSize (a + (2 ^ k - 1 - a % 2 ^ k)) = false :=
      not_endsBurst (n := n) (by omega)
    rw [endsBurst_of_two_pow hpage hlast] at hgoes
    exact Bool.noConfusion hgoes

theorem writeBursts_eq_fill {pageSize : U16} {k : ℕ}
    (hpage : pageSize = 0 ∨ pageSize.toNat = 2 ^ k) (n a : ℕ) (ws : List U16) (e : PagedEeprom)
    (hdev : e.pageSize = 2 ^ k) (hn : ws.length ≤ n) (ha : a + ws.length ≤ 2 ^ 15) :
    e.writeBursts .bits16 pageSize n a ws =
      { e with mem := fill a ws e.mem, log := e.log ++ burstLog a ws } := by
  induction n generalizing a ws e with
  | zero =>
    obtain rfl := length_eq_zero_iff.mp (Nat.le_zero.mp hn)
    simp [PagedEeprom.writeBursts, fill, burstLog]
  | succ n ih =>
    cases ws with
    | nil => simp [PagedEeprom.writeBursts, fill, burstLog]
    | cons w ws =>
      have hpos := burstLen_pos pageSize a ws.length
      have hle := burstLen_le pageSize a (ws.length + 1)
      have hin := burstLen_in_page hpage a (ws.length + 1)
      rw [length_cons] at hn ha
      rw [PagedEeprom.writeBursts]
      generalize burstLen pageSize a (ws.length + 1) = m at hpos hle hin
      have haddr : wordAddr .bits16 a = a := Nat.mod_eq_of_lt (by omega)
      have hburst : e.burst a ((w :: ws).take m) = { e with
          mem := fill a ((w :: ws).take m) e.mem
          log := e.log ++ burstLog a ((w :: ws).take m) } := by
        rw [PagedEeprom.burst, store_eq_fill _ _ _ (by rw [hdev, length_take]; omega)]
        rfl
      have hsplit := take_append_drop m (w :: ws)
      have hlen : ((w :: ws).take m).length = m := by
        rw [length_take, length_cons]
        omega
      have hrest : ((w :: ws).drop m).length = ws.length + 1 - m := by
        rw [length_drop, length_cons]
      rw [haddr, ih (a + m) _ (e.burst a ((w :: ws).take m)) hdev (by omega) (by omega), hburst]
      conv_rhs => rw [← hsplit, fill_append, burstLog_append, hlen, ← append_assoc]

def writtenUpTo (hw : SpiHw) (offset : ℕ) (data : ℕ → U16) (i : ℕ) : PagedEeprom :=
  { hw.dev.toPagedEeprom with
    mem := fill offset (bufferSlice data 0 i) hw.dev.mem
    log := hw.dev.log ++ burstLog offset (bufferSlice data 0 i) }

theorem bufferSlice_add (data : ℕ → U16) (i n : ℕ) :
    bufferSlice data 0 (i + n) = bufferSlice data 0 i ++ bufferSlice data i n := by
  simp [bufferSlice, range_add]

@[simp] theorem length_bufferSlice (data : ℕ → U16) (i n : ℕ) :
    (bufferSlice data i n).length = n := by
  simp [bufferSlice]

theorem burstLog_bufferSlice (a : ℕ) (data : ℕ → U16) (i n : ℕ) :
    burstLog a (bufferSlice data i n) =
      (List.range n).map fun k => .write (a + k) (data (i + k)) := by
  induction n with
  | zero => rfl
  | succ n ih =>
    have hsplit : bufferSlice data i (n + 1) = bufferSlice data i n ++ [data (i + n)] := by
      simp [bufferSlice, range_succ]
    rw [hsplit, burstLog_append, ih, length_bufferSlice, range_succ, map_append]
    rfl

theorem write_piece {hw s : SpiHw} {env : ℕ → SpiReply} {offset i n k : ℕ} {data : ℕ → U16}
    (hpage : hw.wordPageSize = 0 ∨ hw.wordPageSize.toNat = 2 ^ k) (hdev : hw.dev.pageSize = 2 ^ k)
    (hbits : hw.addressBits = .bits16) (hrange : offset + i + n ≤ 2 ^ 15)
    (hs : s.addressBits = hw.addressBits ∧ s.wordPageSize = hw.wordPageSize ∧
      s.dev.toPagedEeprom = writtenUpTo hw offset data i)
    (hok : (writeEepromBufferBitBang env ((offset + i) % 2 ^ 16) (bufferSlice data i n) s).1 =
      success) :
    let s' := (writeEepromBufferBitBang env ((offset + i) % 2 ^ 16) (bufferSlice data i n) s).2
    s'.addressBits = hw.addressBits ∧ s'.wordPageSize = hw.wordPageSize ∧
      s'.dev.toPagedEeprom = writtenUpTo hw offset data (i + n) := by
  obtain ⟨haddr, hsize, he⟩ := hs
  rcases write_cases env ((offset + i) % 2 ^ 16) (bufferSlice data i n) s with
    ⟨hfail, -⟩ | ⟨-, d, hd, hs'⟩
  · exact absurd hok hfail
  · rw [Nat.mod_eq_of_lt (by omega)] at hs' hd ⊢
    rw [hs']
    refine ⟨haddr, hsize, hd.trans ?_⟩
    rw [haddr, hbits, hsize, he, writeBursts_eq_fill hpage _ (offset + i) (bufferSlice data i n)
      (writtenUpTo hw offset data i) hdev le_rfl (by rw [length_bufferSlice]; omega)]
    simp only [writtenUpTo, bufferSlice_add, fill_append, burstLog_append, length_bufferSlice,
      append_assoc]

/-- **A request writes every word once**, with 16-bit addresses and pages of a power of two;
detection is not triggered. -/
theorem bit_bang_write_exact (env : ℕ → SpiReply) (hw : SpiHw) (offset words : U16)
    (data : ℕ → U16) (k : ℕ) (hdev : hw.dev.pageSize = 2 ^ k) (hbits : hw.addressBits = .bits16)
    (hpage : hw.wordPageSize = 0 ∨ hw.wordPageSize.toNat = hw.dev.pageSize)
    (hwords : 1 ≤ words.toNat) (hrange : offset.toNat + words.toNat ≤ hw.wordSize.toNat)
    (hsize : hw.wordSize.toNat ≤ 32768)
    (hdetect : ¬ (hw.wordPageSize = 0 ∧ words.toNat > eepromPageSizeMax)) :
    ∃ r, WrapLoop.Returns
        (fun fuel => writeEepromBufferBitBangGeneric fuel env offset words data hw) r ∧
      (r.1 = success →
        (∀ i < words.toNat, r.2.dev.mem (offset.toNat + i) = data i) ∧
        (∀ a, a < offset.toNat ∨ offset.toNat + words.toNat ≤ a → r.2.dev.mem a = hw.dev.mem a) ∧
        r.2.dev.log = hw.dev.log ++
          (List.range words.toNat).map fun i => .write (offset.toNat + i) (data i)) := by
  have hne : words ≠ 0 := by
    rintro rfl
    simp at hwords
  have hfits : ¬ words.setWidth 32 > hw.wordSize - offset.setWidth 32 := by
    rw [gt_iff_lt, BitVec.lt_def, BitVec.toNat_sub_of_le (by rw [BitVec.le_def]; simp; omega)]
    simp
    omega
  have hstart : hw.dev.toPagedEeprom = writtenUpTo hw offset.toNat data 0 := by
    simp [writtenUpTo, bufferSlice, fill, burstLog]
  rw [hdev] at hpage
  obtain ⟨r, hr, hcases⟩ := pieceLoop_cases
    (fun i count s => writeEepromBufferBitBang env ((offset.toNat + i) % 2 ^ 16)
      (bufferSlice data i count) s) (show words.toNat ≤ 65280 by omega)
    (fun i s => s.addressBits = hw.addressBits ∧ s.wordPageSize = hw.wordPageSize ∧
      s.dev.toPagedEeprom = writtenUpTo hw offset.toNat data i)
    (fun i s hi hs hok => by
      have hcount := pieceCount_eq words.toNat i
      exact write_piece hpage hdev hbits (by omega) hs hok)
    ⟨rfl, rfl, hstart⟩
  refine ⟨r, ?_, fun hok => ?_⟩
  · simpa only [writeEepromBufferBitBangGeneric, if_neg hne, if_neg hfits, if_neg hdetect] using hr
  · obtain ⟨-, -, -, he⟩ : r.1 = success ∧ r.2.addressBits = hw.addressBits ∧
        r.2.wordPageSize = hw.wordPageSize ∧
        r.2.dev.toPagedEeprom = writtenUpTo hw offset.toNat data words.toNat := by
      rcases hcases with h | ⟨i, s, -, -, hfail, rfl⟩
      · exact h
      · exact absurd hok hfail
    rw [he]
    refine ⟨fun i hi => ?_, fun a ha => ?_, ?_⟩
    · have hi' : i < (bufferSlice data 0 words.toNat).length := by rwa [length_bufferSlice]
      refine (fill_getElem _ _ hi').trans ?_
      simp [bufferSlice]
    · exact fill_of_not_mem _ _ (by rwa [length_bufferSlice])
    · simp only [writtenUpTo, burstLog_bufferSlice, Nat.zero_add]

def eepromOf32 : SpiHw where
  wordSize := 1024
  addressBits := .bits16
  wordPageSize := 32
  dev := { pageSize := 32, mem := fun _ => 0, log := [], latch := false, phase := .opcode }
  holds := 0

theorem bit_bang_write_across_page :
    ∃ r, WrapLoop.Returns (fun fuel => writeEepromBufferBitBangGeneric fuel (fun _ => .granted)
        30 5 (BitVec.ofNat 16) eepromOf32) r ∧ r.1 = success ∧
      (∀ i < 5, r.2.dev.mem (30 + i) = BitVec.ofNat 16 i) ∧
      (∀ a, a < 30 ∨ 35 ≤ a → r.2.dev.mem a = 0) ∧
      r.2.dev.log = (List.range 5).map fun i => .write (30 + i) (BitVec.ofNat 16 i) := by
  obtain ⟨r, hr, hok⟩ := bit_bang_write_exact (fun _ => .granted) eepromOf32 30 5
    (BitVec.ofNat 16) 5 rfl rfl (.inr rfl) (by decide) (by decide) (by decide) (by decide)
  obtain ⟨fuel, hfuel⟩ := hr.exists_fuel
  have hsuccess : r.1 = success :=
    WrapLoop.loop_success _ (fun i s => write_granted _ _ s) hfuel
  exact ⟨r, hr, hsuccess, hok hsuccess⟩

end Ixgbe
