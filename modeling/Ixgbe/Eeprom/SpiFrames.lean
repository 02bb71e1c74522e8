import Ixgbe.Eeprom.Spi

/-! # The frames on the SPI bus

They are commands to the contents alone. In a piece the opcode's address bit is never taken back. -/

namespace Ixgbe

open PageWrap List SpiDevice Nat

/-- The word address the device takes for word `a`. -/
def wordAddr : AddressBits → ℕ → ℕ
  | .bits8, a => if 128 ≤ a then 128 + a % 128 else a
  | .bits16, a => a % 2 ^ 15

def burstLog : ℕ → List U16 → List EepromAccess
  | _, [] => []
  | a, w :: ws => .write a w :: burstLog (a + 1) ws

theorem burstLog_append (a : ℕ) (ws vs : List U16) :
    burstLog a (ws ++ vs) = burstLog a ws ++ burstLog (a + ws.length) vs := by
  induction ws generalizing a with
  | nil => rfl
  | cons w ws ih =>
    rw [cons_append, burstLog, burstLog, ih, length_cons, cons_append,
      show a + 1 + ws.length = a + (ws.length + 1) by omega]

namespace PagedEeprom

def burst (e : PagedEeprom) (s : ℕ) (ws : List U16) : PagedEeprom :=
  { e with mem := store e.pageSize s 0 ws e.mem, log := e.log ++ burstLog s ws }

end PagedEeprom

/-- The address bit is set only if word `a` has it. -/
def OpcodeOk (base : U8) (bits : AddressBits) (a : ℕ) (op : U8) : Prop :=
  op = base ∨ op = base ||| eepromA8OpcodeSpi ∧ bits = .bits8 ∧ 128 ≤ a

variable {op : U8} {bits : AddressBits} {a : ℕ} {pageSize : U16}

theorem withA8_eq {base : U8} (h : OpcodeOk base bits a op) :
    withA8 bits a op =
      if bits = .bits8 ∧ 128 ≤ a then base ||| eepromA8OpcodeSpi else base := by
  rw [withA8]
  rcases h with rfl | ⟨rfl, hbits, ha⟩
  · rfl
  · rw [if_pos ⟨hbits, ha⟩, if_pos ⟨hbits, ha⟩, BitVec.or_assoc, BitVec.or_self]

theorem opcodeOk_withA8 {base : U8} {a' : ℕ}
    (h : OpcodeOk base bits a op) (ha : a ≤ a') : OpcodeOk base bits a' (withA8 bits a op) := by
  rw [withA8_eq h]
  split
  case isTrue hA8 =>
    exact .inr ⟨rfl, hA8.1, hA8.2.trans ha⟩
  · exact .inl rfl

namespace SpiDevice

@[simp] theorem standby_phase (d : SpiDevice) : d.standby.phase = .opcode := by
  rw [standby]
  split <;> rfl

@[simp] theorem standby_toPagedEeprom (d : SpiDevice) :
    d.standby.toPagedEeprom = d.toPagedEeprom := by
  rw [standby]
  split <;> rfl

end SpiDevice

theorem wordAddr_eq (bits : AddressBits) (a : ℕ) :
    ((if decide (bits = .bits8 ∧ 128 ≤ a) then 2 ^ bits.count else 0) +
      (BitVec.ofNat 16 (a * 2)).toNat % 2 ^ bits.count) / 2 = wordAddr bits a := by
  rw [BitVec.toNat_ofNat]
  cases bits with
  | bits8 =>
    by_cases ha : 128 ≤ a
    · simp only [ha, wordAddr, AddressBits.count, and_self, decide_true, if_true]
      omega
    · simp only [ha, wordAddr, AddressBits.count, and_false, decide_false, if_false,
        Bool.false_eq_true]
      omega
  | bits16 =>
    simp only [wordAddr, AddressBits.count, reduceCtorEq, false_and, decide_false,
      Bool.false_eq_true, if_false]
    omega

def transferOpcode (write : Bool) : U8 :=
  if write then eepromWriteOpcodeSpi else eepromReadOpcodeSpi

namespace SpiDevice

theorem shiftOut_opcode {d : SpiDevice} (op : U8) (hd : d.phase = .opcode) :
    d.shiftOut (op.setWidth 16) eepromOpcodeBits = d.command op.toNat := by
  have hop : (op.setWidth 16).toNat % 2 ^ eepromOpcodeBits = op.toNat := by
    exact mod_eq_of_lt op.isLt
  rw [shiftOut, hd]
  exact congrArg d.command hop

theorem command_transferOpcode (d : SpiDevice) (write a8 : Bool) :
    d.command (if a8 then transferOpcode write ||| eepromA8OpcodeSpi
      else transferOpcode write).toNat = { d with phase := .address write a8 } := by
  cases write <;> cases a8 <;> rfl

theorem command_wren (d : SpiDevice) :
    d.command eepromWrenOpcodeSpi.toNat = { d with latch := true, phase := .done } := rfl

theorem shiftOut_address {d : SpiDevice} {write a8 : Bool} (v : U16) (count : ℕ)
    (hd : d.phase = .address write a8) :
    let a := ((if a8 then 2 ^ count else 0) + v.toNat % 2 ^ count) / 2
    d.shiftOut v count = { d with phase := if write then .writing a 0 else .reading a } := by
  rw [shiftOut, hd]

end SpiDevice

theorem sendAddress_eq {d : SpiDevice} (write : Bool)
    (hop : OpcodeOk (transferOpcode write) bits a op) (hd : d.phase = .opcode) :
    sendAddress bits a (withA8 bits a op) d = { d with
      phase := if write then .writing (wordAddr bits a) 0 else .reading (wordAddr bits a) } := by
  have hop' : withA8 bits a op = if decide (bits = .bits8 ∧ 128 ≤ a) then
      transferOpcode write ||| eepromA8OpcodeSpi else transferOpcode write := by
    rw [withA8_eq hop]
    by_cases hA8 : bits = .bits8 ∧ 128 ≤ a <;> simp [hA8]
  rw [sendAddress, shiftOut_opcode _ hd, hop', command_transferOpcode,
    shiftOut_address _ _ rfl, wordAddr_eq]

def burstLen (pageSize : U16) : ℕ → ℕ → ℕ
  | _, 0 => 0
  | a, n + 1 => if endsBurst pageSize a then 1 else burstLen pageSize (a + 1) n + 1

theorem burstLen_le (pageSize : U16) (a n : ℕ) : burstLen pageSize a n ≤ n := by
  induction n generalizing a with
  | zero => exact le_rfl
  | succ n ih =>
    rw [burstLen]
    split
    · omega
    · exact succ_le_succ (ih (a + 1))

theorem burstLen_pos (pageSize : U16) (a n : ℕ) : 0 < burstLen pageSize a (n + 1) := by
  rw [burstLen]
  split <;> omega

theorem not_endsBurst {n i : ℕ} (h : i + 1 < burstLen pageSize a n) :
    endsBurst pageSize (a + i) = false := by
  induction n generalizing a i with
  | zero => exact absurd h (not_lt_zero _)
  | succ n ih =>
    rw [burstLen] at h
    by_cases hend : endsBurst pageSize a = true
    · rw [if_pos hend] at h
      omega
    · rw [if_neg hend] at h
      cases i with
      | zero => exact Bool.not_eq_true _ ▸ hend
      | succ i =>
        rw [show a + (i + 1) = a + 1 + i by omega]
        exact ih (by omega)

theorem sendBurst_eq {d : SpiDevice} {s k : ℕ} (a : ℕ) (ws : List U16)
    (hphase : d.phase = .writing s k) (hlatch : d.latch = true) :
    let n := burstLen pageSize a ws.length
    sendBurst pageSize a ws d = (a + n, ws.drop n, { d with
      mem := store d.pageSize s k (ws.take n) d.mem
      log := d.log ++ burstLog (s + k) (ws.take n)
      phase := .writing s (k + n) }) := by
  induction ws generalizing a k d with
  | nil =>
    obtain ⟨e, latch, phase⟩ := d
    obtain rfl : phase = .writing s k := hphase
    simp [sendBurst, burstLen, store, burstLog]
  | cons w ws ih =>
    have hshift : d.shiftOut (swapBytes w) 16 = { d with
        mem := Function.update d.mem (slot d.pageSize s k) w
        log := d.log ++ [.write (s + k) w]
        phase := .writing s (k + 1) } := by
      simp only [shiftOut, hphase, storeWord, hlatch, if_true, swapBytes_swapBytes]
    rw [sendBurst, hshift]
    by_cases hend : endsBurst pageSize a = true
    · simp [burstLen, hend, store, burstLog]
    · have hrest := ih (k := k + 1) (d := { d with
        mem := Function.update d.mem (slot d.pageSize s k) w
        log := d.log ++ [.write (s + k) w]
        phase := .writing s (k + 1) }) (a + 1) rfl hlatch
      simp only [hend, length_cons, burstLen, Bool.false_eq_true, if_false] at hrest ⊢
      rw [hrest]
      simp only [drop_succ_cons, take_succ_cons, store, burstLog, append_assoc,
        singleton_append, add_assoc, add_comm 1]

def PagedEeprom.writeBursts (bits : AddressBits) (pageSize : U16) :
    ℕ → ℕ → List U16 → PagedEeprom → PagedEeprom
  | 0, _, _, e => e
  | _ + 1, _, [], e => e
  | n + 1, a, w :: ws, e =>
    let m := burstLen pageSize a (ws.length + 1)
    PagedEeprom.writeBursts bits pageSize n (a + m) ((w :: ws).drop m)
      (e.burst (wordAddr bits a) ((w :: ws).take m))

namespace PagedEeprom

@[simp] theorem writeBursts_nil (bits : AddressBits) (pageSize : U16) (n a : ℕ) (e : PagedEeprom) :
    e.writeBursts bits pageSize n a [] = e := by
  cases n <;> rfl

theorem writeBursts_succ (bits : AddressBits) (pageSize : U16) (n a : ℕ) (ws : List U16)
    (e : PagedEeprom) :
    e.writeBursts bits pageSize (n + 1) a ws =
      (e.burst (wordAddr bits a)
        (ws.take (burstLen pageSize a ws.length))).writeBursts bits pageSize
        n (a + burstLen pageSize a ws.length) (ws.drop (burstLen pageSize a ws.length)) := by
  cases ws with
  | nil => simp [burst, store, burstLog]
  | cons w ws => rfl

end PagedEeprom

theorem writeBursts_toPagedEeprom (n a : ℕ) (ws : List U16) (d : SpiDevice)
    (hop : OpcodeOk eepromWriteOpcodeSpi bits a op) :
    (writeBursts bits pageSize n a ws op d).toPagedEeprom =
      d.toPagedEeprom.writeBursts bits pageSize n a ws := by
  induction n generalizing a ws op d with
  | zero => rfl
  | succ n ih =>
    cases ws with
    | nil => rfl
    | cons w ws =>
      have henable : (d.standby.shiftOut
          (eepromWrenOpcodeSpi.setWidth 16) eepromOpcodeBits).standby =
          { d.standby with latch := true, phase := .opcode } := by
        rw [shiftOut_opcode _ d.standby_phase, command_wren]
        rfl
      rw [writeBursts, henable, sendAddress_eq true hop rfl, sendBurst_eq a _ rfl rfl]
      rw [ih _ _ _ (opcodeOk_withA8 hop (le_add_right a _)), standby_toPagedEeprom,
        PagedEeprom.writeBursts, ← d.standby_toPagedEeprom]
      rfl

theorem readWords_eq (n a : ℕ) (d : SpiDevice) (hop : OpcodeOk eepromReadOpcodeSpi bits a op) :
    let r := readWords bits n a op d
    let as := (List.range' a n).map (wordAddr bits)
    r.1 = as.map d.mem ∧
      r.2.toPagedEeprom = { d.toPagedEeprom with log := d.log ++ as.map .read } := by
  induction n generalizing a op d with
  | zero => exact ⟨rfl, by simp [readWords]⟩
  | succ n ih =>
    have hd := d.standby_toPagedEeprom
    have hsend := sendAddress_eq false hop d.standby_phase
    have hshift : (sendAddress bits a (withA8 bits a op) d.standby).shiftIn =
        (swapBytes (d.mem (wordAddr bits a)), { d.standby with
          phase := .reading (wordAddr bits a + 1)
          log := d.log ++ [.read (wordAddr bits a)] }) := by
      rw [hsend, ← hd]
      rfl
    rw [readWords, hshift]
    obtain ⟨hwords, hlog⟩ := ih (a + 1) { d.standby with
      phase := .reading (wordAddr bits a + 1)
      log := d.log ++ [.read (wordAddr bits a)] } (opcodeOk_withA8 hop (le_succ a))
    refine ⟨?_, ?_⟩
    · rw [hwords, ← hd, swapBytes_swapBytes]
      rfl
    · rw [hlog, ← hd]
      simp [range'_succ]

theorem readyEepromLoop_toPagedEeprom (busy : ℕ → Bool) (n k : ℕ) (d : SpiDevice)
    (hd : d.phase = .opcode) :
    (readyEepromLoop busy n k d).2.toPagedEeprom = d.toPagedEeprom := by
  induction n generalizing k d with
  | zero => rfl
  | succ n ih =>
    have hcmd : (d.shiftOut (eepromRdsrOpcodeSpi.setWidth 16) eepromOpcodeBits).toPagedEeprom =
        d.toPagedEeprom := by
      rw [shiftOut_opcode _ hd]
      rfl
    rw [readyEepromLoop]
    split
    · exact hcmd
    · rw [ih _ _ (standby_phase _), standby_toPagedEeprom, hcmd]

theorem prepareEeprom_snd (env : ℕ → SpiReply) (hw : SpiHw) :
    ∃ d : SpiDevice, d.toPagedEeprom = hw.dev.toPagedEeprom ∧
      (prepareEeprom env hw).2 = { hw with holds := hw.holds + 1, dev := d } := by
  have hready : (readyEeprom (env hw.holds) hw.dev.standby).2.toPagedEeprom =
      hw.dev.toPagedEeprom := by
    rw [readyEeprom, readyEepromLoop_toPagedEeprom _ _ _ _ (standby_phase _), standby_toPagedEeprom]
  simp only [prepareEeprom]
  split
  · exact ⟨hw.dev, rfl, rfl⟩
  · split
    · exact ⟨_, (standby_toPagedEeprom _).trans hready, rfl⟩
    · exact ⟨_, hready, rfl⟩

/-- Only the EEPROM has been held, with the contents `e` since. -/
def SpiHw.HeldWith (hw : SpiHw) (e : PagedEeprom) (hw' : SpiHw) : Prop :=
  ∃ d : SpiDevice, d.toPagedEeprom = e ∧ hw' = { hw with holds := hw.holds + 1, dev := d }

theorem write_cases (env : ℕ → SpiReply) (offset : ℕ) (data : List U16) (hw : SpiHw) :
    let r := writeEepromBufferBitBang env offset data hw
    (r.1 ≠ success ∧ hw.HeldWith hw.dev.toPagedEeprom r.2) ∨
      (r.1 = success ∧ hw.HeldWith (hw.dev.toPagedEeprom.writeBursts hw.addressBits hw.wordPageSize
        data.length offset data) r.2) := by
  obtain ⟨d, hd, hprep⟩ := prepareEeprom_snd env hw
  by_cases hok : (prepareEeprom env hw).1 = success
  · refine .inr ⟨?_, ?_⟩
    · rw [writeEepromBufferBitBang, if_neg (not_not.mpr hok)]
    · rw [writeEepromBufferBitBang, if_neg (not_not.mpr hok), hprep]
      exact ⟨_, by rw [standby_toPagedEeprom,
        writeBursts_toPagedEeprom _ _ _ _ (.inl rfl), hd], rfl⟩
  · rw [writeEepromBufferBitBang, if_pos hok]
    exact .inl ⟨hok, d, hd, hprep⟩

theorem read_cases (env : ℕ → SpiReply) (offset words : ℕ) (hw : SpiHw) :
    let r := readEepromBufferBitBang env offset words hw
    let as := (List.range' offset words).map (wordAddr hw.addressBits)
    (r.1 ≠ success ∧ hw.HeldWith hw.dev.toPagedEeprom r.2.2) ∨
      (r.1 = success ∧ r.2.1 = as.map hw.dev.mem ∧ hw.HeldWith { hw.dev.toPagedEeprom with
        log := hw.dev.log ++ as.map .read } r.2.2) := by
  obtain ⟨d, hd, hprep⟩ := prepareEeprom_snd env hw
  by_cases hok : (prepareEeprom env hw).1 = success
  · have hop : OpcodeOk eepromReadOpcodeSpi hw.addressBits offset eepromReadOpcodeSpi := .inl rfl
    obtain ⟨hwords, hlog⟩ := readWords_eq words offset d hop
    right
    rw [readEepromBufferBitBang, if_neg (not_not.mpr hok), hprep]
    refine ⟨rfl, ?_, _, ?_, rfl⟩
    · rw [hwords, ← hd]
    · rw [standby_toPagedEeprom, hlog, hd]
  · rw [readEepromBufferBitBang, if_pos hok]
    exact .inl ⟨hok, d, hd, hprep⟩

def SpiReply.granted : SpiReply where
  sync := true
  grant := fun _ => true
  busy := fun _ => false

theorem prepareEeprom_granted (hw : SpiHw) :
    (prepareEeprom (fun _ => .granted) hw).1 = success := rfl

theorem write_granted (offset : ℕ) (data : List U16) (hw : SpiHw) :
    (writeEepromBufferBitBang (fun _ => .granted) offset data hw).1 = success := by
  rw [writeEepromBufferBitBang, if_neg (not_not.mpr (prepareEeprom_granted hw))]

theorem read_granted (offset words : ℕ) (hw : SpiHw) :
    (readEepromBufferBitBang (fun _ => .granted) offset words hw).1 = success := by
  rw [readEepromBufferBitBang, if_neg (not_not.mpr (prepareEeprom_granted hw))]

theorem pieceCount_eq (words i : ℕ) : pieceCount words i = min 256 (words - i) := by
  rw [pieceCount, eepromRdBufferMaxCount]
  split <;> omega

theorem pieceLoop_cases {σ : Type*} (piece : ℕ → ℕ → σ → ℤ × σ) {words : ℕ}
    (hwords : words ≤ 65280) (I : ℕ → σ → Prop)
    (hpiece : ∀ i s, i < words → I i s → (piece i (pieceCount words i) s).1 = success →
      I (i + pieceCount words i) (piece i (pieceCount words i) s).2) {s : σ} (hI : I 0 s) :
    ∃ r, WrapLoop.Returns (fun fuel => pieceLoop piece words fuel s) r ∧
      ((r.1 = success ∧ I words r.2) ∨ ∃ i s', i < words ∧ I i s' ∧
        (piece i (pieceCount words i) s').1 ≠ success ∧ r = piece i (pieceCount words i) s') := by
  have hround : ∀ i s, i < words → I (min i words) s → (piece i (pieceCount words i) s).1 = 0 →
      I (min (i + 256) words) (piece i (pieceCount words i) s).2 := by
    intro i s hi hIs hok
    rw [min_eq_left hi.le] at hIs
    have hnext : min (i + 256) words = i + pieceCount words i := by
      rw [pieceCount_eq]
      omega
    rw [hnext]
    exact hpiece i s hi hIs hok
  have hsize : words + eepromRdBufferMaxCount ≤ 2 ^ 16 := by
    rw [eepromRdBufferMaxCount]
    omega
  have hstart : I (min 0 words) s := by rwa [zero_min]
  rcases WrapLoop.loop_cases (fun i s => piece i (pieceCount words i) s) (by decide) hsize
    (fun i s => I (min i words) s) hround (lt_succ_self (words - 0)) hstart with
    ⟨j, s', hj, hIj, hloop⟩ | ⟨j, s', hj, hIj, hfail, hloop⟩
  · rw [min_eq_right hj] at hIj
    exact ⟨(success, s'), WrapLoop.loop_returns hloop, .inl ⟨rfl, hIj⟩⟩
  · rw [min_eq_left hj.le] at hIj
    exact ⟨_, WrapLoop.loop_returns hloop, .inr ⟨j, s', hj, hIj, hfail, rfl⟩⟩

end Ixgbe
