import Ixgbe.Nvm.Access

/-! # Transfers are split losslessly

The commands of a call are consecutive and only the final one is marked as the last
(`Chunked.Moved`), whichever fails. -/

namespace Ixgbe

open Chunked List NvmFirmware Nat

def completedBytes (cmds : List SentCmd) : ℕ :=
  ((cmds.filter (·.status = success)).map (·.cmd.length)).sum

abbrev InOrder (start : ℕ) (cmds : List SentCmd) : Prop :=
  Consecutive (·.cmd.offset) (·.cmd.length) start cmds

/-- **A read of `n` bytes**, split into `cmds`; `buf` is the buffer before it. -/
structure SplitRead (fw : NvmFirmware) (offset n : ℕ) (readShadowRam : Bool) (buf : NvmBuf)
    (cmds : List SentCmd) (r : ℤ × ℕ × NvmHw × NvmBuf) : Prop where
  sector : ∀ c ∈ cmds, c.cmd.opcode = .read ∧
    c.cmd.offset % aciMaxBufferSize + c.cmd.length ≤ aciMaxBufferSize
  inOrder : InOrder offset cmds
  onlyLast : OnlyLast (·.cmd.lastCmd) cmds
  buffer : ∀ i < r.2.1, r.2.2.2 i = fw.content readShadowRam (offset + i)
  rest : ∀ i, r.2.1 ≤ i → r.2.2.2 i = buf i
  length : r.2.1 = completedBytes cmds
  whole : r.1 = success → r.2.1 = n ∧ ExactlyLast (·.cmd.lastCmd) cmds

def Whole (cmds : List SentCmd) (image : List U8) : Prop :=
  cmds.flatMap (·.cmd.data) = image ∧ ExactlyLast (·.cmd.lastCmd) cmds

def FinalRefused (cmds : List SentCmd) : Prop :=
  ∃ c, cmds.getLast? = some c ∧ c.cmd.lastCmd = true ∧ c.status ≠ success

/-- **An update with an image**, split into the commands `cmds`. -/
structure SplitWrite (module : ℕ) (image : List U8) (cmds : List SentCmd) (status : ℤ) : Prop where
  block : ∀ c ∈ cmds, c.cmd.opcode = .write ∧ c.cmd.moduleTypeid = module ∧
    c.cmd.length = c.cmd.data.length ∧ c.cmd.length ≤ aciMaxBufferSize
  inOrder : InOrder 0 cmds
  onlyLast : OnlyLast (·.cmd.lastCmd) cmds
  initial : cmds.flatMap (·.cmd.data) <+: image
  accepted : Whole (cmds.filter (·.status = success)) image ↔ status = success
  issued : Whole cmds image ↔ status = success ∨ FinalRefused cmds

theorem completedBytes_of_success {cmds : List SentCmd} (h : ∀ c ∈ cmds, c.status = success) :
    completedBytes cmds = (cmds.map (·.cmd.length)).sum := by
  rw [completedBytes, filter_eq_self.mpr fun c hc => decide_eq_true (h c hc)]

theorem completedBytes_snoc_refused {cmds : List SentCmd} {c : SentCmd} (h : c.status ≠ success) :
    completedBytes (cmds ++ [c]) = completedBytes cmds := by
  rw [completedBytes, filter_append, filter_cons_of_neg (by simpa using h), filter_nil,
    append_nil, ← completedBytes]

theorem offset_bytes {offset : ℕ} (h : offset < 2 ^ 24) :
    offset / 2 ^ 16 % 2 ^ 8 * 2 ^ 16 + offset % 2 ^ 16 = offset := by
  omega

section Read

variable {fw : NvmFirmware} {offset n : ℕ} {readShadowRam : Bool} {hw : NvmHw} {buf : NvmBuf}

theorem readSize_fits (offset n : ℕ) : Fits (readSize offset n) n where
  pos := fun d hd => by
    have := mod_lt ((offset + d) % 2 ^ 32) (show 0 < aciMaxBufferSize by decide)
    unfold readSize
    omega
  le := fun d hd => by
    unfold readSize
    omega

theorem readSize_le_sector (offset n d : ℕ) :
    (offset + d) % 2 ^ 32 % aciMaxBufferSize + readSize offset n d ≤
      aciMaxBufferSize := by
  have := mod_lt ((offset + d) % 2 ^ 32) (show 0 < aciMaxBufferSize by decide)
  unfold readSize
  omega

/-- Every command so far has completed, and the buffer holds what they read. -/
structure ReadSoFar (fw : NvmFirmware) (offset n : ℕ) (readShadowRam : Bool) (hw : NvmHw)
    (buf : NvmBuf) (d : ℕ) (s : NvmHw × NvmBuf) : Prop where
  log : ∃ cmds, s.1.sent = hw.sent ++ cmds ∧
    Moved (·.cmd.offset) (·.cmd.length) (·.cmd.lastCmd) offset n d cmds ∧
    (∀ c ∈ cmds, c.status = success) ∧
    ∀ c ∈ cmds, c.cmd.opcode = .read ∧
      c.cmd.offset % aciMaxBufferSize + c.cmd.length ≤ aciMaxBufferSize
  buffer : ∀ i, s.2 i = if i < d then fw.content readShadowRam (offset + i) else buf i

theorem offset_readCmd {m o len : ℕ} {last shadow : Bool} (h : o ≤ aciNvmMaxOffset) :
    (readCmd m o len last shadow).offset = o :=
  offset_bytes (lt_succ_of_le h)

theorem bytes_readCmd {o len : ℕ} {last shadow : Bool} (h : o ≤ aciNvmMaxOffset) (i : ℕ) :
    fw.bytes (readCmd aciNvmStartPoint o len last shadow) i =
      fw.content shadow (o + i) := by
  rw [bytes, offset_readCmd h]
  cases shadow <;> rfl

theorem aciReadNvm_cases (fw : NvmFirmware) (m o len start : ℕ) (last readShadowRam : Bool)
    (s : NvmHw × NvmBuf) :
    (fw.aciReadNvm m o len start last readShadowRam s = (errParam, s)) ∨
      o ≤ aciNvmMaxOffset ∧ ∃ c : SentCmd,
        c.cmd = readCmd m o len last readShadowRam ∧
        (fw.aciReadNvm m o len start last readShadowRam s).1 = c.status ∧
        (fw.aciReadNvm m o len start last readShadowRam s).2.1.sent = s.1.sent ++ [c] ∧
        (fw.aciReadNvm m o len start last readShadowRam s).2.2 =
          if c.status = success then s.2.fill start len (fw.bytes c.cmd) else s.2 := by
  unfold aciReadNvm
  split
  · exact .inl rfl
  case isFalse h =>
    exact .inr ⟨not_lt.mp h, ⟨_, _, _⟩, rfl, rfl, rfl, rfl⟩

abbrev readStep (fw : NvmFirmware) (offset : ℕ) (readShadowRam : Bool) (d size : ℕ) (last : Bool)
    (s : NvmHw × NvmBuf) : ℤ × NvmHw × NvmBuf :=
  fw.aciReadNvm aciNvmStartPoint ((offset + d) % 2 ^ 32) (size % 2 ^ 16) d last readShadowRam s

theorem readCmd_piece (fw : NvmFirmware) (hrange : offset + n ≤ 2 ^ 32) {d : ℕ} (hd : d < n)
    {c : NvmCmd} (hle : (offset + d) % 2 ^ 32 ≤ aciNvmMaxOffset)
    (hc : c = readCmd aciNvmStartPoint ((offset + d) % 2 ^ 32) (readSize offset n d % 2 ^ 16)
      (isLast (readSize offset n) n d) readShadowRam) :
    c.offset = offset + d ∧ c.length = readSize offset n d ∧
      c.lastCmd = isLast (readSize offset n) n d ∧
      (c.opcode = .read ∧ c.offset % aciMaxBufferSize + c.length ≤ aciMaxBufferSize) ∧
      ∀ i, fw.bytes c i = fw.content readShadowRam (offset + d + i) := by
  have hmod : (offset + d) % 2 ^ 32 = offset + d := mod_eq_of_lt (by omega)
  have hsector := readSize_le_sector offset n d
  have hsmall : readSize offset n d % 2 ^ 16 = readSize offset n d :=
    mod_eq_of_lt (lt_of_le_of_lt (le_trans (le_add_left _ _) hsector) (by decide))
  have hoff : c.offset = offset + d := by rw [hc, offset_readCmd hle, hmod]
  have hlen : c.length = readSize offset n d := by rw [hc, readCmd, hsmall]
  refine ⟨hoff, hlen, by rw [hc, readCmd], ⟨by rw [hc, readCmd], ?_⟩, ?_⟩
  · rw [hoff, hlen]
    rwa [hmod] at hsector
  · intro i
    rw [hc, bytes_readCmd hle, hmod]

theorem ReadSoFar.step (hrange : offset + n ≤ 2 ^ 32) {d : ℕ} {s : NvmHw × NvmBuf} (hd : d < n)
    (h : ReadSoFar fw offset n readShadowRam hw buf d s)
    (hok : (readStep fw offset readShadowRam d (readSize offset n d)
      (isLast (readSize offset n) n d) s).1 = 0) :
    ReadSoFar fw offset n readShadowRam hw buf (d + readSize offset n d)
      (readStep fw offset readShadowRam d (readSize offset n d)
        (isLast (readSize offset n) n d) s).2 := by
  rcases aciReadNvm_cases fw aciNvmStartPoint ((offset + d) % 2 ^ 32)
    (readSize offset n d % 2 ^ 16) d (isLast (readSize offset n) n d)
    readShadowRam s with hfail | ⟨hle, c, hc, hst, hsent, hbuf⟩
  · rw [readStep, hfail] at hok
    exact absurd hok (show errParam ≠ 0 by decide)
  · obtain ⟨hoff, hlen, hlast, hsector, hbytes⟩ := readCmd_piece fw hrange hd hle hc
    obtain ⟨cmds, hlog, hmoved, hall, hread⟩ := h.log
    have hsucc : c.status = success := hst.symm.trans hok
    constructor
    · refine ⟨cmds ++ [c], ?_, ?_, ?_, ?_⟩
      · rw [hsent, hlog, append_assoc]
      · have := hmoved.snoc (c := c) hd hoff (by rw [hlen, hlast, isLast])
        rwa [hlen] at this
      · exact forall_mem_append.mpr ⟨hall, forall_mem_singleton.mpr hsucc⟩
      · exact forall_mem_append.mpr ⟨hread, forall_mem_singleton.mpr hsector⟩
    · intro i
      have hlen' : readSize offset n d % 2 ^ 16 = readSize offset n d := by
        rw [← hlen, hc, readCmd]
        exact mod_mod _ _
      rw [hbuf, if_pos hsucc, hlen', NvmBuf.fill, h.buffer]
      split
      case isTrue hin =>
        rw [if_pos hin.2, hbytes, Nat.add_assoc, Nat.add_sub_cancel' hin.1]
      · exact if_congr (by omega) rfl rfl

theorem ReadSoFar.split_cut {d : ℕ} {s : NvmHw × NvmBuf}
    (h : ReadSoFar fw offset n readShadowRam hw buf d s) (hd : d < n) {status : ℤ}
    (hfail : status ≠ success) : ∃ cmds, s.1.sent = hw.sent ++ cmds ∧
      SplitRead fw offset n readShadowRam buf cmds (status, d, s) := by
  obtain ⟨cmds, hlog, hmoved, hall, hread⟩ := h.log
  refine ⟨cmds, hlog, ?_⟩
  constructor
  case sector => exact hread
  case inOrder => exact hmoved.consecutive
  case onlyLast => exact onlyLast_of_unmarked (hmoved.unmarked hd)
  case buffer => exact fun i hi => by rw [h.buffer, if_pos hi]
  case rest => exact fun i hi => by rw [h.buffer, if_neg (not_lt.mpr hi)]
  case length => rw [completedBytes_of_success hall, hmoved.sum]
  case whole => exact fun h => absurd h hfail

theorem readFlatNvm_split (fw : NvmFirmware) (offset n : ℕ) (readShadowRam : Bool) (hw : NvmHw)
    (buf : NvmBuf) (hn : 1 ≤ n) (hrange : offset + n ≤ 2 ^ 32) :
    ∃ cmds, (fw.readFlatNvm offset n readShadowRam hw buf).2.2.1.sent = hw.sent ++ cmds ∧
      SplitRead fw offset n readShadowRam buf cmds
        (fw.readFlatNvm offset n readShadowRam hw buf) := by
  have hstart : ReadSoFar fw offset n readShadowRam hw buf 0 (hw, buf) :=
    ⟨⟨[], (append_nil _).symm, .nil hn, forall_mem_nil _, forall_mem_nil _⟩, fun _ => rfl⟩
  unfold readFlatNvm
  split
  · exact hstart.split_cut hn (show errParam ≠ success by decide)
  · rcases loop_cases (readStep fw offset readShadowRam) (readSize_fits offset n)
      (ReadSoFar fw offset n readShadowRam hw buf) (fun _ _ hd h hok => h.step hrange hd hok) hn
      (by omega : n - 0 ≤ n + 1) hstart with ⟨s, hrun, h⟩ | ⟨d, s, hd, h, hfail, hrun⟩
    · obtain ⟨cmds, hlog, hmoved, hall, hread⟩ := h.log
      rw [hrun]
      refine ⟨cmds, hlog, ?_⟩
      constructor
      case sector => exact hread
      case inOrder => exact hmoved.consecutive
      case onlyLast => exact (hmoved.exactlyLast rfl).1
      case buffer => exact fun i hi => by rw [h.buffer, if_pos hi]
      case rest => exact fun i hi => by rw [h.buffer, if_neg (not_lt.mpr hi)]
      case length => rw [completedBytes_of_success hall, hmoved.sum]
      case whole => exact fun _ => ⟨rfl, hmoved.exactlyLast rfl⟩
    · rw [hrun]
      rcases aciReadNvm_cases fw aciNvmStartPoint ((offset + d) % 2 ^ 32)
        (readSize offset n d % 2 ^ 16) d (isLast (readSize offset n) n d)
        readShadowRam s with hnone | ⟨hle, c, hc, hst, hsent, hbuf⟩
      · -- the offset does not fit into a descriptor: no command more
        rw [readStep, hnone]
        exact h.split_cut hd (show errParam ≠ success by decide)
      · -- a command that fails
        obtain ⟨cmds, hlog, hmoved, hall, hread⟩ := h.log
        obtain ⟨hoff, -, -, hsector, -⟩ := readCmd_piece fw hrange hd hle hc
        have hrefused : c.status ≠ success := fun hEq => hfail (hst.trans hEq)
        rw [if_neg hrefused] at hbuf
        refine ⟨cmds ++ [c], by rw [hsent, hlog, append_assoc], ?_⟩
        constructor
        case sector => exact forall_mem_append.mpr ⟨hread, forall_mem_singleton.mpr hsector⟩
        case inOrder => exact consecutive_snoc.mpr ⟨hmoved.consecutive, by rw [hmoved.sum, hoff]⟩
        case onlyLast => exact onlyLast_snoc (hmoved.unmarked hd)
        case buffer => exact fun i hi => by rw [hbuf, h.buffer, if_pos hi]
        case rest => exact fun i hi => by rw [hbuf, h.buffer, if_neg (not_lt.mpr hi)]
        case length =>
          rw [completedBytes_snoc_refused hrefused, completedBytes_of_success hall, hmoved.sum]
        case whole => exact fun h => absurd h hfail

end Read

section Write

variable (fw : NvmFirmware) (module : ℕ) (component : String) (image : List U8) (wantLevel : Bool)
  (hw : NvmHw)

theorem blockSize_fits (n : ℕ) : Fits (blockSize n) n where
  pos := fun d hd => by
    unfold blockSize aciMaxBufferSize
    omega
  le := fun d hd => by
    unfold blockSize
    omega

abbrev writeStep (fw : NvmFirmware) (module : ℕ) (component : String) (image : List U8)
    (wantLevel : Bool) (offset size : ℕ) (last : Bool) (hw : NvmHw) : ℤ × NvmHw :=
  let r := fw.writeOneNvmBlock module offset ((image.drop offset).take size) last wantLevel hw
  if r.1 ≠ success then r
  else (r.1, flashNotify "Flashing" component (offset + size) image.length r.2)

abbrev blockCmd (module : ℕ) (image : List U8) (d : ℕ) : NvmCmd :=
  updateCmd module d ((image.drop d).take (blockSize image.length d))
    (isLast (blockSize image.length) image.length d)

theorem writeOneNvmBlock_sent (o : ℕ) (block : List U8) (last : Bool) :
    (fw.writeOneNvmBlock module o block last wantLevel hw).2.sent =
      (fw.aciUpdateNvm module o block last hw).2.sent := by
  unfold writeOneNvmBlock
  dsimp only
  split
  · rfl
  · split <;> rfl

theorem writeOneNvmBlock_status (o : ℕ) (block : List U8) (last : Bool) :
    (fw.writeOneNvmBlock module o block last wantLevel hw).1 =
      if (fw.aciUpdateNvm module o block last hw).1 = success then success else eIo := by
  unfold writeOneNvmBlock
  by_cases hok : (fw.aciUpdateNvm module o block last hw).1 = success
  · rw [if_neg (not_not.mpr hok), if_pos hok]
    split <;> rfl
  · rw [if_pos hok, if_neg hok]

theorem writeStep_sent (o size : ℕ) (last : Bool) :
    (writeStep fw module component image wantLevel o size last hw).2.sent =
      (fw.aciUpdateNvm module o ((image.drop o).take size) last hw).2.sent := by
  rw [← writeOneNvmBlock_sent fw module wantLevel]
  unfold writeStep
  dsimp only
  split <;> rfl

theorem writeStep_status (o size : ℕ) (last : Bool) :
    (writeStep fw module component image wantLevel o size last hw).1 =
      if (fw.aciUpdateNvm module o ((image.drop o).take size) last hw).1 = success then success
      else eIo := by
  rw [← writeOneNvmBlock_status fw module wantLevel]
  unfold writeStep
  dsimp only
  split <;> rfl

theorem writeStep_cases {d : ℕ} (hd : d < 2 ^ 32) :
    let r := writeStep fw module component image wantLevel d (blockSize image.length d)
      (isLast (blockSize image.length) image.length d) hw
    (r.1 = eIo ∧ r.2.sent = hw.sent) ∨
      d < 2 ^ 24 ∧ ∃ c : SentCmd, c.cmd = blockCmd module image d ∧ r.2.sent = hw.sent ++ [c] ∧
        r.1 = if c.status = success then success else eIo := by
  intro r
  have hsent := writeStep_sent fw module component image wantLevel hw d
    (blockSize image.length d)
    (isLast (blockSize image.length) image.length d)
  have hstatus := writeStep_status fw module component image wantLevel hw d
    (blockSize image.length d)
    (isLast (blockSize image.length) image.length d)
  unfold aciUpdateNvm at hsent hstatus
  by_cases hbyte : d / 2 ^ 24 % 2 ^ 8 ≠ 0
  · rw [if_pos hbyte] at hsent hstatus
    exact .inl ⟨hstatus, hsent⟩
  · rw [if_neg hbyte] at hsent hstatus
    exact .inr ⟨by omega, ⟨_, _, _⟩, rfl, hsent, hstatus⟩

theorem blockCmd_piece {d : ℕ} (hd : d < 2 ^ 24) :
    (blockCmd module image d).offset = d ∧
      (blockCmd module image d).length = blockSize image.length d ∧
      (blockCmd module image d).length ≤ aciMaxBufferSize := by
  have hlen : (blockCmd module image d).length = blockSize image.length d := by
    change ((image.drop d).take _).length = _
    rw [length_take, length_drop]
    unfold blockSize
    omega
  refine ⟨offset_bytes hd, hlen, ?_⟩
  rw [hlen]
  exact min_le_left _ _

variable {module image hw}

/-- Blocks of the image, and its first `d` bytes. -/
structure Blocks (module : ℕ) (image : List U8) (d : ℕ) (cmds : List SentCmd) : Prop where
  moved : Moved (·.cmd.offset) (·.cmd.length) (·.cmd.lastCmd) 0 image.length d cmds
  block : ∀ c ∈ cmds, c.cmd.opcode = .write ∧ c.cmd.moduleTypeid = module ∧
    c.cmd.length = c.cmd.data.length ∧ c.cmd.length ≤ aciMaxBufferSize
  data : cmds.flatMap (·.cmd.data) = image.take d

/-- Every block so far is accepted. -/
def WrittenSoFar (module : ℕ) (image : List U8) (hw : NvmHw) (d : ℕ) (s : NvmHw) : Prop :=
  ∃ cmds, s.sent = hw.sent ++ cmds ∧ Blocks module image d cmds ∧ ∀ c ∈ cmds, c.status = success

theorem Blocks.nil (hn : 1 ≤ image.length) : Blocks module image 0 [] :=
  ⟨.nil hn, forall_mem_nil _, rfl⟩

section

variable {d : ℕ} {cmds : List SentCmd} {c : SentCmd}

theorem Blocks.snoc (h : Blocks module image d cmds) (hd : d < image.length) (hd24 : d < 2 ^ 24)
    (hc : c.cmd = blockCmd module image d) :
    Blocks module image (d + blockSize image.length d) (cmds ++ [c]) := by
  obtain ⟨hoff, hlen, hle⟩ := blockCmd_piece module image hd24
  rw [← hc] at hoff hlen hle
  refine ⟨?_, forall_mem_append.mpr ⟨h.block, forall_mem_singleton.mpr ?_⟩, ?_⟩
  · have := h.moved.snoc (c := c) hd (by rw [hoff, zero_add]) (by rw [hlen, hc]; rfl)
    rwa [hlen] at this
  · exact ⟨by rw [hc]; rfl, by rw [hc]; rfl, by rw [hc]; rfl, hle⟩
  · rw [flatMap_append, h.data, flatMap_singleton, hc, take_add]
    rfl

theorem Blocks.whole (h : Blocks module image image.length cmds) : Whole cmds image :=
  ⟨h.data.trans take_length, h.moved.exactlyLast rfl⟩

theorem Blocks.not_whole (h : Blocks module image d cmds) (hd : d < image.length) :
    ¬ Whole cmds image := by
  rintro ⟨hEq, -⟩
  have hlen := congrArg length (h.data.symm.trans hEq)
  rw [length_take] at hlen
  omega

theorem filter_success_eq_self (hall : ∀ c ∈ cmds, c.status = success) :
    cmds.filter (·.status = success) = cmds :=
  filter_eq_self.mpr fun c hc => decide_eq_true (hall c hc)

theorem Blocks.splitWrite_whole (h : Blocks module image image.length cmds)
    (hall : ∀ c ∈ cmds, c.status = success) : SplitWrite module image cmds success where
  block := h.block
  inOrder := h.moved.consecutive
  onlyLast := (h.moved.exactlyLast rfl).1
  initial := by rw [h.whole.1]
  accepted := by
    rw [filter_success_eq_self hall]
    exact ⟨fun _ => rfl, fun _ => h.whole⟩
  issued := ⟨fun _ => .inl rfl, fun _ => h.whole⟩

theorem Blocks.splitWrite_cut (h : Blocks module image d cmds) (hd : d < image.length)
    (hall : ∀ c ∈ cmds, c.status = success) {status : ℤ} (hfail : status ≠ success) :
    SplitWrite module image cmds status where
  block := h.block
  inOrder := h.moved.consecutive
  onlyLast := onlyLast_of_unmarked (h.moved.unmarked hd)
  initial := h.data ▸ take_prefix d image
  accepted := by
    rw [filter_success_eq_self hall]
    exact ⟨fun hw => absurd hw (h.not_whole hd), fun hs => absurd hs hfail⟩
  issued := by
    refine ⟨fun hw => absurd hw (h.not_whole hd), ?_⟩
    rintro (hs | ⟨c, hlast, -, hrefused⟩)
    · exact absurd hs hfail
    · exact absurd (hall c (List.mem_of_getLast? hlast)) hrefused

theorem blockCmd_last (hd : d < image.length) (hlast : (blockCmd module image d).lastCmd = true) :
    d + blockSize image.length d = image.length := by
  have hle := (blockSize_fits image.length).le d hd
  have : ¬ d + blockSize image.length d < image.length := by
    simpa [blockCmd, updateCmd, isLast] using hlast
  omega

theorem Blocks.splitWrite_refused (h : Blocks module image d cmds) (hd : d < image.length)
    (hd24 : d < 2 ^ 24) (hall : ∀ c ∈ cmds, c.status = success)
    (hc : c.cmd = blockCmd module image d) (hrefused : c.status ≠ success) {status : ℤ}
    (hfail : status ≠ success) : SplitWrite module image (cmds ++ [c]) status := by
  have h' := h.snoc hd hd24 hc
  have hkept : (cmds ++ [c]).filter (·.status = success) = cmds := by
    rw [filter_append, filter_success_eq_self hall,
      filter_cons_of_neg (by simpa using hrefused), filter_nil, append_nil]
  constructor
  case block => exact h'.block
  case inOrder => exact h'.moved.consecutive
  case onlyLast => exact onlyLast_snoc (h.moved.unmarked hd)
  case initial => exact h'.data ▸ take_prefix _ image
  case accepted =>
    rw [hkept]
    exact ⟨fun hw => absurd hw (h.not_whole hd), fun hs => absurd hs hfail⟩
  case issued =>
    constructor
    · rintro ⟨-, -, b, hlast, hmark⟩
      rw [getLast?_concat, Option.some.injEq] at hlast
      exact .inr ⟨c, getLast?_concat, hlast ▸ hmark, hrefused⟩
    · rintro (hs | ⟨b, hlast, hmark, -⟩)
      · exact absurd hs hfail
      · rw [getLast?_concat, Option.some.injEq] at hlast
        subst hlast
        rw [hc] at hmark
        rw [blockCmd_last hd hmark] at h'
        exact h'.whole

end

theorem WrittenSoFar.step {d : ℕ} {s : NvmHw} (hsize : image.length < 2 ^ 32)
    (hd : d < image.length) (h : WrittenSoFar module image hw d s)
    (hok : (writeStep fw module component image wantLevel d
      (blockSize image.length d)
      (isLast (blockSize image.length) image.length d) s).1 = 0) :
    WrittenSoFar module image hw (d + blockSize image.length d)
      (writeStep fw module component image wantLevel d (blockSize image.length d)
        (isLast (blockSize image.length) image.length d) s).2 := by
  obtain ⟨cmds, hlog, hblocks, hall⟩ := h
  rcases writeStep_cases fw module component image wantLevel s (hd.trans hsize) with
    ⟨hfail, -⟩ | ⟨hd24, c, hc, hsent, hstatus⟩
  · rw [hfail] at hok
    exact absurd hok (show eIo ≠ 0 by decide)
  · refine ⟨cmds ++ [c], by rw [hsent, hlog, append_assoc], hblocks.snoc hd hd24 hc,
      forall_mem_append.mpr ⟨hall, forall_mem_singleton.mpr ?_⟩⟩
    by_contra hrefused
    rw [hstatus, if_neg hrefused] at hok
    exact absurd hok (show eIo ≠ 0 by decide)

theorem writeNvmModule_split (hasMemory : Bool) (hn : 1 ≤ image.length)
    (hsize : image.length < 2 ^ 32) :
    ∃ cmds,
      (fw.writeNvmModule module component image wantLevel hasMemory hw).2.sent = hw.sent ++ cmds ∧
      SplitWrite module image cmds
        (fw.writeNvmModule module component image wantLevel hasMemory hw).1 := by
  unfold writeNvmModule
  cases hasMemory with
  | false =>
    exact ⟨[], (append_nil _).symm,
      (Blocks.nil hn).splitWrite_cut hn (forall_mem_nil _) (show eNoMem ≠ success by decide)⟩
  | true =>
    have hstart : WrittenSoFar module image hw 0
        (flashNotify "Flashing" component 0 image.length hw) :=
      ⟨[], (append_nil _).symm, .nil hn, forall_mem_nil _⟩
    rw [if_neg (by decide)]
    rcases loop_cases (writeStep fw module component image wantLevel)
      (blockSize_fits image.length) (WrittenSoFar module image hw)
      (fun _ _ hd h hok => h.step fw component wantLevel hsize hd hok) hn
      (by omega : image.length - 0 ≤ image.length + 1) hstart with
      ⟨s, hrun, cmds, hlog, hblocks, hall⟩ | ⟨d, s, hd, ⟨cmds, hlog, hblocks, hall⟩, hfail, hrun⟩
    · rw [hrun]
      exact ⟨cmds, hlog, hblocks.splitWrite_whole hall⟩
    · rw [hrun]
      rcases writeStep_cases fw module component image wantLevel s (hd.trans hsize) with
        ⟨-, hsent⟩ | ⟨hd24, c, hc, hsent, hstatus⟩
      · -- the offset does not fit into a descriptor: no command more
        exact ⟨cmds, hsent.trans hlog, hblocks.splitWrite_cut hd hall hfail⟩
      · -- a block that firmware refuses
        have hrefused : c.status ≠ success := by
          intro hEq
          rw [hstatus, if_pos hEq] at hfail
          exact hfail rfl
        refine ⟨cmds ++ [c], ?_, hblocks.splitWrite_refused hd hd24 hall hc hrefused hfail⟩
        rw [← append_assoc, ← hlog]
        exact hsent

end Write

/-- **Transfers are split losslessly.** A read returns the bytes of the commands that completed; an
update returns 0 iff the blocks accepted are the whole image, the last one marked. -/
theorem nvm_split_lossless (fw : NvmFirmware) (hw : NvmHw) :
    (∀ offset n readShadowRam buf, 1 ≤ n → offset + n ≤ 2 ^ 32 →
      ∃ cmds, (fw.readFlatNvm offset n readShadowRam hw buf).2.2.1.sent = hw.sent ++ cmds ∧
        SplitRead fw offset n readShadowRam buf cmds
          (fw.readFlatNvm offset n readShadowRam hw buf)) ∧
    ∀ module component image wantLevel hasMemory, 1 ≤ image.length → image.length < 2 ^ 32 →
      ∃ cmds,
        (fw.writeNvmModule module component image wantLevel hasMemory hw).2.sent =
          hw.sent ++ cmds ∧
        SplitWrite module image cmds
          (fw.writeNvmModule module component image wantLevel hasMemory hw).1 :=
  ⟨fun offset n readShadowRam buf hn hrange =>
      readFlatNvm_split fw offset n readShadowRam hw buf hn hrange,
    fun _ component _ wantLevel hasMemory hn hsize =>
      writeNvmModule_split fw component wantLevel hasMemory hn hsize⟩

def constFirmware (status : ℤ) : NvmFirmware where
  flash := fun _ => 0
  shadowRam := fun _ => 0
  reply := fun _ _ => (status, aciRcOk)
  acquireRes := fun _ => success
  flaLocked := true
  srWords := 0
  resetAvoidance := false

theorem nvm_split_lossless_small :
    (∃ cmds, ((constFirmware success).readFlatNvm 4095 3 false freshNvmHw fun _ => 1).2.2.1.sent =
        freshNvmHw.sent ++ cmds ∧
      SplitRead (constFirmware success) 4095 3 false (fun _ => 1) cmds
        ((constFirmware success).readFlatNvm 4095 3 false freshNvmHw fun _ => 1)) ∧
    ∃ cmds, ((constFirmware success).writeNvmModule sr1stNvmBankPtr "fw.mgmt" [7] true true
        freshNvmHw).2.sent = freshNvmHw.sent ++ cmds ∧
      SplitWrite sr1stNvmBankPtr [7] cmds
        ((constFirmware success).writeNvmModule sr1stNvmBankPtr "fw.mgmt" [7] true true
          freshNvmHw).1 :=
  ⟨(nvm_split_lossless (constFirmware success) freshNvmHw).1 4095 3 false (fun _ => 1) (by decide)
      (by decide),
    (nvm_split_lossless (constFirmware success) freshNvmHw).2 sr1stNvmBankPtr "fw.mgmt" [7] true
      true (by decide) (by decide)⟩

/-- Firmware refuses the only block of an image of one byte. -/
theorem nvm_whole_image_refused :
    let r := (constFirmware errAciError).writeNvmModule sr1stNvmBankPtr "fw.mgmt" [7] true true
      freshNvmHw
    r.1 = eIo ∧ Whole r.2.sent [7] := by
  refine ⟨by decide, by decide, fun c hc => ?_, _, rfl, rfl⟩
  exact absurd hc not_mem_nil

end Ixgbe
