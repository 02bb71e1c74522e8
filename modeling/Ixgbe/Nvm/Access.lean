import Ixgbe.Queues.Config
import Ixgbe.Library.Chunked

/-! # The NVM of the E610

Admin commands with a byte offset of 24 bits and at most 4096 bytes each, so longer transfers are
split. -/

namespace Ixgbe

def errInvalSize : ℤ := -54

def errDoesNotExist : ℤ := -55

def errAciError : ℤ := -100

def eIo : ℤ := -5

def aciRcOk : ℕ := 0

def aciRcEinval : ℕ := 14

def aciMaxBufferSize : ℕ := 4096

def aciNvmMaxOffset : ℕ := 0xFFFFFF

def aciNvmStartPoint : ℕ := 0

def sr1stNvmBankPtr : ℕ := 0x42

inductive NvmOpcode where
  | read
  | write
deriving DecidableEq, Repr

/-- `struct ixgbe_aci_cmd_nvm`, with the buffer of an update. -/
structure NvmCmd where
  opcode : NvmOpcode
  lastCmd : Bool
  flashOnly : Bool
  moduleTypeid : ℕ
  offsetLow : ℕ
  offsetHigh : ℕ
  length : ℕ
  data : List U8
deriving DecidableEq, Repr

def NvmCmd.offset (c : NvmCmd) : ℕ := c.offsetHigh * 2 ^ 16 + c.offsetLow

/-- With the status of firmware in `aci.last_status`. -/
structure SentCmd where
  cmd : NvmCmd
  status : ℤ
  lastStatus : ℕ
deriving DecidableEq, Repr

/-- The requests are numbered, and each may fail. -/
structure NvmFirmware where
  flash : ℕ → U8
  shadowRam : ℕ → U8
  /-- status and firmware status of the `k`-th command -/
  reply : ℕ → NvmCmd → ℤ × ℕ
  /-- status of the `k`-th `ixgbe_acquire_res` -/
  acquireRes : ℕ → ℤ
  /-- `GLNVM_FLA.LOCKED`; it is clear in blank NVM programming mode -/
  flaLocked : Bool
  /-- the size of the shadow RAM in words, from `GLNVM_GENS` -/
  srWords : ℕ
  resetAvoidance : Bool

/-- `struct ixgbe_hw` with the history of its requests. -/
structure NvmHw where
  sent : List SentCmd
  acquires : ℕ
  /-- the NVM resource is held -/
  held : Bool
  lastStatus : ℕ
  flashSize : ℕ
  /-- `eeprom.word_size`, once the parameters are there -/
  wordSize : Option ℕ
  /-- what the caller of an update gets as its reset level -/
  resetLevel : Option ℕ
  /-- the calls of `devlink_flash_update_status_notify` -/
  notices : List (String × String × ℕ × ℕ)
  /-- the calls of `ixgbe_read_ee_aci_E610` and what they returned -/
  words : List (ℕ × Except ℤ ℕ)

abbrev NvmBuf := ℕ → U8

/-- `memcpy` of `len` bytes into the buffer from `start` on. -/
def NvmBuf.fill (buf : NvmBuf) (start len : ℕ) (src : ℕ → U8) : NvmBuf :=
  fun i => if start ≤ i ∧ i < start + len then src (i - start) else buf i

namespace NvmFirmware

variable (fw : NvmFirmware)

section

variable (moduleTypeid offset : ℕ) (hw : NvmHw)

def content (readShadowRam : Bool) : ℕ → U8 := if readShadowRam then fw.shadowRam else fw.flash

def bytes (c : NvmCmd) : ℕ → U8 := fun i => fw.content (!c.flashOnly) (c.offset + i)

/-- The NVM commands are not sent again if they fail. -/
def aciSendCmd (c : NvmCmd) (hw : NvmHw) : ℤ × NvmHw :=
  let r := fw.reply hw.sent.length c
  (r.1, { hw with sent := hw.sent ++ [⟨c, r.1, r.2⟩], lastStatus := r.2 })

def acquireNvm : ℤ × NvmHw :=
  if fw.flaLocked then
    let status := fw.acquireRes hw.acquires
    (status, { hw with acquires := hw.acquires + 1, held := hw.held || status == success })
  else (success, hw)

def releaseNvm : NvmHw :=
  if fw.flaLocked then { hw with held := false } else hw

def readCmd (length : ℕ) (lastCommand readShadowRam : Bool) : NvmCmd where
  opcode := .read
  lastCmd := lastCommand
  flashOnly := !readShadowRam && moduleTypeid == aciNvmStartPoint
  moduleTypeid := moduleTypeid
  offsetLow := offset % 2 ^ 16
  offsetHigh := offset / 2 ^ 16 % 2 ^ 8
  length := length
  data := []

/-- The buffer is written if the command succeeds only. -/
def aciReadNvm (length start : ℕ) (lastCommand readShadowRam : Bool) (s : NvmHw × NvmBuf) :
    ℤ × NvmHw × NvmBuf :=
  if offset > aciNvmMaxOffset then (errParam, s)
  else
    let c := readCmd moduleTypeid offset length lastCommand readShadowRam
    let r := fw.aciSendCmd c s.1
    (r.1, r.2, if r.1 = success then s.2.fill start length (fw.bytes c) else s.2)

def readSize (inlen bytesRead : ℕ) : ℕ :=
  min (aciMaxBufferSize - (offset + bytesRead) % 2 ^ 32 % aciMaxBufferSize) (inlen - bytesRead)

/-- The status, the length read, and what it leaves behind. -/
def readFlatNvm (inlen : ℕ) (readShadowRam : Bool) (hw : NvmHw) (data : NvmBuf) :
    ℤ × ℕ × NvmHw × NvmBuf :=
  if readShadowRam ∧ (offset + inlen) % 2 ^ 32 > hw.wordSize.getD 0 * 2 then
    (errParam, 0, hw, data)
  else
    Chunked.loop (readSize offset inlen) inlen
      (fun bytesRead size last s =>
        fw.aciReadNvm aciNvmStartPoint ((offset + bytesRead) % 2 ^ 32)
          (size % 2 ^ 16) bytesRead last
          readShadowRam s)
      (inlen + 1) 0 (hw, data)

def readSrWord : Except ℤ ℕ × NvmHw :=
  let r := fw.readFlatNvm (offset * 2) 2 true hw fun _ => 0
  if r.1 ≠ success then (.error r.1, r.2.2.1)
  else (.ok ((r.2.2.2 0).toNat + (r.2.2.2 1).toNat * 2 ^ 8), r.2.2.1)

def initEepromParams : NvmHw :=
  match hw.wordSize with
  | some _ => hw
  | none => { hw with wordSize := some fw.srWords }

def readEeWord : Except ℤ ℕ × NvmHw :=
  let a := fw.acquireNvm (fw.initEepromParams hw)
  if a.1 ≠ success then (.error a.1, a.2)
  else
    let r := fw.readSrWord offset a.2
    (r.1, fw.releaseNvm r.2)

def readEeAci : Except ℤ ℕ × NvmHw :=
  let r := fw.readEeWord offset hw
  (r.1, { r.2 with words := r.2.words ++ [(offset, r.1)] })

def updateCmd (data : List U8) (lastCommand : Bool) : NvmCmd where
  opcode := .write
  lastCmd := lastCommand
  flashOnly := false
  moduleTypeid := moduleTypeid
  offsetLow := offset % 2 ^ 16
  offsetHigh := offset / 2 ^ 16 % 2 ^ 8
  length := data.length
  data := data

/-- The test of the source is of the highest byte of the offset. -/
def aciUpdateNvm (data : List U8) (lastCommand : Bool) (hw : NvmHw) : ℤ × NvmHw :=
  if offset / 2 ^ 24 % 2 ^ 8 ≠ 0 then (errParam, hw)
  else fw.aciSendCmd (updateCmd moduleTypeid offset data lastCommand) hw

end

/-- `wantLevel` says whether the caller has room for a reset level. -/
def writeOneNvmBlock (module offset : ℕ) (block : List U8) (lastCmd wantLevel : Bool) (hw : NvmHw) :
    ℤ × NvmHw :=
  let r := fw.aciUpdateNvm module offset block lastCmd hw
  if r.1 ≠ success then (eIo, r.2)
  else if wantLevel && lastCmd && module == sr1stNvmBankPtr then
    (success, { r.2 with resetLevel := some (if fw.resetAvoidance then 3 else 0) })
  else (success, r.2)

def flashNotify (message component : String) (done total : ℕ) (hw : NvmHw) : NvmHw :=
  { hw with notices := hw.notices ++ [(message, component, done, total)] }

def blockSize (length offset : ℕ) : ℕ := min aciMaxBufferSize (length - offset)

/-- `hasMemory` says whether the block can be allocated. -/
def writeNvmModule (module : ℕ) (component : String) (image : List U8) (wantLevel hasMemory : Bool)
    (hw : NvmHw) : ℤ × NvmHw :=
  let hw := flashNotify "Flashing" component 0 image.length hw
  if !hasMemory then (eNoMem, hw)
  else
    let r := Chunked.loop (blockSize image.length) image.length
      (fun offset size last hw =>
        let r := fw.writeOneNvmBlock module offset ((image.drop offset).take size) last wantLevel hw
        if r.1 ≠ success then r
        else (r.1, flashNotify "Flashing" component (offset + size) image.length r.2))
      (image.length + 1) 0 hw
    let message := if r.1 ≠ success then "Flashing failed" else "Flashing done"
    (r.1, flashNotify message component image.length image.length r.2.2)

end NvmFirmware

def freshNvmHw : NvmHw where
  sent := []
  acquires := 0
  held := false
  lastStatus := aciRcOk
  flashSize := 0
  wordSize := none
  resetLevel := none
  notices := []
  words := []

end Ixgbe
