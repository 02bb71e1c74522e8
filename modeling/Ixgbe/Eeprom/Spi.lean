import Ixgbe.Hw.SwfwSync
import Ixgbe.Queues.Config
import Ixgbe.Library.PageWrap
import Ixgbe.Library.WrapLoop

/-! # Bit-banged access to an SPI EEPROM

The serial EEPROM driven by hand (`ixgbe_common.c`). Whether it can be acquired and gets ready is
chosen. -/

namespace Ixgbe

open PageWrap BitVec

def eepromOpcodeBits : ℕ := 8

def eepromReadOpcodeSpi : U8 := 0x03

def eepromWriteOpcodeSpi : U8 := 0x02

/-- The bit of the opcode that is bit 8 of the address. -/
def eepromA8OpcodeSpi : U8 := 0x08

def eepromWrenOpcodeSpi : U8 := 0x06

def eepromRdsrOpcodeSpi : U8 := 0x05

def eepromPageSizeMax : ℕ := 128

def eepromRdBufferMaxCount : ℕ := 256

def eepromGrantAttempts : ℕ := 1000

def eepromReadyAttempts : ℕ := 1000

inductive AddressBits
  | bits8
  | bits16
deriving DecidableEq, Repr

def AddressBits.count : AddressBits → ℕ
  | bits8 => 8
  | bits16 => 16

def swapBytes (w : U16) : U16 := (w >>> 8) ||| (w <<< 8)

@[simp] theorem swapBytes_swapBytes (w : U16) : swapBytes (swapBytes w) = w := by
  apply eq_of_getLsbD_eq
  intro i hi
  simp only [swapBytes, getLsbD_or, getLsbD_ushiftRight, getLsbD_shiftLeft]
  have hhigh : w.getLsbD (8 + (8 + i)) = false := getLsbD_of_ge _ _ (by omega)
  by_cases h : i < 8
  · simp [h, hhigh, show 8 + i < 16 by omega]
  · have hback : 8 + (i - 8) = i := by omega
    simp [h, hi, hhigh, hback, show i - 8 < 8 by omega]

inductive EepromAccess
  | read (a : ℕ)
  | write (a : ℕ) (w : U16)
deriving DecidableEq, Repr

def EepromAccess.addr : EepromAccess → ℕ
  | read a => a
  | write a _ => a

/-- What the device does with the next bits. -/
inductive SpiPhase
  | opcode
  /-- With the address bit of the opcode. -/
  | address (write a8 : Bool)
  | reading (a : ℕ)
  | writing (s k : ℕ)
  | done
deriving DecidableEq, Repr

/-- The contents, in pages of `pageSize` words, and the log of the accesses. -/
structure PagedEeprom where
  pageSize : ℕ
  mem : ℕ → U16
  log : List EepromAccess

/-- The contents, the write-enable latch and the state of the command. -/
structure SpiDevice extends PagedEeprom where
  latch : Bool
  phase : SpiPhase

namespace SpiDevice

section

variable (d : SpiDevice)

/-- A write command resets the latch. -/
def standby : SpiDevice :=
  match d.phase with
  | .writing _ _ => { d with phase := .opcode, latch := false }
  | _ => { d with phase := .opcode }

def command (op : ℕ) : SpiDevice :=
  if op = 0x06 then { d with latch := true, phase := .done }
  else if op &&& 0xF7 = 0x03 then { d with phase := .address false (op.testBit 3) }
  else if op &&& 0xF7 = 0x02 then { d with phase := .address true (op.testBit 3) }
  else { d with phase := .done }

def storeWord (s k : ℕ) (v : U16) : SpiDevice :=
  if d.latch then
    { d with
      mem := Function.update d.mem (slot d.pageSize s k) (swapBytes v)
      phase := .writing s (k + 1)
      log := d.log ++ [.write (s + k) (swapBytes v)] }
  else d

/-- The low `count` bits of `v`, most significant bit first. -/
def shiftOut (v : U16) (count : ℕ) : SpiDevice :=
  match d.phase with
  | .opcode => d.command (v.toNat % 2 ^ count)
  | .address write a8 =>
    -- the bit of the opcode is the address bit above those shifted out; words have two bytes
    let a := ((if a8 then 2 ^ count else 0) + v.toNat % 2 ^ count) / 2
    { d with phase := if write then .writing a 0 else .reading a }
  | .writing s k => d.storeWord s k v
  | .reading _ => d
  | .done => d

def shiftIn : U16 × SpiDevice :=
  match d.phase with
  | .reading a =>
    (swapBytes (d.mem a), { d with phase := .reading (a + 1), log := d.log ++ [.read a] })
  | _ => (0, d)

end

end SpiDevice

/-- The software semaphore, the polls of the grant bit and of the busy bit. -/
structure SpiReply where
  sync : Bool
  grant : ℕ → Bool
  busy : ℕ → Bool

/-- The EEPROM part of `struct ixgbe_hw`, with the number of holds. -/
structure SpiHw where
  wordSize : U32
  addressBits : AddressBits
  wordPageSize : U16
  dev : SpiDevice
  holds : ℕ

section

variable (env : ℕ → SpiReply)

def acquireEeprom (r : SpiReply) : ℤ :=
  if !r.sync then errSwfwSync
  else if pollUntil r.grant eepromGrantAttempts 0 then success
  else errEeprom

def readyEepromLoop (busy : ℕ → Bool) : ℕ → ℕ → SpiDevice → ℤ × SpiDevice
  | 0, _, d => (errEeprom, d)
  | n + 1, k, d =>
    let d := d.shiftOut (eepromRdsrOpcodeSpi.setWidth 16) eepromOpcodeBits
    if !busy k then (success, d) else readyEepromLoop busy n (k + 1) d.standby

def readyEeprom (r : SpiReply) (d : SpiDevice) : ℤ × SpiDevice :=
  readyEepromLoop r.busy eepromReadyAttempts 0 d

/-- With the release if the EEPROM does not get ready. -/
def prepareEeprom (hw : SpiHw) : ℤ × SpiHw :=
  let r := env hw.holds
  let hw := { hw with holds := hw.holds + 1 }
  let status := acquireEeprom r
  if status ≠ success then (status, hw)
  else
    let ready := readyEeprom r hw.dev.standby
    if ready.1 ≠ success then (errEeprom, { hw with dev := ready.2.standby })
    else (success, { hw with dev := ready.2 })

def withA8 (bits : AddressBits) (a : ℕ) (op : U8) : U8 :=
  if bits = .bits8 ∧ 128 ≤ a then op ||| eepromA8OpcodeSpi else op

def sendAddress (bits : AddressBits) (a : ℕ) (op : U8) (d : SpiDevice) : SpiDevice :=
  (d.shiftOut (op.setWidth 16) eepromOpcodeBits).shiftOut (BitVec.ofNat 16 (a * 2)) bits.count

def endsBurst (pageSize : U16) (a : ℕ) : Bool :=
  pageSize == 0 || a &&& (pageSize.toNat - 1) == pageSize.toNat - 1

/-- The words left after a burst and the address of the first of them. -/
def sendBurst (pageSize : U16) : ℕ → List U16 → SpiDevice → ℕ × List U16 × SpiDevice
  | a, [], d => (a, [], d)
  | a, w :: ws, d =>
    let d := d.shiftOut (swapBytes w) 16
    if endsBurst pageSize a then (a + 1, ws, d) else sendBurst pageSize (a + 1) ws d

/-- Each burst has a word at least, so the fuel lasts. -/
def writeBursts (bits : AddressBits) (pageSize : U16) :
    ℕ → ℕ → List U16 → U8 → SpiDevice → SpiDevice
  | 0, _, _, _, d => d
  | _ + 1, _, [], _, d => d
  | n + 1, a, w :: ws, op, d =>
    let d := d.standby.shiftOut (eepromWrenOpcodeSpi.setWidth 16) eepromOpcodeBits
    let op := withA8 bits a op
    let d := sendAddress bits a op d.standby
    let r := sendBurst pageSize a (w :: ws) d
    writeBursts bits pageSize n r.1 r.2.1 op r.2.2.standby

/-- At most 256 words: the 16-bit counter does not wrap. -/
def writeEepromBufferBitBang (offset : ℕ) (data : List U16) (hw : SpiHw) : ℤ × SpiHw :=
  let r := prepareEeprom env hw
  if r.1 ≠ success then r
  else
    let hw := r.2
    let dev := writeBursts hw.addressBits hw.wordPageSize data.length offset data
      eepromWriteOpcodeSpi hw.dev
    (success, { hw with dev := dev.standby })

def readWords (bits : AddressBits) : ℕ → ℕ → U8 → SpiDevice → List U16 × SpiDevice
  | 0, _, _, d => ([], d)
  | n + 1, a, op, d =>
    let op := withA8 bits a op
    let r := (sendAddress bits a op d.standby).shiftIn
    let rest := readWords bits n (a + 1) op r.2
    (swapBytes r.1 :: rest.1, rest.2)

def readEepromBufferBitBang (offset words : ℕ) (hw : SpiHw) : ℤ × List U16 × SpiHw :=
  let r := prepareEeprom env hw
  if r.1 ≠ success then (r.1, [], r.2)
  else
    let hw := r.2
    let got := readWords hw.addressBits words offset eepromReadOpcodeSpi hw.dev
    (success, got.1, { hw with dev := got.2.standby })

def marchingData : List U16 := (List.range eepromPageSizeMax).map (BitVec.ofNat 16)

def detectEepromPageSizeGeneric (offset : ℕ) (hw : SpiHw) : ℤ × SpiHw :=
  let hw := { hw with wordPageSize := BitVec.ofNat 16 eepromPageSizeMax }
  let w := writeEepromBufferBitBang env offset marchingData hw
  let hw := { w.2 with wordPageSize := 0 }
  if w.1 ≠ success then (w.1, hw)
  else
    let r := readEepromBufferBitBang env offset 1 hw
    if r.1 ≠ success then (r.1, r.2.2)
    else
      (success, { r.2.2 with
        wordPageSize := BitVec.ofNat 16 eepromPageSizeMax - r.2.1.headD 0 })

end

def pieceCount (words i : ℕ) : ℕ :=
  if (words - i) / eepromRdBufferMaxCount > 0 then eepromRdBufferMaxCount else words - i

def pieceLoop {σ : Type*} (piece : ℕ → ℕ → σ → ℤ × σ) (words fuel : ℕ) (s : σ) : Option (ℤ × σ) :=
  WrapLoop.loop (2 ^ 16) eepromRdBufferMaxCount words
    (fun i s => piece i (pieceCount words i) s) fuel 0 s

def bufferSlice (data : ℕ → U16) (i count : ℕ) : List U16 :=
  (List.range count).map fun k => data (i + k)

def writeEepromBufferBitBangGeneric (fuel : ℕ) (env : ℕ → SpiReply) (offset words : U16)
    (data : ℕ → U16) (hw : SpiHw) : Option (ℤ × SpiHw) :=
  if words = 0 then some (errInvalidArgument, hw)
  else if words.setWidth 32 > hw.wordSize - offset.setWidth 32 then some (errEeprom, hw)
  else
    let hw := if hw.wordPageSize = 0 ∧ words.toNat > eepromPageSizeMax then
        (detectEepromPageSizeGeneric env offset.toNat hw).2
      else hw
    pieceLoop (fun i count hw => writeEepromBufferBitBang env ((offset.toNat + i) % 2 ^ 16)
      (bufferSlice data i count) hw) words.toNat fuel hw

def readEepromBufferBitBangGeneric (fuel : ℕ) (env : ℕ → SpiReply) (offset words : U16)
    (data : ℕ → U16) (hw : SpiHw) : Option (ℤ × (ℕ → U16) × SpiHw) :=
  if words = 0 then some (errInvalidArgument, data, hw)
  else if words.setWidth 32 > hw.wordSize - offset.setWidth 32 then some (errEeprom, data, hw)
  else
    pieceLoop (fun i count s =>
      let r := readEepromBufferBitBang env ((offset.toNat + i) % 2 ^ 16) count s.2
      (r.1, fill i r.2.1 s.1, r.2.2)) words.toNat fuel (data, hw)

end Ixgbe
