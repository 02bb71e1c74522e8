import Ixgbe.Hw.Basic
import Ixgbe.Library.Interleave

/-! # The semaphore of software and firmware

`SW_FW_SYNC` of the X540 is guarded by two bits that a read sets, `SMBI` and `REGSMP`. The record
knows the holder of `SMBI`. -/

namespace Ixgbe

open Interleave

def smbi (v : U32) : Bool := v.getLsbD 0

def regsmp (v : U32) : Bool := v.getLsbD 31

/-- `IXGBE_GSSR_NVM_PHY_MASK`, `IXGBE_GSSR_SW_MNG_SM` and `IXGBE_GSSR_I2C_MASK`. -/
def swBits : U32 := 0x1C0F

/-- The two registers, and the agent that holds `SMBI`. -/
structure SwfwHw (ι : Type) where
  swsm : U32
  sync : U32
  holder : Option ι

/-- Where in the source an access is made, as far as the schedule is asked about it. -/
inductive SwfwSite
  | other
  /-- The read of `ixgbe_acquire_swfw_sync_X540` after its last attempt. -/
  | finalRead (swmask : U32)
  /-- The last attempt at `SMBI` of `ixgbe_release_swfw_sync_X540`. -/
  | lastSmbi
  /-- The last attempt at `REGSMP` of it. -/
  | lastRegsmp

inductive SwfwOp
  | readSwsm (site : SwfwSite)
  | writeSwsm (v : U32)
  | readSync (site : SwfwSite)
  | writeSync (v : U32)

/-- A read of `SWSM` that finds `SMBI` clear sets it for its agent. -/
def swfwExec {ι : Type} (i : ι) : SwfwOp → SwfwHw ι → U32 × SwfwHw ι
  | .readSwsm _, hw =>
    (hw.swsm,
      { hw with
        swsm := hw.swsm ||| 1
        holder := if smbi hw.swsm then hw.holder else some i })
  | .writeSwsm v, hw =>
    (0, { hw with swsm := v, holder := if smbi v then hw.holder else none })
  | .readSync _, hw => (hw.sync, hw)
  | .writeSync v, hw => (0, { hw with sync := v })

/-- Firmware and hardware may change any bit that is neither `SMBI` nor a software bit. -/
structure SwfwEnv where
  swsm : U32
  sync : U32

def swfwEnv {ι : Type} (e : SwfwEnv) (hw : SwfwHw ι) : SwfwHw ι :=
  { hw with
    swsm := (hw.swsm &&& 1) ||| (e.swsm &&& ~~~1)
    sync := (hw.sync &&& swBits) ||| (e.sync &&& ~~~swBits) }

/-- With the value of `SW_FW_SYNC` that the grant was based on. -/
inductive SwfwRet
  | acquired (swmask basis : U32)
  | failed (status : ℤ)
  | released

abbrev SwfwProg (α : Type) := Prog SwfwOp U32 α

def readSwsm (site : SwfwSite) : SwfwProg U32 := .access (.readSwsm site)

def writeSwsm (v : U32) : SwfwProg U32 := .access (.writeSwsm v)

def readSync (site : SwfwSite) : SwfwProg U32 := .access (.readSync site)

def writeSync (v : U32) : SwfwProg U32 := .access (.writeSync v)

def errEeprom : ℤ := -1

def errSwfwSync : ℤ := -16

def releaseSwfwSyncSemaphore : SwfwProg PUnit := do
  let v ← readSync .other
  let _ ← writeSync (v &&& ~~~shl1 31)
  let v ← readSwsm .other
  let _ ← writeSwsm (v &&& ~~~shl1 0)
  pure ⟨⟩

def smbiPoll (last : SwfwSite) : ℕ → SwfwProg Bool
  | 0 => pure false
  | n + 1 => do
    let v ← readSwsm (if n = 0 then last else .other)
    if smbi v then smbiPoll last n else pure true

def regsmpPoll (last : SwfwSite) : ℕ → SwfwProg Bool
  | 0 => pure false
  | n + 1 => do
    let v ← readSync (if n = 0 then last else .other)
    if regsmp v then regsmpPoll last n else pure true

def getSwfwSyncSemaphore (smbiSite regsmpSite : SwfwSite) : SwfwProg ℤ := do
  let got ← smbiPoll smbiSite 2000
  if got then do
    let got ← regsmpPoll regsmpSite 2000
    if got then pure success
    else do
      releaseSwfwSyncSemaphore
      pure errEeprom
  else pure errEeprom

def releaseSwfwSyncX540 (smbiSite regsmpSite : SwfwSite) (mask : U32) : SwfwProg PUnit := do
  let swmask := mask &&& (0xF ||| 0x400)
  let swmask := if mask &&& 0x1800 ≠ 0 then swmask ||| (mask &&& 0x1800) else swmask
  let _ ← getSwfwSyncSemaphore smbiSite regsmpSite
  let v ← readSync .other
  let _ ← writeSync (v &&& ~~~swmask)
  releaseSwfwSyncSemaphore

structure SwfwMasks where
  sw : U32
  fw : U32
  hw : U32
  i2c : U32

def swfwMasks (mask : U32) : SwfwMasks :=
  let swmask := mask &&& 0xF
  let i2c := mask &&& 0x1800
  { sw := (if mask &&& 0x400 ≠ 0 then swmask ||| 0x400 else swmask) ||| i2c
    fw := swmask <<< 5 ||| i2c <<< 2
    hw := if swmask &&& 0x1 ≠ 0 then 0x10 else 0
    i2c := i2c }

/-- Bits of firmware and hardware are ignored; failing that, all software bits are cleared. -/
def acquireForced (m : SwfwMasks) : SwfwProg SwfwRet := do
  let status ← getSwfwSyncSemaphore .other .other
  if status ≠ success then pure (.failed errSwfwSync)
  else do
    let v ← readSync (.finalRead m.sw)
    if v &&& (m.fw ||| m.hw) ≠ 0 then do
      let _ ← writeSync (v ||| m.sw)
      releaseSwfwSyncSemaphore
      pure (.acquired m.sw v)
    else if v &&& m.sw ≠ 0 then do
      let rmask : U32 := 0x1 ||| 0x2 ||| 0x4 ||| 0x8 ||| 0x400
      releaseSwfwSyncX540 .other .other (if m.i2c ≠ 0 then rmask ||| 0x1800 else rmask)
      releaseSwfwSyncSemaphore
      pure (.failed errSwfwSync)
    else do
      releaseSwfwSyncSemaphore
      pure (.failed errSwfwSync)

def acquireLoop (m : SwfwMasks) : ℕ → SwfwProg SwfwRet
  | 0 => acquireForced m
  | n + 1 => do
    let status ← getSwfwSyncSemaphore .other .other
    if status ≠ success then pure (.failed errSwfwSync)
    else do
      let v ← readSync .other
      if v &&& (m.fw ||| m.sw ||| m.hw) = 0 then do
        let _ ← writeSync (v ||| m.sw)
        releaseSwfwSyncSemaphore
        pure (.acquired m.sw v)
      else do
        releaseSwfwSyncSemaphore
        acquireLoop m n

def acquireSwfwSyncX540 (mac : MacType) (mask : U32) : SwfwProg SwfwRet :=
  acquireLoop (swfwMasks mask) (if MacType.macX550.rank ≤ mac.rank then 1000 else 200)

end Ixgbe
