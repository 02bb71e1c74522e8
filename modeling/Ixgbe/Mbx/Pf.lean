import Ixgbe.Library.Interleave
import Ixgbe.Sriov.Mailbox

/-! # The mailbox of a VF, written by the PF

`ixgbe_write_mbx_pf` (`ixgbe_mbx.c`) as a program of register accesses, guarded by `PFU` and `VFU`.
An access names its place in the source. -/

namespace Ixgbe

open Interleave Function

def mbxPfu (v : U32) : Bool := v.getLsbD 3

/-- Where a thread is with respect to the lock. -/
inductive MbxPhase
  /-- Not between an obtain and its release. -/
  | out
  /-- `ixgbe_obtain_mbx_lock_pf` gave up, the release is still to come. -/
  | failed
  /-- `ixgbe_obtain_mbx_lock_pf` succeeded; so many words are still to be written. -/
  | owner (left : ℕ)
  deriving DecidableEq, Repr

structure MbxHw (ι : Type) where
  pfu : Bool
  vfu : Bool
  /-- Of `PFMAILBOX`. -/
  rest : U32
  /-- The word of `PFMBICR` with the bits of the VF. -/
  icr : U32
  mem : ℕ → U32
  phase : ι → MbxPhase

def MbxHw.mailbox {ι : Type} (hw : MbxHw ι) : U32 :=
  (hw.rest &&& ~~~0xC) ||| (if hw.vfu then 0x4 else 0) ||| (if hw.pfu then 0x8 else 0)

inductive MbxRead
  | plain
  /-- The read an attempt starts with. -/
  | attempt (last : Bool)
  /-- The read that verifies the lock, for a message of so many words. -/
  | verify (size : ℕ) (last : Bool)

inductive MbxOp
  | readMailbox (place : MbxRead)
  /-- That of `ixgbe_release_mbx_lock_pf` is marked. -/
  | writeMailbox (release : Bool) (v : U32)
  | readIcr
  | writeIcr (v : U32)
  | writeMem (k : ℕ) (v : U32)

section Exec

variable {ι : Type} [DecidableEq ι]

def MbxHw.move (hw : MbxHw ι) (i : ι) (p : MbxPhase) : MbxHw ι :=
  { hw with phase := update hw.phase i p }

def MbxRead.after (pfu : Bool) (p : MbxPhase) : MbxRead → MbxPhase
  | .plain => p
  | .attempt last => if pfu && last then .failed else p
  | .verify size last => if pfu then .owner size else if last then .failed else p

def MbxPhase.afterWord : MbxPhase → MbxPhase
  | .owner n => .owner (n - 1)
  | p => p

/-- A set `PFU` is taken over while `VFU` is clear; writing bits of `PFMBICR` clears them. -/
def mbxExec (i : ι) : MbxOp → MbxHw ι → U32 × MbxHw ι
  | .readMailbox place, hw => (hw.mailbox, hw.move i (place.after hw.pfu (hw.phase i)))
  | .writeMailbox release v, hw =>
    (0, { hw with
      pfu := mbxPfu v && (hw.pfu || !hw.vfu)
      rest := v
      phase := if release then update hw.phase i .out else hw.phase })
  | .readIcr, hw => (hw.icr, hw)
  | .writeIcr v, hw => (0, { hw with icr := hw.icr &&& ~~~v })
  | .writeMem k v, hw =>
    (0, { hw with
      mem := update hw.mem k v
      phase := update hw.phase i (hw.phase i).afterWord })

end Exec

/-- `VFU` is set only while `PFU` is clear, all other bits change freely. -/
structure MbxEnv where
  vfu : Bool
  rest : U32
  icr : U32

def mbxEnv {ι : Type} (e : MbxEnv) (hw : MbxHw ι) : MbxHw ι :=
  { hw with
    vfu := e.vfu && (hw.vfu || !hw.pfu)
    rest := e.rest
    icr := e.icr }

abbrev MbxProg (α : Type) := Prog MbxOp U32 α

def readMailbox (place : MbxRead) : MbxProg U32 := .access (.readMailbox place)

def writeMailbox (release : Bool) (v : U32) : MbxProg U32 := .access (.writeMailbox release v)

def readIcr : MbxProg U32 := .access .readIcr

def writeIcr (v : U32) : MbxProg U32 := .access (.writeIcr v)

def writeMem (k : ℕ) (v : U32) : MbxProg U32 := .access (.writeMem k v)

def errTimeout : ℤ := -43

def mbxTimeout : ℕ := 2000

def obtainLoop (size : ℕ) : ℕ → MbxProg ℤ
  | 0 => pure errTimeout
  | n + 1 => do
    let v ← readMailbox (.attempt (n = 0))
    if mbxPfu v then obtainLoop size n
    else do
      let _ ← writeMailbox false (v ||| 0x8)
      let v ← readMailbox (.verify size (n = 0))
      if mbxPfu v then pure success else obtainLoop size n

def obtainMbxLockPf (size : ℕ) : MbxProg ℤ := obtainLoop size mbxTimeout

def releaseMbxLockPf : MbxProg PUnit := do
  let v ← readMailbox .plain
  let _ ← writeMailbox true (v &&& ~~~0x8)
  pure ⟨⟩

def clearMsgPf (vfId : ℕ) : MbxProg PUnit := do
  let _ ← readIcr
  let _ ← writeIcr (0x1 <<< (vfId % 16))
  pure ⟨⟩

def clearAckPf (vfId : ℕ) : MbxProg PUnit := do
  let _ ← readIcr
  let _ ← writeIcr (0x10000 <<< (vfId % 16))
  pure ⟨⟩

def checkForAckPf (vfId : ℕ) : MbxProg ℤ := do
  let v ← readIcr
  if v &&& (0x10000 <<< (vfId % 16)) ≠ 0 then do
    clearAckPf vfId
    pure success
  else pure errMbx

def pollForAck (vfId : ℕ) : ℕ → MbxProg PUnit
  | 0 => pure ⟨⟩
  | n + 1 => do
    let err ← checkForAckPf vfId
    if err = success then pure ⟨⟩ else pollForAck vfId n

def copyMsg (msg : MsgBuf) (k : ℕ) : ℕ → MbxProg PUnit
  | 0 => pure ⟨⟩
  | n + 1 => do
    let _ ← writeMem k (msg k)
    copyMsg msg (k + 1) n

/-- `ixgbe_write_mbx_pf`, with the lock held. -/
def sendMbxPf (vfId : ℕ) (msg : MsgBuf) (size : ℕ) : MbxProg PUnit := do
  clearMsgPf vfId
  clearAckPf vfId
  copyMsg msg 0 size
  let v ← readMailbox .plain
  let _ ← writeMailbox false (v ||| 0x1)
  if msg 0 &&& msgtypeCts ≠ 0 then pollForAck vfId mbxTimeout else pure ⟨⟩

/-- The release is reached with and without the lock. -/
def writeMbxPf (vfId : ℕ) (msg : MsgBuf) (size : ℕ) : MbxProg ℤ := do
  let ret ← obtainMbxLockPf size
  if ret ≠ success then do
    releaseMbxLockPf
    pure ret
  else do
    sendMbxPf vfId msg size
    releaseMbxLockPf
    pure ret

end Ixgbe
