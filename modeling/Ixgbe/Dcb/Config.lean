import Ixgbe.Library.Traced
import Ixgbe.Queues.Config

/-! # The DCB configuration and the routines that read it

`ixgbe_dcb.c` and `ixgbe_dcb_82599.c` with a trace of the indices they use. An array is a function,
so a read beyond its end has some value. -/

namespace Ixgbe

open Traced List

inductive DcbDir
  | tx
  | rx
  deriving DecidableEq, Repr

/-- What an index is used for; also the number of classes set in the net device. -/
inductive DcbUse
  | tcConfig (i : ℕ)
  | bwPercentage (i : ℕ)
  /-- `hw->fc.high_water[i]` and `hw->fc.low_water[i]`. -/
  | waterMark (i : ℕ)
  /-- `IXGBE_FCRTL_82599(i)` and `IXGBE_FCRTH_82599(i)`. -/
  | fcrt (i : ℕ)
  | numTc (n : ℕ)
  deriving DecidableEq, Repr

def DcbUse.InRange : DcbUse → Prop
  | .tcConfig i | .bwPercentage i | .waterMark i | .fcrt i => i < 8
  | .numTc n => n ≤ 8

structure DcbTcPath where
  tsa : U8
  bwgId : U8
  bwgPercent : U8
  upToTcBitmap : U8
  linkPercent : U8
  dataCreditsRefill : U16
  dataCreditsMax : U16
  deriving DecidableEq, Repr

structure DcbTcConfig where
  path : DcbDir → DcbTcPath
  pfc : U8
  descCreditsMax : U16

structure DcbConfig where
  tcConfig : ℕ → DcbTcConfig
  bwPercentage : DcbDir → ℕ → U8
  pgTcs : U8
  pfcTcs : U8
  pfcModeEnable : Bool

/-- The search of `ixgbe_dcb_get_tc_from_up`, from class `tc` down to class 1. -/
def tcFromUp (cfg : DcbConfig) (dir : DcbDir) (up : ℕ) : ℕ → Traced DcbUse ℕ
  | 0 => pure 0
  | tc + 1 => do
    emit (.tcConfig (tc + 1))
    if ((cfg.tcConfig (tc + 1)).path dir).upToTcBitmap.getLsbD up then pure (tc + 1)
    else tcFromUp cfg dir up tc

section

variable (cfg : DcbConfig) (dir : DcbDir)

def dcbGetTcFromUp (up : ℕ) : Traced DcbUse ℕ :=
  if cfg.pgTcs = 0 then pure 0 else tcFromUp cfg dir up (cfg.pgTcs.toNat - 1)

def dcbUnpackMapCee : Traced DcbUse (ℕ → ℕ) :=
  table 8 (dcbGetTcFromUp cfg dir)

def dcbUnpackPfcCee (map : ℕ → ℕ) : Traced DcbUse (ℕ → Bool) :=
  table 8 fun up => do
    emit (.tcConfig (map up))
    pure ((cfg.tcConfig (map up)).pfc != 0)

def linkPercentage (i : ℕ) : ℕ :=
  let p := (cfg.tcConfig i).path dir
  p.bwgPercent.toNat * (cfg.bwPercentage dir p.bwgId.toNat).toNat / 100

def linkPercentageReads : List DcbUse :=
  (range 8).flatMap fun i =>
    [.tcConfig i, .bwPercentage ((cfg.tcConfig i).path dir).bwgId.toNat]

def minLinkPercentage : ℕ :=
  (range 8).foldl (fun m i =>
    let l := linkPercentage cfg dir i
    if l ≠ 0 ∧ l < m then l else m) 100

/-- The second pass of `ixgbe_dcb_calculate_tc_credits_cee`, at one class. -/
def creditsOfTc (minCredit minMultiplier : ℕ) (dir : DcbDir) (i : ℕ) : DcbTcConfig :=
  let tc := cfg.tcConfig i
  let p := tc.path dir
  let l := linkPercentage cfg dir i
  let link := if p.bwgPercent ≠ 0 ∧ l = 0 then 1 else l
  let refill := max (min (link * minMultiplier) 511) minCredit
  let credit := max (link * 4095 / 100) minCredit
  { tc with
    path := Function.update tc.path dir
      { p with
        linkPercent := BitVec.ofNat 8 link
        dataCreditsRefill := BitVec.ofNat 16 refill
        dataCreditsMax := BitVec.ofNat 16 credit }
    descCreditsMax := if dir = .tx then BitVec.ofNat 16 credit else tc.descCreditsMax }

def dcbCalculateTcCreditsCee (maxFrameSize : ℕ) (dir : DcbDir) : Traced DcbUse DcbConfig := do
  let minCredit := (maxFrameSize / 2 + 64 - 1) / 64
  emits (linkPercentageReads cfg dir)
  let minMultiplier := minCredit / minLinkPercentage cfg dir + 1
  emits (linkPercentageReads cfg dir)
  pure { cfg with
    tcConfig := fun i =>
      if i < 8 then creditsOfTc cfg minCredit minMultiplier dir i else cfg.tcConfig i }

end

def maxTcOf (map : ℕ → ℕ) : ℕ := (range 8).foldl (fun m i => if map i > m then map i else m) 0

/-- Registers of classes beyond the largest of the map are cleared. -/
def dcbConfigPfc82599 (pfcEn : ℕ → Bool) (map : ℕ → ℕ) : Traced DcbUse ℤ := do
  let maxTc := maxTcOf map
  emits ((range (maxTc + 1)).flatMap fun i =>
    if (range 8).any fun j => map j = i && pfcEn j then [.waterMark i, .fcrt i]
    else [.fcrt i])
  emits (((range 8).drop (maxTc + 1)).map .fcrt)
  pure success

def dcbConfigPfc (mac : MacType) (pfcEn : ℕ → Bool) (map : ℕ → ℕ) : Traced DcbUse ℤ :=
  if mac = .macE610 then pure errParam else dcbConfigPfc82599 pfcEn map

def notImplemented : ℤ := 0x7FFFFFFF

def dcbHwConfigCee (mac : MacType) (cfg : DcbConfig) : Traced DcbUse ℤ := do
  emits ((range 4).flatMap fun _ => (range 8).map .tcConfig)
  let map ← dcbUnpackMapCee cfg .tx
  if mac = .macE610 then pure notImplemented
  else if cfg.pfcModeEnable then do
    let pfcEn ← dcbUnpackPfcCee cfg map
    dcbConfigPfc mac pfcEn map
  else pure success

/-- Where the marks are refused, fewer of the same entries are used. -/
def fcEnable (ret : ℤ) : Traced DcbUse ℤ := do
  emits ((range 8).map .waterMark)
  emits ((range 8).map .fcrt)
  pure ret

/-- Water marks for the classes in use, then zeros up to the eighth. -/
def pbthreshSetup (numTc : ℕ) : Traced DcbUse PUnit := do
  let n := if numTc = 0 then 1 else numTc
  emits ((range n).map .waterMark)
  emits (((range 8).drop n).map .waterMark)

end Ixgbe
