import Ixgbe.Dcb.Config
import Ixgbe.Library.EventRun

/-! # DCB netlink requests

`ixgbe_dcb_nl.c`: an index is used long after the request that stored it. -/

namespace Ixgbe

open Traced DcbTcPath Function List

structure IeeeEts where
  prioTc : ℕ → U8
  tcTsa : ℕ → U8
  cbs : U8
  tcTxBw : ℕ → U8
  tcRxBw : ℕ → U8

/-- The bits of `dcb_set_bitmap`. -/
structure DcbSetBitmap where
  pfc : Bool
  pgRx : Bool
  pgTx : Bool
  appUpchg : Bool
  deriving DecidableEq, Repr

structure DcbHost where
  mac : MacType
  fcoe : Bool
  /-- 16 in the kernel, 8 in the driver's own version for kernels without it. -/
  tcMaxQueue : ℕ

/-- What a call meets that the DCB code does not decide. -/
structure DcbEnv where
  /-- The device is running, and opening it again gets to `ixgbe_configure`. -/
  reopens : Bool
  /-- MSI-X vectors are granted when the interrupts are set up again. -/
  msix : Bool
  allocEts : Bool
  allocPfc : Bool
  /-- The priority map read back from `RTRUP2TC`. -/
  rtrup2tc : ℕ → U8
  fcoeUpChanged : Bool
  maxFrame : ℕ
  xdpProg : Bool
  fcRet : ℤ

/-- The part of `struct ixgbe_adapter` that DCB is about. -/
structure Dcb where
  dcbCfg : DcbConfig
  tempDcbCfg : DcbConfig
  dcbxCap : U8
  dcbSetBitmap : DcbSetBitmap
  dcbEnabled : Bool
  numTc : ℕ
  ieeeEts : Option IeeeEts
  ieeePfc : Option U8

def dcbxHost (mode : U8) : Bool := mode.getLsbD 0

def dcbxLldManaged (mode : U8) : Bool := mode.getLsbD 1

def dcbxVerCee (mode : U8) : Bool := mode.getLsbD 2

def dcbxVerIeee (mode : U8) : Bool := mode.getLsbD 3

section

variable (h : DcbHost) (env : DcbEnv) (s : Dcb)

/-- Without MSI-X vectors DCB is switched off. -/
def Dcb.initInterruptScheme (env : DcbEnv) : Dcb :=
  if env.msix then s
  else
    let s := if s.numTc > 1 then
      { s with
        numTc := 0
        dcbEnabled := false
        tempDcbCfg := { s.tempDcbCfg with pfcModeEnable := false }
        dcbCfg := { s.dcbCfg with pfcModeEnable := false } }
      else s
    { s with dcbCfg := { s.dcbCfg with pgTcs := 1, pfcTcs := 1 } }

def Dcb.configureDcb : Traced DcbUse Dcb :=
  if s.dcbEnabled = false then pure s
  else if dcbxVerIeee s.dcbxCap then do
    match s.ieeePfc, s.ieeeEts with
    | some pfcEn, some ets =>
      let _ ← dcbConfigPfc h.mac pfcEn.getLsbD fun up => (ets.prioTc up).toNat
      pure s
    | _, _ => pure s
  else do
    let cfg ← dcbCalculateTcCreditsCee s.dcbCfg env.maxFrame .tx
    let cfg ← dcbCalculateTcCreditsCee cfg env.maxFrame .rx
    let _ ← dcbHwConfigCee h.mac cfg
    pure { s with dcbCfg := cfg }

/-- `ixgbe_init_interrupt_scheme` and, on a running device, `ixgbe_open`. -/
def Dcb.restart : Traced DcbUse Dcb := do
  let s := s.initInterruptScheme env
  if env.reopens then do
    pbthreshSetup s.numTc
    s.configureDcb h env
  else pure s

def Dcb.devreset : Traced DcbUse Dcb := s.restart h env

def Dcb.setNumTc (n : ℕ) (s : Dcb) : Traced DcbUse Dcb :=
  if n > h.tcMaxQueue then pure s
  else do
    emit (.numTc n)
    pure { s with numTc := n }

/-- The net device's own map is not modelled, only what is read for it. -/
def Dcb.setPrioTcMap : Traced DcbUse PUnit :=
  if dcbxVerCee s.dcbxCap then do
    let _ ← dcbUnpackMapCee s.dcbCfg .tx
    pure ⟨⟩
  else pure ⟨⟩

def Dcb.setupTc (tc : ℕ) (s : Dcb) : Traced DcbUse (ℤ × Dcb) :=
  if tc > s.dcbCfg.pgTcs.toNat then pure (eInval, s)
  else if tc ≠ 0 then
    if env.xdpProg then do
      let s ← s.restart h env
      pure (eInval, s)
    else do
      let s ← s.setNumTc h tc
      s.setPrioTcMap
      let s ← { s with dcbEnabled := true }.restart h env
      pure (0, s)
  else do
    let s ← { s with
      numTc := 0
      dcbEnabled := false
      tempDcbCfg := { s.tempDcbCfg with pfcModeEnable := false }
      dcbCfg := { s.dcbCfg with pfcModeEnable := false } }.restart h env
    pure (0, s)

/-- `DCB_ATTR_VALUE_UNDEFINED` leaves a byte out. -/
def unlessUndefined (new old : U8) : U8 := if new = 0xff then old else new

def Dcb.setPgTcCfg (dir : DcbDir) (tc : ℤ) (prio bwgId bwPct upMap : U8) (s : Dcb) :
    Traced DcbUse Dcb :=
  if tc < 0 ∨ tc ≥ 8 then pure s
  else do
    let c := s.tempDcbCfg.tcConfig tc.toNat
    let p := c.path dir
    emit (.tcConfig tc.toNat)
    pure { s with
      tempDcbCfg := { s.tempDcbCfg with
        tcConfig := update s.tempDcbCfg.tcConfig tc.toNat { c with
          path := update c.path dir { p with
            tsa := unlessUndefined prio p.tsa
            bwgId := unlessUndefined bwgId p.bwgId
            bwgPercent := unlessUndefined bwPct p.bwgPercent
            upToTcBitmap := unlessUndefined upMap p.upToTcBitmap } } } }

def Dcb.setPgTcCfgTx : ℤ → U8 → U8 → U8 → U8 → Dcb → Traced DcbUse Dcb := Dcb.setPgTcCfg .tx

def Dcb.setPgTcCfgRx : ℤ → U8 → U8 → U8 → U8 → Dcb → Traced DcbUse Dcb := Dcb.setPgTcCfg .rx

def Dcb.setPgBwgCfg (dir : DcbDir) (bwgId : ℤ) (bwPct : U8) (s : Dcb) : Traced DcbUse Dcb :=
  if bwgId < 0 ∨ bwgId ≥ 8 then pure s
  else do
    emit (.bwPercentage bwgId.toNat)
    pure { s with
      tempDcbCfg := { s.tempDcbCfg with
        bwPercentage := update s.tempDcbCfg.bwPercentage dir
          (update (s.tempDcbCfg.bwPercentage dir) bwgId.toNat bwPct) } }

def Dcb.setPgBwgCfgTx : ℤ → U8 → Dcb → Traced DcbUse Dcb := Dcb.setPgBwgCfg .tx

def Dcb.setPgBwgCfgRx : ℤ → U8 → Dcb → Traced DcbUse Dcb := Dcb.setPgBwgCfg .rx

def Dcb.setPfcCfg (up : ℕ) (pfc : U8) (s : Dcb) : Traced DcbUse Dcb := do
  let tc ← dcbGetTcFromUp s.tempDcbCfg .tx up
  emit (.tcConfig tc)
  pure { s with
    tempDcbCfg := { s.tempDcbCfg with
      tcConfig := update s.tempDcbCfg.tcConfig tc
        { s.tempDcbCfg.tcConfig tc with pfc := pfc }
      pfcModeEnable := s.tempDcbCfg.pfcModeEnable || pfc != (s.dcbCfg.tcConfig tc).pfc } }

def Dcb.getPfcCfg (up : ℕ) (s : Dcb) : Traced DcbUse U8 := do
  let tc ← dcbGetTcFromUp s.dcbCfg .tx up
  emit (.tcConfig tc)
  pure (s.dcbCfg.tcConfig tc).pfc

inductive NumTcsAttr
  | pg
  | pfc
  | other
  deriving DecidableEq, Repr

def Dcb.setnumtcs (tcid : NumTcsAttr) (num : U8) (s : Dcb) : ℤ × Dcb :=
  if s.dcbEnabled then
    match tcid with
    | .pg => (0, { s with dcbCfg := { s.dcbCfg with pgTcs := num } })
    | .pfc => (0, { s with dcbCfg := { s.dcbCfg with pfcTcs := num } })
    | .other => (eInval, s)
  else (eInval, s)

def Dcb.setState (state : U8) (s : Dcb) : Traced DcbUse (ℤ × Dcb) :=
  if dcbxVerCee s.dcbxCap = false then pure (1, s)
  else if (state != 0) = s.dcbEnabled then pure (0, s)
  else do
    let (err, s) ← s.setupTc h env (if state != 0 then s.dcbCfg.pgTcs.toNat else 0)
    pure (if err = 0 then 0 else 1, s)

def pathDiffers (src dst : DcbConfig) (dir : DcbDir) (field : DcbTcPath → U8) : Bool :=
  (range 8).any fun i =>
    field ((dst.tcConfig i).path dir) != field ((src.tcConfig i).path dir)

def pgDiffers (src dst : DcbConfig) (dir : DcbDir) : Bool :=
  pathDiffers src dst dir tsa || pathDiffers src dst dir bwgId ||
    pathDiffers src dst dir bwgPercent ||
    pathDiffers src dst dir upToTcBitmap ||
    (range 8).any fun j => dst.bwPercentage dir j != src.bwPercentage dir j

def copyPath (src dst : DcbTcPath) : DcbTcPath :=
  { dst with
    tsa := src.tsa
    bwgId := src.bwgId
    bwgPercent := src.bwgPercent
    upToTcBitmap := src.upToTcBitmap }

/-- It returns what changed. -/
def Dcb.copyDcbCfg : Traced DcbUse (DcbSetBitmap × Dcb) := do
  let src := s.tempDcbCfg
  let dst := s.dcbCfg
  emits ((range 8).map .tcConfig)
  emits ((range 8).map .bwPercentage)
  emits ((range 8).map .tcConfig)
  let upDiffers := pathDiffers src dst .tx upToTcBitmap ||
    pathDiffers src dst .rx upToTcBitmap
  let pfcDiffers := (range 8).any fun j => (dst.tcConfig j).pfc != (src.tcConfig j).pfc
  let changes : DcbSetBitmap :=
    { pfc := upDiffers || pfcDiffers || dst.pfcModeEnable != src.pfcModeEnable
      pgRx := pgDiffers src dst .rx
      pgTx := pgDiffers src dst .tx
      appUpchg := (h.fcoe && env.fcoeUpChanged) || upDiffers }
  let dcbCfg : DcbConfig :=
    { dst with
      tcConfig := fun i =>
        if i < 8 then
          { dst.tcConfig i with
            path := fun dir => copyPath ((src.tcConfig i).path dir) ((dst.tcConfig i).path dir)
            pfc := (src.tcConfig i).pfc }
        else dst.tcConfig i
      bwPercentage := fun dir j =>
        if j < 8 then src.bwPercentage dir j else dst.bwPercentage dir j
      pfcModeEnable := src.pfcModeEnable }
  pure (changes, { s with dcbCfg := dcbCfg })

def DcbSetBitmap.or (a b : DcbSetBitmap) : DcbSetBitmap :=
  { pfc := a.pfc || b.pfc
    pgRx := a.pgRx || b.pgRx
    pgTx := a.pgTx || b.pgTx
    appUpchg := a.appUpchg || b.appUpchg }

def DcbSetBitmap.clear : DcbSetBitmap := ⟨false, false, false, false⟩

def DcbSetBitmap.all : DcbSetBitmap := ⟨true, true, true, true⟩

inductive DcbHwChg
  | hwChgRst
  | noHwChg
  | hwChg
  deriving DecidableEq, Repr

def Dcb.applyPg : Traced DcbUse Dcb := do
  let cfg ← dcbCalculateTcCreditsCee s.dcbCfg env.maxFrame .tx
  let cfg ← dcbCalculateTcCreditsCee cfg env.maxFrame .rx
  let _ ← dcbHwConfigCee h.mac cfg
  pure { s with dcbCfg := cfg }

def Dcb.applyPfc (prioTc : ℕ → ℕ) (s : Dcb) : Traced DcbUse ℤ :=
  if s.dcbCfg.pfcModeEnable then do
    let pfcEn ← dcbUnpackPfcCee s.dcbCfg prioTc
    dcbConfigPfc h.mac pfcEn prioTc
  else fcEnable env.fcRet

def Dcb.setAllPg (bitmap : DcbSetBitmap) (s : Dcb) : Traced DcbUse (DcbHwChg × Dcb) :=
  if bitmap.pgTx || bitmap.pgRx then do
    let s ← s.applyPg h env
    pure (.hwChgRst, s)
  else pure (.noHwChg, s)

def Dcb.setAllPfc (bitmap : DcbSetBitmap) (prioTc : ℕ → ℕ) (ret : DcbHwChg) (s : Dcb) :
    Traced DcbUse DcbHwChg :=
  if bitmap.pfc then do
    let _ ← s.applyPfc h env prioTc
    pure (if ret = .hwChgRst then ret else .hwChg)
  else pure ret

/-- Under `BIT_APP_UPCHG` in a build with FCoE. -/
def Dcb.setAllApp (bitmap : DcbSetBitmap) (ret : DcbHwChg) (s : Dcb) :
    Traced DcbUse (DcbHwChg × Dcb) :=
  if h.fcoe && bitmap.appUpchg then do
    let s ← s.devreset h env
    pure (.hwChgRst, s)
  else pure (ret, s)

def Dcb.setAll : Traced DcbUse (DcbHwChg × Dcb) :=
  if dcbxVerCee s.dcbxCap = false then pure (.noHwChg, s)
  else do
    let (changes, s) ← s.copyDcbCfg h env
    let bitmap := s.dcbSetBitmap.or changes
    if bitmap = .clear then pure (.noHwChg, s)
    else do
      let prioTc ← dcbUnpackMapCee s.dcbCfg .tx
      let (ret, s) ← s.setAllPg h env bitmap
      let ret ← s.setAllPfc h env bitmap prioTc ret
      let (ret, s) ← s.setAllApp h env bitmap ret
      pure (ret, { s with dcbSetBitmap := .clear })

def dcbHwEts (ets : IeeeEts) : ℤ :=
  if (range 8).all fun i => ets.tcTsa i == 0 || ets.tcTsa i == 2 then 0 else eInval

/-- In a byte. -/
def maxTcPlusOne (ets : IeeeEts) : ℕ :=
  let maxTc := maxTcOf fun up => (ets.prioTc up).toNat
  if maxTc ≠ 0 then (maxTc + 1) % 256 else maxTc

/-- The change of classes: their number, or only the map. -/
def Dcb.applyEts (maxTc : ℕ) (mapChg : Bool) (s : Dcb) : Traced DcbUse (ℤ × Dcb) :=
  if maxTc ≠ s.numTc then s.setupTc h env maxTc
  else if mapChg then do
    let s ← s.devreset h env
    pure (0, s)
  else pure (0, s)

/-- The settings are stored before their classes are compared with `pg_tcs`. -/
def Dcb.ieeeSetets (ets : IeeeEts) (s : Dcb) : Traced DcbUse (ℤ × Dcb) :=
  if dcbxVerIeee s.dcbxCap = false then pure (eInval, s)
  else if s.ieeeEts.isNone ∧ env.allocEts = false then pure (eNoMem, s)
  else
    let oldPrioTc := (s.ieeeEts.map IeeeEts.prioTc).getD env.rtrup2tc
    let mapChg := (range 8).any fun i => ets.prioTc i != oldPrioTc i
    let s := { s with ieeeEts := some ets }
    let maxTc := maxTcPlusOne ets
    if maxTc > s.dcbCfg.pgTcs.toNat then pure (eInval, s)
    else do
      let (err, s) ← s.applyEts h env maxTc mapChg
      pure (if err ≠ 0 then err else dcbHwEts ets, s)

/-- Without ETS settings a null pointer is read: the call does not return. -/
def Dcb.ieeeSetpfc (pfcEn : U8) (s : Dcb) : Traced DcbUse (Option ℤ × Dcb) :=
  if dcbxVerIeee s.dcbxCap = false then pure (some eInval, s)
  else if s.ieeePfc.isNone ∧ env.allocPfc = false then pure (some eNoMem, s)
  else
    let s := { s with ieeePfc := some pfcEn }
    if pfcEn ≠ 0 then
      match s.ieeeEts with
      | some ets => do
        let err ← dcbConfigPfc h.mac pfcEn.getLsbD fun up => (ets.prioTc up).toNat
        pure (some err, s)
      | none => pure (none, s)
    else do
      let err ← fcEnable env.fcRet
      pure (some err, s)

/-- The settings that `ixgbe_dcbnl_setdcbx` starts a mode with. -/
def IeeeEts.zero : IeeeEts := ⟨fun _ => 0, fun _ => 0, 0, fun _ => 0, fun _ => 0⟩

def Dcb.setdcbx (mode : U8) (s : Dcb) : Traced DcbUse (ℤ × Dcb) :=
  if dcbxLldManaged mode || (dcbxVerIeee mode && dcbxVerCee mode) || !dcbxHost mode then
    pure (1, s)
  else if mode = s.dcbxCap then pure (0, s)
  else
    let s := { s with dcbxCap := mode }
    if dcbxVerIeee mode then do
      let (_, s) ← s.ieeeSetets h env IeeeEts.zero
      let (_, s) ← s.ieeeSetpfc h env 0
      pure (0, s)
    else if dcbxVerCee mode then do
      let (_, s) ← { s with dcbSetBitmap := s.dcbSetBitmap.or .all }.setAll h env
      pure (0, s)
    else do
      let (_, s) ← s.ieeeSetets h env IeeeEts.zero
      let (_, s) ← s.ieeeSetpfc h env 0
      let (_, s) ← s.setupTc h env 0
      pure (0, s)

inductive DcbCall
  | setState (state : U8)
  | setPgTcCfgTx (tc : ℤ) (prio bwgId bwPct upMap : U8)
  | setPgTcCfgRx (tc : ℤ) (prio bwgId bwPct upMap : U8)
  | setPgBwgCfgTx (bwgId : ℤ) (bwPct : U8)
  | setPgBwgCfgRx (bwgId : ℤ) (bwPct : U8)
  | setPfcCfg (up : Fin 8) (pfc : U8)
  | getPfcCfg (up : Fin 8)
  | setnumtcs (tcid : NumTcsAttr) (num : U8)
  | setAll
  | ieeeSetets (ets : IeeeEts)
  | ieeeSetpfc (pfcEn : U8)
  | setdcbx (mode : U8)

def stateOf {α : Type} (x : Traced DcbUse (α × Dcb)) : Traced DcbUse Dcb := do
  let r ← x
  pure r.2

def DcbCall.run : DcbCall → Traced DcbUse Dcb
  | .setState state => stateOf (s.setState h env state)
  | .setPgTcCfgTx tc prio bwgId bwPct upMap => s.setPgTcCfgTx tc prio bwgId bwPct upMap
  | .setPgTcCfgRx tc prio bwgId bwPct upMap => s.setPgTcCfgRx tc prio bwgId bwPct upMap
  | .setPgBwgCfgTx bwgId bwPct => s.setPgBwgCfgTx bwgId bwPct
  | .setPgBwgCfgRx bwgId bwPct => s.setPgBwgCfgRx bwgId bwPct
  | .setPfcCfg up pfc => s.setPfcCfg up pfc
  | .getPfcCfg up => do
    let _ ← s.getPfcCfg up
    pure s
  | .setnumtcs tcid num => pure (s.setnumtcs tcid num).2
  | .setAll => stateOf (s.setAll h env)
  | .ieeeSetets ets => stateOf (s.ieeeSetets h env ets)
  | .ieeeSetpfc pfcEn => stateOf (s.ieeeSetpfc h env pfcEn)
  | .setdcbx mode => stateOf (s.setdcbx h env mode)

structure DcbEvent where
  call : DcbCall
  env : DcbEnv

def dcbStep (e : DcbEvent) : Dcb := (e.call.run h e.env s).val

end

/-- All priorities in class 0, all bandwidth in group 0, CEE mode. -/
def dcbCfgInit : DcbConfig :=
  { tcConfig := fun j =>
      { path := fun _ =>
          { tsa := 0
            bwgId := 0
            bwgPercent := if j = 0 then 16 else 12
            upToTcBitmap := if j = 0 then 0xFF else 0
            linkPercent := 0
            dataCreditsRefill := 0
            dataCreditsMax := 0 }
        pfc := 0
        descCreditsMax := 0 }
    bwPercentage := fun _ j => if j = 0 then 100 else 0
    pgTcs := 8
    pfcTcs := 8
    pfcModeEnable := false }

def dcbInit : Dcb :=
  { dcbCfg := dcbCfgInit
    tempDcbCfg := dcbCfgInit
    dcbxCap := 0x05
    dcbSetBitmap := .clear
    dcbEnabled := false
    numTc := 0
    ieeeEts := none
    ieeePfc := none }

end Ixgbe
