import Ixgbe.Sriov.Mailbox

/-! # Administrative requests and whole runs

`ixgbe_ndo_set_vf_*`, the adapter reset, and runs of these with the VFs' messages and the PF's own
operations. -/

namespace Ixgbe

section

variable (cfg : AdapterCfg) (a : Adapter)

def pingVf (vf : ℕ) : Adapter :=
  writeMbx a
    [if (a.vfinfo vf).clearToSend then pfControlMsg ||| msgtypeCts else pfControlMsg] vf

def ndoSetVfTrust (vf : ℤ) (setting : Bool) : ℤ × Adapter :=
  if vf < 0 ∨ vf ≥ cfg.numVfs then (eInval, a)
  else if (a.vfinfo vf.toNat).trusted = setting then (0, a)
  else
    -- the VF has to go through a reset before it is served again
    let a := a.modifyVf vf.toNat fun v => { v with trusted := setting, clearToSend := false }
    (0, pingVf a vf.toNat)

def ndoSetVfMac (vf : ℤ) (mac : MacAddr) : ℤ × Adapter :=
  if vf < 0 ∨ vf ≥ cfg.numVfs then (eInval, a)
  else
    let v := vf.toNat
    if isValidEtherAddr mac then
      let r := setVfMac cfg a v mac
      (r.1, if r.1 ≥ 0 then r.2.modifyVf v fun d => { d with pfSetMac := true } else r.2)
    else if mac = 0 then
      let vfMac := (a.vfinfo v).vfMacAddresses
      if vfMac = 0 then (0, a)
      else
        let r := delMacFilter cfg.toRarCfg a.mac vfMac v
        let a := { a with mac := r.2 }
        (r.1, if r.1 ≥ 0 then
            a.modifyVf v fun d => { d with pfSetMac := false, vfMacAddresses := mac }
          else a)
    else (eInval, a)

def Adapter.setVfVlan (cfg : AdapterCfg) (a : Adapter) (add : Bool) (vid vf : ℕ) : ℤ × Adapter :=
  let r := Ixgbe.setVfVlan cfg.toPoolCfg a.vlan add vid vf
  (r.1, { a with vlan := r.2 })

def enablePortVlan (vf vlan qos : ℕ) : ℤ × Adapter :=
  let r := a.setVfVlan cfg true vlan vf
  if r.1 ≠ 0 then r
  else
    -- revoke tagless access via VLAN 0
    let a := (r.2.setVfVlan cfg false 0 vf).2
    let a := setVmolr (writeVmvir a vf (some (vlan, qos))) vf false
    let a := if cfg.macType.rank ≥ MacType.macX550.rank then
        writeQde cfg a vf (qdeEnable ||| qdeHideVlan) else a
    (r.1, a.modifyVf vf fun v => { v with pfVlan := Fin.ofNat 4096 vlan, pfQos := qos })

def disablePortVlan (vf : ℕ) : ℤ × Adapter :=
  let r := a.setVfVlan cfg false (a.vfinfo vf).pfVlan vf
  -- restore tagless access via VLAN 0
  let a := (r.2.setVfVlan cfg true 0 vf).2
  let a := setVmolr (writeVmvir a vf none) vf true
  let a := if cfg.macType.rank ≥ MacType.macX550.rank then writeQde cfg a vf qdeEnable else a
  (r.1, a.modifyVf vf fun v => { v with pfVlan := 0, pfQos := 0 })

/-- `vlanProto` is in host byte order. -/
def ndoSetVfVlan (vf : ℤ) (vlan qos vlanProto : ℕ) : ℤ × Adapter :=
  if vf < 0 ∨ vf ≥ cfg.numVfs ∨ vlan > 4094 ∨ qos > 7 then (eInval, a)
  else if vlanProto ≠ 0x8100 then (eProtoNoSupport, a)
  else
    let v := vf.toNat
    if vlan ≠ 0 ∨ qos ≠ 0 then
      -- an old port VLAN is deleted before the new one is set
      let r := if (a.vfinfo v).pfVlan ≠ 0 then disablePortVlan cfg a v else (0, a)
      if r.1 ≠ 0 then r else enablePortVlan cfg r.2 v vlan qos
    else disablePortVlan cfg a v

/-- As `hw->mac.ops.init_hw` leaves it. -/
structure HwImage where
  vlan : VlanRegs
  vlnctrl : U32
  rar : RarRegs
  vmolr : ℕ → U32
  mta : ℕ → U32
  mcstctrl : U32
  regs : HwRegs
  /-- Read back from the device if it is not valid. -/
  hwAddr : MacAddr

def setVmdqSanMac (cfg : AdapterCfg) (t : MacFilter) (vmdq : ℕ) : MacFilter :=
  let rar := cfg.sanMacRarIndex
  { t with rar := { t.rar with
      mpsarLo := Function.update t.rar.mpsarLo rar (if vmdq < 32 then shl1 vmdq else 0)
      mpsarHi := Function.update t.rar.mpsarHi rar (if vmdq < 32 then 0 else shl1 (vmdq - 32)) } }

/-- The filter table is flushed, the unicast list marked as not installed and the PF's address put
back. -/
def ixgbeReset (hw : HwImage) : Adapter :=
  let a := { a with
    vlan.regs := hw.vlan
    vlan.vlnctrl := hw.vlnctrl
    mac.rar := hw.rar
    vmolr := hw.vmolr
    mcast.mta := hw.mta
    mcast.mcstctrl := hw.mcstctrl
    regs := hw.regs
    pf.hwAddr := hw.hwAddr }
  let mac := flushSwMacTable cfg.toRarCfg a.mac
  let mac := macSetDefaultFilter cfg.toRarCfg mac a.pf.hwAddr cfg.pf
  let mac := if cfg.sanMacRarIndex ≠ 0 then setVmdqSanMac cfg mac cfg.pf else mac
  { a with mac := mac, netdev.uc := devUcUnsync a.netdev.uc }

inductive Event (numVfs : ℕ)
  /-- `ixgbe_rcv_msg_from_vf`, with what the mailbox read returns. -/
  | msg (vf : Fin numVfs) (read : ℤ × MsgBuf)
  | vfReset (vf : Fin numVfs)
  | addVid (vid : Fin 4096)
  | killVid (vid : Fin 4096)
  /-- The stack changes the device's flags or lists and calls `ixgbe_set_rx_mode`. -/
  | rxMode (dev : NetDev)
  | ucSync (addr : MacAddr)
  | ucUnsync (addr : MacAddr)
  | setVfTrust (vf : ℤ) (setting : Bool)
  | setVfMac (vf : ℤ) (mac : MacAddr)
  | setVfVlan (vf : ℤ) (vlan qos vlanProto : ℕ)
  | reset (hw : HwImage)

def step : Event cfg.numVfs → Adapter
  | .msg vf read => (rcvMsgFromVf cfg a vf read).2
  | .vfReset vf => vfResetEvent cfg a vf
  | .addVid vid => { a with vlan := vlanRxAddVid cfg.toPoolCfg a.vlan vid }
  | .killVid vid => { a with vlan := vlanRxKillVid cfg.toPoolCfg a.vlan vid }
  | .rxMode dev => setRxMode cfg { a with netdev := dev }
  | .ucSync addr => { a with mac := (Ixgbe.ucSync cfg a.mac addr).2 }
  | .ucUnsync addr => { a with mac := Ixgbe.ucUnsync cfg a.mac addr }
  | .setVfTrust vf setting => (ndoSetVfTrust cfg a vf setting).2
  | .setVfMac vf mac => (ndoSetVfMac cfg a vf mac).2
  | .setVfVlan vf vlan qos vlanProto => (ndoSetVfVlan cfg a vf vlan qos vlanProto).2
  | .reset hw => ixgbeReset cfg a hw

/-- Allocated as zeroes, then the defaults of `__ixgbe_enable_sriov`. -/
def enableSriovVf : VfDataStorage where
  vfMacAddresses := 0
  vfMcHashes _ := 0
  numVfMcHashes := 0
  clearToSend := false
  pfSetMac := false
  pfVlan := 0
  pfQos := 0
  linkEnable := true
  spoofchkEnabled := true
  rssQueryEnabled := false
  trusted := false
  xcastMode := .none
  vfApi := .api10

def allocVfMacvlans : VfMacvlans where
  vf := none
  free := true
  isMacvlan := false
  vfMacvlan := 0

/-- On hardware that holds zeroes but for VT mode. -/
def enabledAdapter (hwAddr : MacAddr) : Adapter where
  vlan := { regs := vtOnlyRegs, vlnctrl := 0, activeVlans := fun _ => 0, vlanPromisc := false }
  mac := macSetDefaultFilter cfg.toRarCfg
    { entries := fun _ => ⟨0, 0, false, false, false⟩
      rar := ⟨fun _ => 0, fun _ => 0, fun _ => 0, fun _ => 0⟩ } hwAddr cfg.pf
  vfinfo _ := enableSriovVf
  mvs _ := allocVfMacvlans
  vmolr _ := 0
  mcast := ⟨fun _ => 0, fun _ => 0, 0, 0⟩
  regs := ⟨0, 0, fun _ => 0, fun _ => 0, fun _ => 0, fun _ => 0, fun _ => 0, fun _ => 0,
    fun _ => 0, fun _ => 0, fun _ => 0, fun _ => 0⟩
  mbx := ⟨fun _ _ => 0, []⟩
  netdev := ⟨true, false, false, true, true, [], [], 1500, false, 0, fun _ => 0⟩
  pf := ⟨hwAddr, 0, true, 0, fun _ => 0, fun _ => 0, false, [1]⟩

end

def oneVfAdapterCfg : AdapterCfg where
  toSriovCfg := oneVfCfg
  numRarEntries := 128
  sanMacRarIndex := 0
  num_ge := by decide
  num_le := by decide
  macType := .mac82599EB
  mcFilterType := 0
  vmdqMask := 0x7E

end Ixgbe
