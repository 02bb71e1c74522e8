import Ixgbe.Sriov.RxMode

/-! # Messages from a VF

`ixgbe_rcv_msg_from_vf` and every handler it can reach (`ixgbe_sriov.c`). A message is 16 words
chosen by the VF. -/

namespace Ixgbe

open IndexedTable List

/-- Read below `IXGBE_VFMAILBOX_SIZE`. -/
abbrev MsgBuf := ℕ → U32

def vfMailboxSize : ℕ := 16

def msgtypeSuccess : U32 := 0x80000000

def msgtypeFailure : U32 := 0x40000000

def msgtypeCts : U32 := 0x20000000

def vfReset : U32 := 0x01

def pfControlMsg : U32 := 0x0100

section

variable (cfg : AdapterCfg) (a : Adapter) (msg : MsgBuf) (vf : ℕ)

def msgInfo : ℕ := ((msg 0 &&& 0xFF0000) >>> 16).toNat

/-- The 6 bytes from `&msgbuf[1]` on, as an address. -/
def msgMac : MacAddr := (msg 2).setWidth 16 ++ msg 1

/-- With the reset request apart. -/
inductive VfMsg
  | setMacAddr
  | setMulticast
  | setVlan
  | setLpe
  | setMacvlan
  | apiNegotiate
  | getQueues
  | getReta
  | getRssKey
  | updateXcastMode
  | getLinkState
  | getPfLinkState
  | featuresNegotiate
  deriving DecidableEq, Repr

/-- Named by the low half of the first word. -/
def VfMsg.ofWord (w : U32) : Option VfMsg :=
  match (w &&& 0xFFFF).toNat with
  | 0x02 => some .setMacAddr
  | 0x03 => some .setMulticast
  | 0x04 => some .setVlan
  | 0x05 => some .setLpe
  | 0x06 => some .setMacvlan
  | 0x08 => some .apiNegotiate
  | 0x09 => some .getQueues
  | 0x0a => some .getReta
  | 0x0b => some .getRssKey
  | 0x0c => some .updateXcastMode
  | 0x10 => some .getLinkState
  | 0x11 => some .getPfLinkState
  | 0x12 => some .featuresNegotiate
  | _ => none

def writeMbx (words : List U32) (vf : ℕ) : Adapter :=
  { a with mbx := {
      mem := fun v i => if v = vf ∧ i < words.length then words.getD i 0 else a.mbx.mem v i
      sent := (vf, words) :: a.mbx.sent } }

def setVfMac (addr : MacAddr) : ℤ × Adapter :=
  let mac := (delMacFilter cfg.toRarCfg a.mac (a.vfinfo vf).vfMacAddresses vf).2
  let r := addMacFilter cfg.toRarCfg mac addr vf
  let a := { a with mac := r.2 }
  (r.1, a.modifyVf vf fun v => { v with vfMacAddresses := if r.1 ≥ 0 then addr else 0 })

/-- An entry of the VF is given back. -/
def releaseMacvlan (s : (ℕ → VfMacvlans) × MacFilter) (i : ℕ) : (ℕ → VfMacvlans) × MacFilter :=
  let entry := s.1 i
  if entry.vf = some vf then
    (Function.update s.1 i { entry with vf := none, free := true, isMacvlan := false },
      (delMacFilter cfg.toRarCfg s.2 entry.vfMacvlan vf).2)
  else s

def releaseMacvlans : Adapter :=
  let s := (range cfg.numVfMacvlans).foldl (releaseMacvlan cfg vf) (a.mvs, a.mac)
  { a with mvs := s.1, mac := s.2 }

def setVfMacvlan (index : ℕ) (addr : MacAddr) : ℤ × Adapter :=
  let a := if index ≤ 1 then releaseMacvlans cfg a vf else a
  -- index 0 asks to clear the list
  if index = 0 then (0, a)
  else
    match first cfg.numVfMacvlans VfMacvlans.free a.mvs with
    | none => (eNoSpc, a)
    | some i =>
      let r := addMacFilter cfg.toRarCfg a.mac addr vf
      let a := { a with mac := r.2 }
      if r.1 < 0 then (r.1, a)
      else (0, { a with mvs := Function.update a.mvs i ⟨some vf, false, true, addr⟩ })

def setVmolr (aupe : Bool) : Adapter :=
  let vmolr := a.vmolr vf ||| vmolrBam
  a.writeVmolr vf (if aupe then vmolr ||| vmolrAupe else vmolr &&& ~~~vmolrAupe)

def vmvirWord (vid qos : ℕ) : U32 :=
  BitVec.ofNat 32 vid ||| BitVec.ofNat 32 qos <<< 13 ||| 0x40000000

/-- `ixgbe_set_vmvir` (`some`) and `ixgbe_clear_vmvir` (`none`). -/
def writeVmvir (tag : Option (ℕ × ℕ)) : Adapter :=
  let x := match tag with
    | some (vid, qos) => vmvirWord vid qos
    | none => 0
  { a with regs.vmvir := Function.update a.regs.vmvir vf x }

def writeQde (qde : U32) : Adapter :=
  let q := (range' (vf * cfg.qPerPool) cfg.qPerPool).foldl
    (fun q i => Function.update q i (0x10000 ||| qde ||| BitVec.ofNat 32 i <<< 8)) a.regs.qde
  { a with regs.qde := q }

def qdeEnable : U32 := 0x1

def qdeHideVlan : U32 := 0x2

/-- `pf_max_frame` of `ixgbe_set_vf_lpe` and `ixgbe_set_vf_rx_tx`. -/
def pfMaxFrame (dev : NetDev) : ℕ := if dev.fcoeMtu then max (dev.mtu + 14) 3072 else dev.mtu + 14

def ethFrameLen : ℕ := 1514

def setVfRxTx : Adapter :=
  let curTx := a.regs.vfte (vf / 32)
  let curRx := a.regs.vfre (vf / 32)
  let on := (a.vfinfo vf).linkEnable
  let reqTx := if on then curTx ||| shl1 (vf % 32) else curTx &&& ~~~(shl1 (vf % 32))
  let reqRx := if on then curRx ||| shl1 (vf % 32) else curRx &&& ~~~(shl1 (vf % 32))
  let reqRx :=
    if cfg.macType = .mac82599EB ∧ pfMaxFrame a.netdev > ethFrameLen then
      curRx &&& ~~~(shl1 (vf % 32))
    else reqRx
  { a with regs := { a.regs with
      vfte := Function.update a.regs.vfte (vf / 32) reqTx
      vfre := Function.update a.regs.vfre (vf / 32) reqRx } }

def txdctlEnable : U32 := 0x02000000

/-- Each configured queue is enabled and disabled. -/
def restartTxQueues (r : HwRegs) (vf : ℕ) : HwRegs :=
  let pvftxdctl := (range cfg.qPerPool).foldl
    (fun t queue =>
      let regIdx := vf * cfg.qPerPool + queue
      if t regIdx ≠ 0 then
        Function.update t regIdx ((t regIdx ||| txdctlEnable) &&& ~~~txdctlEnable)
      else t) r.pvftxdctl
  { r with pvftxdctl := pvftxdctl }

/-- The outgoing tag. -/
def resetVmvirTag (v : VfDataStorage) (numTcs defaultUp : ℕ) : Option (ℕ × ℕ) :=
  if v.pfVlan = 0 ∧ v.pfQos = 0 ∧ numTcs = 0 then none
  else if v.pfQos ≠ 0 ∨ numTcs = 0 then some (v.pfVlan, v.pfQos)
  else some (v.pfVlan, defaultUp)

/-- The VF leaves every VLAN but its port VLAN, or VLAN 0. -/
def resetVfVlan : Adapter :=
  let vlan := clearVfVlans cfg.toPoolCfg a.vlan vf
  { a with vlan := (setVfVlan cfg.toPoolCfg vlan true (a.vfinfo vf).pfVlan vf).2 }

/-- The VF's address and its macvlans. -/
def resetVfFilters : Adapter :=
  let mac := (delMacFilter cfg.toRarCfg a.mac (a.vfinfo vf).vfMacAddresses vf).2
  (setVfMacvlan cfg { a with mac := mac } vf 0 0).2

/-- VLANs, offloads, outgoing tag and multicast hashes. -/
def resetVfDefaults : Adapter :=
  let a := resetVfVlan cfg a vf
  -- reset offloads to defaults
  let a := setVmolr a vf (decide ((a.vfinfo vf).pfVlan = 0))
  let a := writeVmvir a vf (resetVmvirTag (a.vfinfo vf) a.netdev.numTc a.pf.defaultUp)
  a.modifyVf vf fun v => { v with numVfMcHashes := 0 }

def vfResetEvent : Adapter :=
  let a := resetVfDefaults cfg a vf
  -- flush and reset the multicast table with the new values
  let a := setRxMode cfg a
  let a := resetVfFilters cfg a vf
  let a := a.modifyVf vf fun v => { v with vfApi := .api10 }
  if cfg.macType.rank ≥ MacType.macX550.rank then
    { a with
      regs := restartTxQueues cfg a.regs vf
      mbx := { a.mbx with
        mem := fun v i => if v = vf ∧ i < vfMailboxSize then 0 else a.mbx.mem v i } }
  else a

/-- With the mailbox bit and the write-back addresses. -/
def enableVf : Adapter :=
  let qde := if (a.vfinfo vf).pfVlan ≠ 0 then qdeEnable ||| qdeHideVlan else qdeEnable
  let a := setVfRxTx cfg (writeQde cfg a vf qde) vf
  let a := a.modifyVf vf fun v => { v with clearToSend := true }
  let zeroQueues := fun r : ℕ → U32 => (range cfg.qPerPool).foldl
    (fun r i => Function.update r (cfg.qPerPool * vf + i) 0) r
  { a with regs := { a.regs with
      vmecm := Function.update a.regs.vmecm (vf / 32) (a.regs.vmecm (vf / 32) ||| shl1 (vf % 32))
      pvftdwbah := zeroQueues a.regs.pvftdwbah
      pvftdwbal := zeroQueues a.regs.pvftdwbal } }

/-- The VF's address if the PF set one, and the multicast type. -/
def resetReply (v : VfDataStorage) : List U32 :=
  if v.vfMacAddresses ≠ 0 ∧ v.pfSetMac = true then
    [vfReset ||| msgtypeSuccess, v.vfMacAddresses.extractLsb' 0 32,
      (v.vfMacAddresses.extractLsb' 32 16).setWidth 32, BitVec.ofNat 32 cfg.mcFilterType]
  else [vfReset ||| msgtypeFailure, 0, 0, BitVec.ofNat 32 cfg.mcFilterType]

/-- It is read from the storage that `ixgbe_set_vf_mac` writes, so a failure overwrites it. -/
def restoreVfMac : Adapter :=
  let vfMac := (a.vfinfo vf).vfMacAddresses
  if vfMac ≠ 0 then (setVfMac cfg a vf vfMac).2 else a

def vfResetMsg : Adapter :=
  let a := vfResetEvent cfg a vf
  let a := restoreVfMac cfg a vf
  let a := enableVf cfg a vf
  writeMbx a (resetReply cfg (a.vfinfo vf)) vf

def setVfMacAddr : ℤ × Adapter :=
  let v := a.vfinfo vf
  let newMac := msgMac msg
  if isValidEtherAddr newMac = false then (-1, a)
  else if v.pfSetMac = true ∧ v.trusted = false ∧ v.vfMacAddresses ≠ newMac then (-1, a)
  else
    let r := setVfMac cfg a vf newMac
    (if r.1 < 0 then 1 else 0, r.2)

def maxVfMcEntries : ℕ := 30

/-- `hash_list[i]`: the message from word 1 on, as half words. -/
def msgHash (i : ℕ) : BitVec 16 := (msg (1 + i / 2)).extractLsb' (16 * (i % 2)) 16

end

section

variable (cfg : AdapterCfg) (a : Adapter) (msg : MsgBuf) (vf : ℕ)

def setVfMulticasts : ℤ × Adapter :=
  let entries := min (msgInfo msg) maxVfMcEntries
  let vmolr := a.vmolr vf
  let a := a.modifyVf vf fun v =>
    { v with
      numVfMcHashes := entries
      vfMcHashes := fun i => if i < entries then msgHash msg i else v.vfMcHashes i }
  let a := a.writeVmolr vf (vmolr ||| vmolrRompe)
  (0, (writeMcAddrList cfg a).2)

def setVfVlanMsg : ℤ × Adapter :=
  let add := msgInfo msg
  let vid := (msg 1 &&& 0xFFF).toNat
  if (a.vfinfo vf).pfVlan ≠ 0 ∨ a.netdev.numTc ≠ 0 then (-1, a)
  -- VLAN 0 is a special case, it cannot be removed
  else if vid = 0 ∧ add = 0 then (0, a)
  else
    let r := setVfVlan cfg.toPoolCfg a.vlan (decide (add ≠ 0)) vid vf
    (r.1, { a with vlan := r.2 })

def maxJumboFrameSize : U32 := 9728

/-- The API versions with which a VF may use jumbo frames if the PF does. -/
def MboxApi.jumbo : MboxApi → Bool
  | .api11 | .api12 | .api13 | .api16 | .api17 => true
  | _ => false

def setVfLpe (maxFrame : U32) (vf : ℕ) : ℤ × Adapter :=
  let is82599 := cfg.macType = .mac82599EB
  let pfFrame := pfMaxFrame a.netdev
  let err := is82599 ∧ ¬ ((a.vfinfo vf).vfApi.jumbo = true ∧ pfFrame > ethFrameLen) ∧
    (pfFrame > ethFrameLen ∨ maxFrame.toNat > ethFrameLen + 4)
  let old := a.regs.vfre (vf / 32)
  let vfre := if err then old &&& ~~~(shl1 (vf % 32)) else old ||| shl1 (vf % 32)
  let a := if is82599 then
      { a with regs.vfre := Function.update a.regs.vfre (vf / 32) vfre } else a
  if err then (eInval, a)
  else
    let maxFrs := (a.regs.maxfrs &&& 0xFFFF0000) >>> 16
    (0, if maxFrs < maxFrame then { a with regs.maxfrs := maxFrame <<< 16 } else a)

/-- `ixgbe_set_mac_anti_spoofing` and `ixgbe_set_vlan_anti_spoofing`, both off. -/
def antiSpoofingOff : Adapter :=
  let x := a.regs.pfvfspoof (vf / 8) &&& ~~~(shl1 (vf % 8)) &&& ~~~(shl1 (vf % 8 + 8))
  { a with regs.pfvfspoof := Function.update a.regs.pfvfspoof (vf / 8) x }

def setVfMacvlanMsg : ℤ × Adapter :=
  let v := a.vfinfo vf
  let newMac := msgMac msg
  let index := msgInfo msg
  if v.pfSetMac = true ∧ v.trusted = false ∧ index > 0 then (-1, a)
  else if index ≠ 0 ∧ isValidEtherAddr newMac = false then (-1, a)
  else
    -- a VF that sets filters would run into false positives of the anti-spoofing
    let a := if index ≠ 0 ∧ v.spoofchkEnabled = true then antiSpoofingOff a vf else a
    let r := setVfMacvlan cfg a vf index newMac
    (if r.1 < 0 then 1 else 0, r.2)

def MboxApi.negotiable (w : U32) : Option MboxApi :=
  match w.toNat with
  | 0 => some .api10
  | 2 => some .api11
  | 3 => some .api12
  | 4 => some .api13
  | 7 => some .api16
  | 8 => some .api17
  | _ => none

def negotiateVfApi : ℤ × Adapter :=
  match MboxApi.negotiable (msg 1) with
  | some api => (0, a.modifyVf vf fun v => { v with vfApi := api })
  | none => (-1, a)

/-- Those that `ixgbe_get_vf_queues` answers. -/
def MboxApi.queues : MboxApi → Bool
  | .api20 | .api11 | .api12 | .api13 | .api16 | .api17 => true
  | _ => false

/-- The API versions with the requests of version 1.2. -/
def MboxApi.since12 : MboxApi → Bool
  | .api12 | .api13 | .api16 | .api17 => true
  | _ => false

def getVfQueues : ℤ × MsgBuf :=
  let v := a.vfinfo vf
  let numTcs := a.netdev.numTc
  if v.vfApi.queues = false then (-1, msg)
  else
    let defaultTc := if numTcs > 1 then a.netdev.prioTcMap a.pf.defaultUp else 0
    let transVlan := if numTcs ≠ 0 then numTcs else if v.pfVlan ≠ 0 ∨ v.pfQos ≠ 0 then 1 else 0
    let msg := Function.update msg 1 (BitVec.ofNat 32 cfg.qPerPool)
    let msg := Function.update msg 2 (BitVec.ofNat 32 cfg.qPerPool)
    let msg := Function.update msg 3 (BitVec.ofNat 32 transVlan)
    (0, Function.update msg 4 (BitVec.ofNat 32 defaultTc))

/-- `ixgbe_rss_indir_tbl_entries`, with SR-IOV on. -/
def rssIndirTblEntries : ℕ :=
  if cfg.macType.rank < MacType.macX550.rank then 128 else 64

def packReta (reta : ℕ → BitVec 8) (i : ℕ) : U32 :=
  (range 16).foldl
    (fun w j => w ||| ((reta (16 * i + j) &&& 0x3).setWidth 32) <<< (2 * j)) 0

def getVfReta : ℤ × MsgBuf :=
  let v := a.vfinfo vf
  if v.rssQueryEnabled = false then (ePerm, msg)
  else if v.vfApi.since12 = false then (eOpNotSupp, msg)
  else
    (0, fun k => if 1 ≤ k ∧ k < 1 + rssIndirTblEntries cfg / 16 then
        packReta a.pf.rssIndirTbl (k - 1) else msg k)

def getVfRssKey : ℤ × MsgBuf :=
  let v := a.vfinfo vf
  if v.rssQueryEnabled = false then (ePerm, msg)
  else if v.vfApi.since12 = false then (eOpNotSupp, msg)
  else (0, fun k => if 1 ≤ k ∧ k < 11 then a.pf.rssKey (k - 1) else msg k)

def getVfLinkState : ℤ × MsgBuf :=
  let v := a.vfinfo vf
  if v.vfApi.since12 = false then (eOpNotSupp, msg)
  else (0, Function.update msg 1 (if v.linkEnable then 1 else 0))

def getVfLinkStatus : ℤ × MsgBuf :=
  let api := (a.vfinfo vf).vfApi
  if (api = .api16 ∨ api = .api17) ∧ cfg.macType = .macE610 then
    let msg := Function.update msg 1 a.pf.linkSpeed
    (0, Function.update msg 2 (if a.pf.linkUp then 1 else 0))
  else (eOpNotSupp, msg)

def negotiateVfFeatures : ℤ × MsgBuf :=
  if (a.vfinfo vf).vfApi = .api17 then (0, Function.update msg 1 (msg 1 &&& 0))
  else (eOpNotSupp, msg)

/-- The mode a message asks for. The word is read as a signed number. -/
def XcastMode.ofWord (w : U32) : Option XcastMode :=
  match w.toNat with
  | 0 => some .none
  | 1 => some .multi
  | 2 => some .allmulti
  | 3 => some .promisc
  | _ => Option.none

def XcastMode.disable : XcastMode → U32
  | .none => vmolrBam ||| vmolrRompe ||| vmolrMpe ||| vmolrUpe ||| vmolrVpe
  | .multi => vmolrMpe ||| vmolrUpe ||| vmolrVpe
  | .allmulti => vmolrUpe ||| vmolrVpe
  | .promisc => 0

def XcastMode.enable : XcastMode → U32
  | .none => 0
  | .multi => vmolrBam ||| vmolrRompe
  | .allmulti => vmolrBam ||| vmolrRompe ||| vmolrMpe
  | .promisc => vmolrBam ||| vmolrRompe ||| vmolrMpe ||| vmolrUpe ||| vmolrVpe

/-- An untrusted VF gets at most `multi`. -/
def clipXcast (trusted : Bool) (w : U32) : Option XcastMode :=
  if w.toInt > 1 ∧ trusted = false then some .multi else XcastMode.ofWord w

def updateVfXcastMode : ℤ × MsgBuf × Adapter :=
  let v := a.vfinfo vf
  -- promiscuous mode was introduced in version 1.3
  if v.vfApi.since12 = false ∨ v.vfApi = .api12 ∧ XcastMode.ofWord (msg 1) = some .promisc then
    (eOpNotSupp, msg, a)
  else
    match clipXcast v.trusted (msg 1) with
    | none => (eOpNotSupp, msg, a)
    | some mode =>
      let reply := Function.update msg 1 (BitVec.ofNat 32 mode.value)
      if v.xcastMode = mode then (0, reply, a)
      else if mode = .promisc ∧ cfg.macType = .mac82599EB then (eOpNotSupp, msg, a)
      -- a promiscuous VF requires a promiscuous PF
      else if mode = .promisc ∧ a.regs.fctrl &&& fctrlUpe = 0 then (ePerm, msg, a)
      else
        let a := a.writeVmolr vf ((a.vmolr vf &&& ~~~mode.disable) ||| mode.enable)
        (0, reply, a.modifyVf vf fun v => { v with xcastMode := mode })

def handleMsg : ℤ × MsgBuf × Adapter :=
  let keep := fun r : ℤ × Adapter => (r.1, msg, r.2)
  let query := fun r : ℤ × MsgBuf => (r.1, r.2, a)
  match VfMsg.ofWord (msg 0) with
  | some .setMacAddr => keep (setVfMacAddr cfg a msg vf)
  | some .setMulticast => keep (setVfMulticasts cfg a msg vf)
  | some .setVlan => keep (setVfVlanMsg cfg a msg vf)
  | some .setLpe => keep (setVfLpe cfg a (msg 1) vf)
  | some .setMacvlan => keep (setVfMacvlanMsg cfg a msg vf)
  | some .apiNegotiate => keep (negotiateVfApi a msg vf)
  | some .getQueues => query (getVfQueues cfg a msg vf)
  | some .getReta => query (getVfReta cfg a msg vf)
  | some .getRssKey => query (getVfRssKey a msg vf)
  | some .updateXcastMode => updateVfXcastMode cfg a msg vf
  | some .getLinkState => query (getVfLinkState a msg vf)
  | some .getPfLinkState => query (getVfLinkStatus cfg a msg vf)
  | some .featuresNegotiate => query (negotiateVfFeatures a msg vf)
  | none => (errMbx, msg, a)

/-- The request with the result and the clear-to-send bit. -/
def replyWord (ret : ℤ) (w : U32) : U32 :=
  (w ||| if ret ≠ 0 then msgtypeFailure else msgtypeSuccess) ||| msgtypeCts

/-- `read` is the status and the content that `ixgbe_read_mbx` returns. -/
def rcvMsgFromVf (read : ℤ × MsgBuf) : ℤ × Adapter :=
  let msg := read.2
  if read.1 ≠ 0 then (read.1, a)
  -- a message that was processed already
  else if msg 0 &&& (msgtypeSuccess ||| msgtypeFailure) ≠ 0 then (0, a)
  else if msg 0 = vfReset then (0, vfResetMsg cfg a vf)
  -- no configuration until the VF has completed a reset
  else if (a.vfinfo vf).clearToSend = false then (0, writeMbx a [msg 0 ||| msgtypeFailure] vf)
  else if VfMsg.ofWord (msg 0) = some .setLpe ∧ msg 1 > maxJumboFrameSize then (eInval, a)
  else
    let r := handleMsg cfg a msg vf
    let reply := (range vfMailboxSize).map (Function.update r.2.1 0 (replyWord r.1 (r.2.1 0)))
    (r.1, writeMbx r.2.2 reply vf)

end

end Ixgbe
