import Ixgbe.Sriov.Adapter

/-! # The PF's receive mode

`ixgbe_set_rx_mode` rewrites the PF's unicast filters, the multicast table and VLAN promiscuous
mode. -/

namespace Ixgbe

section

variable (cfg : AdapterCfg) (a : Adapter)

def macByte (addr : MacAddr) (i : ℕ) : U32 := (addr.extractLsb' (8 * i) 8).setWidth 32

/-- The 12 bits of the address that select a bit of the table. -/
def mtaVector (mcFilterType : ℕ) (addr : MacAddr) : U32 :=
  let vector : U32 :=
    match mcFilterType with
    | 0 => macByte addr 4 >>> 4 ||| macByte addr 5 <<< 4
    | 1 => macByte addr 4 >>> 3 ||| macByte addr 5 <<< 5
    | 2 => macByte addr 4 >>> 2 ||| macByte addr 5 <<< 6
    | 3 => macByte addr 4 ||| macByte addr 5 <<< 8
    | _ => 0
  vector &&& 0xFFF

def setMtaShadow (m : McState) (vector : U32) : McState :=
  let vectorReg := ((vector >>> 5) &&& 0x7F).toNat
  let vectorBit := (vector &&& 0x1F).toNat
  { m with
    mtaInUse := m.mtaInUse + 1
    mtaShadow := Function.update m.mtaShadow vectorReg (m.mtaShadow vectorReg ||| shl1 vectorBit) }

def setMta (mcFilterType : ℕ) (m : McState) (addr : MacAddr) : McState :=
  setMtaShadow m (mtaVector mcFilterType addr)

def mcftSize : ℕ := 128

def mcstctrlMfe : U32 := 0x4

def updateMcAddrListGeneric (mcFilterType : ℕ) (m : McState) (addrs : List MacAddr) : McState :=
  let m := addrs.foldl (setMta mcFilterType) { m with mtaInUse := 0 }
  let m := { m with mta := fun i => if i < mcftSize then m.mtaShadow i else m.mta i }
  if m.mtaInUse > 0 then { m with mcstctrl := mcstctrlMfe ||| BitVec.ofNat 32 mcFilterType } else m

/-- Its hashes into the shadow table, and `ROMPE` in its VMOLR. -/
def restoreVf (vfinfo : ℕ → VfDataStorage) (s : McState × (ℕ → U32)) (i : ℕ) :
    McState × (ℕ → U32) :=
  let vf := vfinfo i
  let m := (List.range vf.numVfMcHashes).foldl
    (fun m j => setMtaShadow m ((vf.vfMcHashes j).setWidth 32)) s.1
  let vmolr := if vf.numVfMcHashes ≠ 0 then s.2 i ||| vmolrRompe else s.2 i &&& ~~~vmolrRompe
  (m, Function.update s.2 i vmolr)

def restoreVfMulticasts : Adapter :=
  let s := (List.range cfg.numVfs).foldl (restoreVf a.vfinfo)
    ({ a.mcast with mtaShadow := fun _ => 0 }, a.vmolr)
  { a with mcast := s.1, vmolr := s.2, mac := fullSyncMacTable cfg.toRarCfg a.mac }

def writeMcAddrList : ℤ × Adapter :=
  if a.netdev.running = false then (0, a)
  else
    let a := restoreVfMulticasts cfg a
    (a.netdev.mc.length,
      { a with mcast := updateMcAddrListGeneric cfg.mcFilterType a.mcast a.netdev.mc })

def ucSync (t : MacFilter) (addr : MacAddr) : ℤ × MacFilter :=
  let r := addMacFilter cfg.toRarCfg t addr cfg.pf
  (min r.1 0, r.2)

def ucUnsync (t : MacFilter) (addr : MacAddr) : MacFilter :=
  (delMacFilter cfg.toRarCfg t addr cfg.pf).2

/-- Those that only the synchronisation still holds are taken out. -/
def flushStaleUc (cfg : AdapterCfg) (t : MacFilter) : List HwAddr → MacFilter × List HwAddr
  | [] => (t, [])
  | ha :: l =>
    if ha.syncCnt ≠ 0 ∧ ha.refcount = 1 then flushStaleUc cfg (ucUnsync cfg t ha.addr) l
    else
      let r := flushStaleUc cfg t l
      (r.1, ha :: r.2)

/-- New addresses are installed, up to the first failure. -/
def syncNewUc (cfg : AdapterCfg) (t : MacFilter) : List HwAddr → ℤ × MacFilter × List HwAddr
  | [] => (0, t, [])
  | ha :: l =>
    if ha.syncCnt ≠ 0 then
      let r := syncNewUc cfg t l
      (r.1, r.2.1, ha :: r.2.2)
    else
      let r := ucSync cfg t ha.addr
      if r.1 ≠ 0 then (r.1, r.2, ha :: l)
      else
        let s := syncNewUc cfg r.2 l
        (s.1, s.2.1, { ha with syncCnt := ha.syncCnt + 1, refcount := ha.refcount + 1 } :: s.2.2)

def devUcSync (t : MacFilter) (uc : List HwAddr) : ℤ × MacFilter × List HwAddr :=
  let r := flushStaleUc cfg t uc
  syncNewUc cfg r.1 r.2

/-- The addresses are marked as not installed. -/
def devUcUnsync (uc : List HwAddr) : List HwAddr :=
  uc.filterMap fun ha =>
    if ha.syncCnt = 0 then some ha
    else if ha.refcount - 1 ≠ 0 then
      some { ha with syncCnt := ha.syncCnt - 1, refcount := ha.refcount - 1 }
    else none

def fctrlMpe : U32 := 0x100

def fctrlUpe : U32 := 0x200

def fctrlBam : U32 := 0x400

def fctrlPmcf : U32 := 0x1000

def fctrlDpf : U32 := 0x2000

def rxdctlVme : U32 := 0x40000000

def vlanStripEnable : Adapter :=
  let rxdctl :=
    a.pf.rxRings.foldl (fun r j => Function.update r j (r j ||| rxdctlVme)) a.regs.rxdctl
  { a with regs.rxdctl := rxdctl }

def vlanStripDisable : Adapter :=
  -- VLAN tag stripping stays enabled for DCB
  if a.pf.dcbEnabled then a
  else
    let rxdctl :=
      a.pf.rxRings.foldl (fun r j => Function.update r j (r j &&& ~~~rxdctlVme)) a.regs.rxdctl
    { a with regs.rxdctl := rxdctl }

/-- Given the results of the unicast synchronisation and of the multicast table. -/
def rxModeFctrl (dev : NetDev) (ucErr mcCount : ℤ) (fctrl : U32) : U32 :=
  let fctrl := (fctrl ||| fctrlBam ||| fctrlDpf ||| fctrlPmcf) &&& ~~~(fctrlUpe ||| fctrlMpe)
  let fctrl :=
    if dev.promisc then fctrl ||| (fctrlUpe ||| fctrlMpe)
    else if dev.allmulti then fctrl ||| fctrlMpe
    else fctrl
  -- addresses that find no receive address register need unicast promiscuous mode
  let fctrl := if ucErr ≠ 0 then fctrl ||| fctrlUpe else fctrl
  if mcCount < 0 then fctrl ||| fctrlMpe else fctrl

def rxModeVmolr (dev : NetDev) (ucErr mcCount : ℤ) (old : U32) : U32 :=
  let vmolr := vmolrBam ||| vmolrAupe
  let vmolr := if dev.promisc || dev.allmulti then vmolr ||| vmolrMpe else vmolr
  let vmolr := if ucErr ≠ 0 then vmolr ||| vmolrRope else vmolr
  let vmolr :=
    if mcCount < 0 then vmolr ||| vmolrMpe
    else if mcCount ≠ 0 then vmolr ||| vmolrRompe
    else vmolr
  vmolr ||| (old &&& ~~~(vmolrMpe ||| vmolrRompe ||| vmolrRope))

def ucSyncAll : ℤ × Adapter :=
  let uc := devUcSync cfg a.mac a.netdev.uc
  (uc.1, { a with mac := uc.2.1, netdev.uc := uc.2.2 })

def finishRxMode (dev : NetDev) (a : Adapter) (vmolr fctrl : U32) : Adapter :=
  let a := a.writeVmolr cfg.pf vmolr
  let a := { a with regs.fctrl := fctrl }
  let a := if dev.ctagRx then vlanStripEnable a else vlanStripDisable a
  -- the PF's promiscuous mode also turns VLAN filtering off
  if dev.ctagFilter && !dev.promisc then { a with vlan := vlanPromiscDisable cfg.toPoolCfg a.vlan }
  else { a with vlan := vlanPromiscEnable cfg.toPoolCfg a.vlan }

def setRxMode : Adapter :=
  let uc := ucSyncAll cfg a
  let mc := writeMcAddrList cfg uc.2
  finishRxMode cfg a.netdev mc.2 (rxModeVmolr a.netdev uc.1 mc.1 (mc.2.vmolr cfg.pf))
    (rxModeFctrl a.netdev uc.1 mc.1 a.regs.fctrl)

end

section

variable {cfg : AdapterCfg} {a : Adapter}

theorem foldl_restoreVf_vmolr (vfinfo : ℕ → VfDataStorage) (s : McState × (ℕ → U32)) (n j : ℕ) :
    ((List.range n).foldl (restoreVf vfinfo) s).2 j =
      if j < n then
        (if (vfinfo j).numVfMcHashes ≠ 0 then s.2 j ||| vmolrRompe else s.2 j &&& ~~~vmolrRompe)
      else s.2 j := by
  induction n with
  | zero => simp
  | succ n ih =>
    rw [List.range_succ, List.foldl_append, List.foldl_cons, List.foldl_nil, restoreVf]
    by_cases hj : j = n
    · subst hj
      rw [if_neg (lt_irrefl j)] at ih
      simp only [Function.update_self, ih, if_pos (Nat.lt_succ_self j)]
    · have hlt : j < n + 1 ↔ j < n := by omega
      simp only [Function.update_of_ne hj, ih, hlt]

@[simp] theorem writeMcAddrList_vfinfo : (writeMcAddrList cfg a).2.vfinfo = a.vfinfo := by
  unfold writeMcAddrList
  split <;> rfl

@[simp] theorem writeMcAddrList_mvs : (writeMcAddrList cfg a).2.mvs = a.mvs := by
  unfold writeMcAddrList
  split <;> rfl

@[simp] theorem writeMcAddrList_netdev : (writeMcAddrList cfg a).2.netdev = a.netdev := by
  unfold writeMcAddrList
  split <;> rfl

@[simp] theorem writeMcAddrList_vlan : (writeMcAddrList cfg a).2.vlan = a.vlan := by
  unfold writeMcAddrList
  split <;> rfl

@[simp] theorem writeMcAddrList_mac : (writeMcAddrList cfg a).2.mac =
    if a.netdev.running then fullSyncMacTable cfg.toRarCfg a.mac else a.mac := by
  unfold writeMcAddrList
  cases a.netdev.running <;> rfl

theorem writeMcAddrList_vmolr (j : ℕ) : (writeMcAddrList cfg a).2.vmolr j =
    if a.netdev.running = true ∧ j < cfg.numVfs then
      (if (a.vfinfo j).numVfMcHashes ≠ 0 then a.vmolr j ||| vmolrRompe
        else a.vmolr j &&& ~~~vmolrRompe)
    else a.vmolr j := by
  unfold writeMcAddrList
  cases a.netdev.running with
  | false => simp
  | true =>
    have h := foldl_restoreVf_vmolr a.vfinfo ({ a.mcast with mtaShadow := fun _ => 0 }, a.vmolr)
      cfg.numVfs j
    simpa [restoreVfMulticasts] using h

theorem vlanStrip_cases (on : Bool) (a : Adapter) :
    ∃ r : ℕ → U32, (if on then vlanStripEnable a else vlanStripDisable a) =
      { a with regs.rxdctl := r } := by
  cases on with
  | true => exact ⟨_, rfl⟩
  | false =>
    rw [if_neg (by decide), vlanStripDisable]
    by_cases hd : a.pf.dcbEnabled = true
    · exact ⟨a.regs.rxdctl, by rw [if_pos hd]⟩
    · exact ⟨_, by rw [if_neg hd]⟩

theorem finishRxMode_eq (cfg : AdapterCfg) (dev : NetDev) (b : Adapter) (x fctrl : U32) :
    ∃ r : HwRegs,
    finishRxMode cfg dev b x fctrl =
      { b.writeVmolr cfg.pf x with
        regs := r
        vlan := if dev.ctagFilter && !dev.promisc then vlanPromiscDisable cfg.toPoolCfg b.vlan
          else vlanPromiscEnable cfg.toPoolCfg b.vlan } := by
  obtain ⟨r, hr⟩ := vlanStrip_cases dev.ctagRx { b.writeVmolr cfg.pf x with regs.fctrl := fctrl }
  refine ⟨{ b.regs with fctrl := fctrl, rxdctl := r }, ?_⟩
  unfold finishRxMode
  dsimp only
  rw [hr]
  cases dev.ctagFilter && !dev.promisc with
  | true =>
    rw [if_pos rfl, if_pos rfl]
    dsimp only [Adapter.writeVmolr]
  | false =>
    rw [if_neg (by decide), if_neg (by decide)]
    dsimp only [Adapter.writeVmolr]

/-- **Effect of `ixgbe_set_rx_mode`** on the unicast list, the multicast table, the PF's VMOLR and
VLAN promiscuous mode. -/
theorem setRxMode_eq (cfg : AdapterCfg) (a : Adapter) : ∃ (x : U32) (r : HwRegs),
    setRxMode cfg a =
      { (writeMcAddrList cfg (ucSyncAll cfg a).2).2.writeVmolr cfg.pf x with
        regs := r
        vlan := if a.netdev.ctagFilter && !a.netdev.promisc then
            vlanPromiscDisable cfg.toPoolCfg a.vlan
          else vlanPromiscEnable cfg.toPoolCfg a.vlan } := by
  have hvlan : (writeMcAddrList cfg (ucSyncAll cfg a).2).2.vlan = a.vlan := writeMcAddrList_vlan
  rw [setRxMode]
  generalize writeMcAddrList cfg (ucSyncAll cfg a).2 = mc at hvlan
  obtain ⟨r, hr⟩ := finishRxMode_eq cfg a.netdev mc.2
    (rxModeVmolr a.netdev (ucSyncAll cfg a).1 mc.1 (mc.2.vmolr cfg.pf))
    (rxModeFctrl a.netdev (ucSyncAll cfg a).1 mc.1 a.regs.fctrl)
  rw [hvlan] at hr
  exact ⟨_, r, hr⟩

@[simp] theorem setRxMode_vfinfo : (setRxMode cfg a).vfinfo = a.vfinfo := by
  obtain ⟨x, r, h⟩ := setRxMode_eq cfg a
  rw [h]
  exact writeMcAddrList_vfinfo

@[simp] theorem setRxMode_mvs : (setRxMode cfg a).mvs = a.mvs := by
  obtain ⟨x, r, h⟩ := setRxMode_eq cfg a
  rw [h]
  exact writeMcAddrList_mvs

@[simp] theorem setRxMode_netdev : (setRxMode cfg a).netdev =
    { a.netdev with uc := (devUcSync cfg a.mac a.netdev.uc).2.2 } := by
  obtain ⟨x, r, h⟩ := setRxMode_eq cfg a
  rw [h]
  exact writeMcAddrList_netdev

theorem setRxMode_mac : (setRxMode cfg a).mac =
    if a.netdev.running then fullSyncMacTable cfg.toRarCfg (devUcSync cfg a.mac a.netdev.uc).2.1
    else (devUcSync cfg a.mac a.netdev.uc).2.1 := by
  obtain ⟨x, r, h⟩ := setRxMode_eq cfg a
  rw [h]
  exact writeMcAddrList_mac

theorem setRxMode_vlan : (setRxMode cfg a).vlan =
    if a.netdev.ctagFilter && !a.netdev.promisc then vlanPromiscDisable cfg.toPoolCfg a.vlan
    else vlanPromiscEnable cfg.toPoolCfg a.vlan := by
  obtain ⟨x, r, h⟩ := setRxMode_eq cfg a
  rw [h]

theorem setRxMode_vmolr {j : ℕ} (hj : j < cfg.numVfs) : (setRxMode cfg a).vmolr j =
    if a.netdev.running then
      (if (a.vfinfo j).numVfMcHashes ≠ 0 then a.vmolr j ||| vmolrRompe
        else a.vmolr j &&& ~~~vmolrRompe)
    else a.vmolr j := by
  obtain ⟨x, r, h⟩ := setRxMode_eq cfg a
  have hne : j ≠ cfg.pf := cfg.vf_ne_pf ⟨j, hj⟩
  rw [h]
  dsimp only [Adapter.writeVmolr]
  rw [Function.update_of_ne hne, writeMcAddrList_vmolr]
  simp only [ucSyncAll, hj, and_true]
  rfl

end

end Ixgbe
