import Ixgbe.Sriov.Admin
import Ixgbe.Vlan.Bystander

/-! # What the SR-IOV routines change

One description per routine, component by component, so that the proofs about runs never unfold a
handler. -/

namespace Ixgbe

open IndexedTable Function VfMsg

theorem clipXcast_untrusted {w : U32} {mode : XcastMode} (h : clipXcast false w = some mode) :
    mode = .none ∨ mode = .multi := by
  rw [clipXcast] at h
  by_cases hw : w.toInt > 1
  · rw [if_pos ⟨hw, rfl⟩] at h
    exact .inr (Option.some.inj h).symm
  · rw [if_neg fun hc => hw hc.1, XcastMode.ofWord] at h
    have hsmall : w.toNat ≠ 2 ∧ w.toNat ≠ 3 := by
      rw [BitVec.toInt_eq_toNat_cond] at hw
      split_ifs at hw <;> omega
    split at h
    · exact .inl (Option.some.inj h).symm
    · exact .inr (Option.some.inj h).symm
    · exact absurd ‹w.toNat = 2› hsmall.1
    · exact absurd ‹w.toNat = 3› hsmall.2
    · exact absurd h (by simp)

section

variable {cfg : AdapterCfg} {a : Adapter} {vf : ℕ}

section

variable (cfg : AdapterCfg) (a : Adapter) (vf : ℕ)

theorem rcvMsgFromVf_ignored {read : ℤ × MsgBuf}
    (h : read.1 ≠ 0 ∨ read.2 0 &&& (msgtypeSuccess ||| msgtypeFailure) ≠ 0) :
    (rcvMsgFromVf cfg a vf read).2 = a := by
  unfold rcvMsgFromVf
  by_cases h1 : read.1 ≠ 0
  · rw [if_pos h1]
  · rw [if_neg h1, if_pos (h.resolve_left h1)]

theorem rcvMsgFromVf_reset {msg : MsgBuf}
    (h : msg 0 = vfReset) : (rcvMsgFromVf cfg a vf (0, msg)).2 = vfResetMsg cfg a vf := by
  unfold rcvMsgFromVf
  dsimp only
  rw [if_neg (not_not.mpr rfl), h, if_neg (by decide), if_pos rfl]

end

theorem rcvMsgFromVf_accepted {msg : MsgBuf} {k : VfMsg}
    (htype : msg 0 &&& (msgtypeSuccess ||| msgtypeFailure) = 0)
    (hcts : (a.vfinfo vf).clearToSend = true) (hmsg : ofWord (msg 0) = some k)
    (hk : k ≠ .setLpe) : ∃ m : Mbx,
      (rcvMsgFromVf cfg a vf (0, msg)).2 = { (handleMsg cfg a msg vf).2.2 with mbx := m } := by
  have hreset : ¬ msg 0 = vfReset := fun hc => by
    rw [hc] at hmsg
    exact absurd hmsg (by simp [ofWord, vfReset])
  have hlpe : ¬ (ofWord (msg 0) = some .setLpe ∧ msg 1 > maxJumboFrameSize) := fun hc =>
    hk (Option.some.inj (hmsg.symm.trans hc.1))
  unfold rcvMsgFromVf
  rw [if_neg (not_not.mpr rfl), if_neg (not_not.mpr htype), if_neg hreset,
    if_neg (by rw [hcts]; decide), if_neg hlpe]
  exact ⟨_, rfl⟩

theorem setVfMac_vfinfo (addr : MacAddr) : (setVfMac cfg a vf addr).2.vfinfo =
    update a.vfinfo vf
      { a.vfinfo vf with
        vfMacAddresses := if (setVfMac cfg a vf addr).1 ≥ 0 then addr else 0 } := rfl

theorem setVfMacAddr_cases (cfg : AdapterCfg) (a : Adapter) (vf : ℕ) (msg : MsgBuf) :
    (setVfMacAddr cfg a msg vf).2 = a ∨ isValidEtherAddr (msgMac msg) = true ∧
      ((a.vfinfo vf).pfSetMac = true → (a.vfinfo vf).trusted = false →
        (a.vfinfo vf).vfMacAddresses = msgMac msg) ∧
      (setVfMacAddr cfg a msg vf).2 = (setVfMac cfg a vf (msgMac msg)).2 := by
  unfold setVfMacAddr
  by_cases h1 : isValidEtherAddr (msgMac msg) = false
  · rw [if_pos h1]
    exact .inl rfl
  rw [if_neg h1]
  split
  · exact .inl rfl
  rename_i h2
  refine .inr ⟨by simpa using h1, fun hset htr => ?_, rfl⟩
  by_contra hne
  exact h2 ⟨hset, htr, hne⟩

theorem setVfMacAddr_self {msg : MsgBuf} {addr : MacAddr} (hvalid : isValidEtherAddr addr = true)
    (hmsg : msgMac msg = addr) (hold : (a.vfinfo vf).vfMacAddresses = addr) :
    (setVfMacAddr cfg a msg vf).2 = (setVfMac cfg a vf addr).2 := by
  unfold setVfMacAddr
  rw [hmsg, if_neg (by rw [hvalid]; decide), if_neg fun h => h.2.2 hold]

theorem setVfMacvlanMsg_cases (cfg : AdapterCfg) (a : Adapter) (vf : ℕ) (msg : MsgBuf) :
    (setVfMacvlanMsg cfg a msg vf).2 = a ∨
      (msgInfo msg ≠ 0 → isValidEtherAddr (msgMac msg) = true) ∧
      ∃ r : HwRegs, (setVfMacvlanMsg cfg a msg vf).2 =
        (setVfMacvlan cfg { a with regs := r } vf (msgInfo msg) (msgMac msg)).2 := by
  unfold setVfMacvlanMsg
  by_cases h1 : (a.vfinfo vf).pfSetMac = true ∧ (a.vfinfo vf).trusted = false ∧ msgInfo msg > 0
  · rw [if_pos h1]
    exact .inl rfl
  rw [if_neg h1]
  split
  · exact .inl rfl
  rename_i h2
  refine .inr ⟨fun h => ?_, ?_⟩
  · by_contra hv
    exact h2 ⟨h, by simpa using hv⟩
  · split
    · exact ⟨_, rfl⟩
    · exact ⟨a.regs, rfl⟩

/-- What `ixgbe_set_vf_macvlan` does once a first request has released the list. -/
inductive MacvlanStep (cfg : AdapterCfg) (vf : ℕ) (addr : MacAddr) (a : Adapter) : Adapter → Prop
  | same : MacvlanStep cfg vf addr a a
  | refused (hneg : (addMacFilter cfg.toRarCfg a.mac addr vf).1 < 0) :
      MacvlanStep cfg vf addr a { a with mac := (addMacFilter cfg.toRarCfg a.mac addr vf).2 }
  | entered {i : ℕ} (hi : i < cfg.numVfMacvlans) (hfree : (a.mvs i).free = true)
      (hok : 0 ≤ (addMacFilter cfg.toRarCfg a.mac addr vf).1) :
      MacvlanStep cfg vf addr a
        { a with
          mac := (addMacFilter cfg.toRarCfg a.mac addr vf).2
          mvs := Function.update a.mvs i ⟨some vf, false, true, addr⟩ }

theorem setVfMacvlan_step (cfg : AdapterCfg) (a : Adapter) (vf index : ℕ) (addr : MacAddr) :
    ∃ b, (b = releaseMacvlans cfg a vf ∨ b = a) ∧
      MacvlanStep cfg vf addr b (setVfMacvlan cfg a vf index addr).2 := by
  refine ⟨if index ≤ 1 then releaseMacvlans cfg a vf else a, ?_, ?_⟩
  · split_ifs
    · exact .inl rfl
    · exact .inr rfl
  unfold setVfMacvlan
  generalize (if index ≤ 1 then releaseMacvlans cfg a vf else a) = b
  by_cases h0 : index = 0
  · rw [if_pos h0]
    exact .same
  rw [if_neg h0]
  cases hf : first cfg.numVfMacvlans VfMacvlans.free b.mvs with
  | none => exact .same
  | some i =>
    dsimp only
    split
    case isTrue hneg =>
      exact .refused hneg
    case isFalse hneg =>
      exact .entered (first_some hf).1 (first_some hf).2 (not_lt.mp hneg)

theorem setVfMacvlan_frame (cfg : AdapterCfg) (a : Adapter) (vf : ℕ) (index : ℕ) (addr : MacAddr) :
    ∃ (mvs : ℕ → VfMacvlans) (mac : MacFilter),
      (setVfMacvlan cfg a vf index addr).2 = { a with mvs := mvs, mac := mac } := by
  obtain ⟨b, hb, hstep⟩ := setVfMacvlan_step cfg a vf index addr
  obtain ⟨mvs, mac, rfl⟩ : ∃ (mvs : ℕ → VfMacvlans) (mac : MacFilter),
      b = { a with mvs := mvs, mac := mac } := by
    rcases hb with rfl | rfl
    · exact ⟨_, _, rfl⟩
    · exact ⟨b.mvs, b.mac, rfl⟩
  generalize (setVfMacvlan cfg a vf index addr).2 = a' at hstep ⊢
  cases hstep with
  | same => exact ⟨mvs, mac, rfl⟩
  | refused => exact ⟨mvs, _, rfl⟩
  | entered => exact ⟨_, _, rfl⟩

theorem setVfMacvlan_vfinfo (index : ℕ) (addr : MacAddr) :
    (setVfMacvlan cfg a vf index addr).2.vfinfo = a.vfinfo := by
  obtain ⟨mvs, mac, h⟩ := setVfMacvlan_frame cfg a vf index addr
  rw [h]

theorem setVfMacvlan_vlan (index : ℕ) (addr : MacAddr) :
    (setVfMacvlan cfg a vf index addr).2.vlan = a.vlan := by
  obtain ⟨mvs, mac, h⟩ := setVfMacvlan_frame cfg a vf index addr
  rw [h]

theorem setVfMacvlan_vmolr (index : ℕ) (addr : MacAddr) :
    (setVfMacvlan cfg a vf index addr).2.vmolr = a.vmolr := by
  obtain ⟨mvs, mac, h⟩ := setVfMacvlan_frame cfg a vf index addr
  rw [h]

theorem setVfLpe_frame (cfg : AdapterCfg) (a : Adapter) (vf : ℕ) (maxFrame : U32) : ∃ r : HwRegs,
    (setVfLpe cfg a maxFrame vf).2 = { a with regs := r } := by
  unfold setVfLpe
  dsimp only
  split_ifs <;> exact ⟨_, rfl⟩

theorem setVfVlanMsg_cases (cfg : AdapterCfg) (a : Adapter) (vf : ℕ) (msg : MsgBuf) :
    (setVfVlanMsg cfg a msg vf).2 = a ∨
      (a.vfinfo vf).pfVlan = 0 ∧ ∃ (add : Bool) (vid : ℕ), vid ≤ 4095 ∧
      (setVfVlanMsg cfg a msg vf).2 =
        { a with vlan := (setVfVlan cfg.toPoolCfg a.vlan add vid vf).2 } := by
  unfold setVfVlanMsg
  split
  · exact .inl rfl
  rename_i h1
  by_cases h2 : (msg 1 &&& 0xFFF).toNat = 0 ∧ msgInfo msg = 0
  · rw [if_pos h2]
    exact .inl rfl
  rw [if_neg h2]
  rw [not_or, not_not] at h1
  refine .inr ⟨h1.1, _, _, ?_, rfl⟩
  exact Nat.and_le_right

theorem negotiateVfApi_cases (a : Adapter) (vf : ℕ) (msg : MsgBuf) :
    (negotiateVfApi a msg vf).2 = a ∨ ∃ api : MboxApi, (negotiateVfApi a msg vf).2 =
      a.modifyVf vf fun v => { v with vfApi := api } := by
  unfold negotiateVfApi
  split
  · exact .inr ⟨_, rfl⟩
  · exact .inl rfl

theorem updateVfXcastMode_cases (cfg : AdapterCfg) (a : Adapter) (vf : ℕ) (msg : MsgBuf) :
    (updateVfXcastMode cfg a msg vf).2.2 = a ∨
      ∃ mode : XcastMode,
        ((a.vfinfo vf).trusted = false → mode = .none ∨ mode = .multi) ∧
        (a.vfinfo vf).xcastMode ≠ mode ∧
        (updateVfXcastMode cfg a msg vf).2.2 =
          (a.writeVmolr vf ((a.vmolr vf &&& ~~~mode.disable) ||| mode.enable)).modifyVf vf
            fun v => { v with xcastMode := mode } := by
  unfold updateVfXcastMode
  dsimp only
  split_ifs with h1
  · exact .inl rfl
  cases hclip : clipXcast (a.vfinfo vf).trusted (msg 1) with
  | none => exact .inl rfl
  | some mode =>
    dsimp only
    split_ifs with h2 h3 h4
    · exact .inl rfl
    · exact .inl rfl
    · exact .inl rfl
    · exact .inr ⟨mode, fun htr => clipXcast_untrusted (htr ▸ hclip), h2, rfl⟩

/-- The messages, each with the adapter that its handler leaves. -/
inductive Handled (cfg : AdapterCfg) (a : Adapter) (vf : ℕ) (msg : MsgBuf) : Adapter → Prop
  | same : Handled cfg a vf msg a
  | reset (hmsg : msg 0 = vfReset) : Handled cfg a vf msg (vfResetMsg cfg a vf)
  | mac (hcts : (a.vfinfo vf).clearToSend = true)
      (hmsg : ofWord (msg 0) = some .setMacAddr)
      (hvalid : isValidEtherAddr (msgMac msg) = true)
      (hadmin : (a.vfinfo vf).pfSetMac = true → (a.vfinfo vf).trusted = false →
        (a.vfinfo vf).vfMacAddresses = msgMac msg) :
      Handled cfg a vf msg (setVfMac cfg a vf (msgMac msg)).2
  | multicast (hcts : (a.vfinfo vf).clearToSend = true)
      (hmsg : ofWord (msg 0) = some .setMulticast) :
      Handled cfg a vf msg (setVfMulticasts cfg a msg vf).2
  | vlan (hpv : (a.vfinfo vf).pfVlan = 0) (add : Bool) (vid : ℕ) (hv : vid ≤ 4095) :
      Handled cfg a vf msg { a with vlan := (setVfVlan cfg.toPoolCfg a.vlan add vid vf).2 }
  | frameSize (r : HwRegs) : Handled cfg a vf msg { a with regs := r }
  | macvlan (r : HwRegs) (hvalid : msgInfo msg ≠ 0 → isValidEtherAddr (msgMac msg) = true) :
      Handled cfg a vf msg
        (setVfMacvlan cfg { a with regs := r } vf (msgInfo msg) (msgMac msg)).2
  | api (api : MboxApi) :
      Handled cfg a vf msg (a.modifyVf vf fun v => { v with vfApi := api })
  | xcast (mode : XcastMode)
      (hmode : (a.vfinfo vf).trusted = false → mode = .none ∨ mode = .multi) :
      Handled cfg a vf msg
        ((a.writeVmolr vf ((a.vmolr vf &&& ~~~mode.disable) ||| mode.enable)).modifyVf vf
          fun v => { v with xcastMode := mode })

theorem handleMsg_handled (msg : MsgBuf) (hcts : (a.vfinfo vf).clearToSend = true) :
    Handled cfg a vf msg (handleMsg cfg a msg vf).2.2 := by
  unfold handleMsg
  cases hk : ofWord (msg 0) with
  | none => exact .same
  | some k =>
    cases k with
    | setMacAddr =>
      dsimp only
      rcases setVfMacAddr_cases cfg a vf msg with h | ⟨hvalid, hadmin, h⟩ <;> rw [h]
      · exact .same
      · exact .mac hcts hk hvalid hadmin
    | setMulticast => exact .multicast hcts hk
    | setVlan =>
      dsimp only
      rcases setVfVlanMsg_cases cfg a vf msg with h | ⟨hpv, add, vid, hv, h⟩ <;> rw [h]
      · exact .same
      · exact .vlan hpv add vid hv
    | setLpe =>
      obtain ⟨r, h⟩ := setVfLpe_frame cfg a vf (msg 1)
      dsimp only
      rw [h]
      exact .frameSize r
    | setMacvlan =>
      dsimp only
      rcases setVfMacvlanMsg_cases cfg a vf msg with h | ⟨hvalid, r, h⟩ <;> rw [h]
      · exact .same
      · exact .macvlan r hvalid
    | apiNegotiate =>
      dsimp only
      rcases negotiateVfApi_cases a vf msg with h | ⟨api, h⟩ <;> rw [h]
      · exact .same
      · exact .api api
    | updateXcastMode =>
      dsimp only
      rcases updateVfXcastMode_cases cfg a vf msg with h | ⟨mode, hmode, -, h⟩ <;> rw [h]
      · exact .same
      · exact .xcast mode hmode
    | getQueues => exact .same
    | getReta => exact .same
    | getRssKey => exact .same
    | getLinkState => exact .same
    | getPfLinkState => exact .same
    | featuresNegotiate => exact .same

theorem rcvMsgFromVf_handled (cfg : AdapterCfg) (a : Adapter) (vf : ℕ) (read : ℤ × MsgBuf) :
    ∃ (b : Adapter) (m : Mbx), Handled cfg a vf read.2 b ∧
      (rcvMsgFromVf cfg a vf read).2 = { b with mbx := m } := by
  unfold rcvMsgFromVf
  dsimp only
  split_ifs with h1 h2 h3 h4 h₅
  · exact ⟨a, a.mbx, .same, rfl⟩
  · exact ⟨a, a.mbx, .same, rfl⟩
  · exact ⟨_, _, .reset h3, rfl⟩
  · exact ⟨a, _, .same, rfl⟩
  · exact ⟨a, a.mbx, .same, rfl⟩
  · exact ⟨_, _, handleMsg_handled read.2 (by simpa using h4), rfl⟩

theorem vfResetEvent_eq (cfg : AdapterCfg) (a : Adapter) (vf : ℕ) : ∃ (r : HwRegs) (m : Mbx),
    vfResetEvent cfg a vf =
      { (releaseMacvlans cfg
          { setRxMode cfg (resetVfDefaults cfg a vf) with
            mac := (delMacFilter cfg.toRarCfg (setRxMode cfg (resetVfDefaults cfg a vf)).mac
              ((setRxMode cfg (resetVfDefaults cfg a vf)).vfinfo vf).vfMacAddresses vf).2 }
          vf).modifyVf vf fun v => { v with vfApi := .api10 } with
        regs := r
        mbx := m } := by
  unfold vfResetEvent
  split
  · exact ⟨_, _, rfl⟩
  · exact ⟨_, _, rfl⟩

theorem resetVfDefaults_vfinfo : (resetVfDefaults cfg a vf).vfinfo =
    update a.vfinfo vf { a.vfinfo vf with numVfMcHashes := 0 } := rfl

theorem vfResetEvent_vfinfo : (vfResetEvent cfg a vf).vfinfo =
    update a.vfinfo vf { a.vfinfo vf with numVfMcHashes := 0, vfApi := .api10 } := by
  obtain ⟨r, m, h⟩ := vfResetEvent_eq cfg a vf
  rw [h]
  change update (setRxMode cfg (resetVfDefaults cfg a vf)).vfinfo vf
    { (setRxMode cfg (resetVfDefaults cfg a vf)).vfinfo vf with vfApi := .api10 } = _
  rw [setRxMode_vfinfo, resetVfDefaults_vfinfo, update_self, update_idem]

theorem vfResetEvent_vlan : (vfResetEvent cfg a vf).vlan =
    if a.netdev.ctagFilter && !a.netdev.promisc then
      vlanPromiscDisable cfg.toPoolCfg (resetVfVlan cfg a vf).vlan
    else vlanPromiscEnable cfg.toPoolCfg (resetVfVlan cfg a vf).vlan := by
  obtain ⟨r, m, h⟩ := vfResetEvent_eq cfg a vf
  rw [h]
  exact setRxMode_vlan

theorem vfResetEvent_netdev : (vfResetEvent cfg a vf).netdev =
    { a.netdev with uc := (devUcSync cfg a.mac a.netdev.uc).2.2 } := by
  obtain ⟨r, m, h⟩ := vfResetEvent_eq cfg a vf
  rw [h]
  exact setRxMode_netdev

/-- The filter table between the receive mode and the removal of the VF's macvlans. -/
def resetMac (cfg : AdapterCfg) (a : Adapter) (vf : ℕ) : MacFilter :=
  let t := (devUcSync cfg a.mac a.netdev.uc).2.1
  let t := if a.netdev.running then fullSyncMacTable cfg.toRarCfg t else t
  (delMacFilter cfg.toRarCfg t (a.vfinfo vf).vfMacAddresses vf).2

theorem vfResetEvent_filters (cfg : AdapterCfg) (a : Adapter) (vf : ℕ) :
    ((vfResetEvent cfg a vf).mvs, (vfResetEvent cfg a vf).mac) =
      (List.range cfg.numVfMacvlans).foldl (releaseMacvlan cfg vf) (a.mvs, resetMac cfg a vf) := by
  obtain ⟨r, m, h⟩ := vfResetEvent_eq cfg a vf
  have hmac : (setRxMode cfg (resetVfDefaults cfg a vf)).vfinfo vf =
      { a.vfinfo vf with numVfMcHashes := 0 } := by
    rw [setRxMode_vfinfo, resetVfDefaults_vfinfo, update_self]
  rw [h]
  change (List.range cfg.numVfMacvlans).foldl (releaseMacvlan cfg vf)
    ((setRxMode cfg (resetVfDefaults cfg a vf)).mvs, _) = _
  rw [setRxMode_mvs, hmac, setRxMode_mac]
  rfl

theorem vfResetEvent_vmolr {j : ℕ} (hj : j < cfg.numVfs) : (vfResetEvent cfg a vf).vmolr j =
    if a.netdev.running then
      (if ((resetVfDefaults cfg a vf).vfinfo j).numVfMcHashes ≠ 0 then
        (resetVfDefaults cfg a vf).vmolr j ||| vmolrRompe
        else (resetVfDefaults cfg a vf).vmolr j &&& ~~~vmolrRompe)
    else (resetVfDefaults cfg a vf).vmolr j := by
  obtain ⟨r, m, h⟩ := vfResetEvent_eq cfg a vf
  rw [h]
  exact setRxMode_vmolr hj

theorem resetVfDefaults_vmolr : (resetVfDefaults cfg a vf).vmolr =
    update a.vmolr vf
      (if (a.vfinfo vf).pfVlan = 0 then a.vmolr vf ||| vmolrBam ||| vmolrAupe
        else (a.vmolr vf ||| vmolrBam) &&& ~~~vmolrAupe) := by
  change update a.vmolr vf (if decide ((a.vfinfo vf).pfVlan = 0) = true then
    a.vmolr vf ||| vmolrBam ||| vmolrAupe else (a.vmolr vf ||| vmolrBam) &&& ~~~vmolrAupe) = _
  simp only [decide_eq_true_eq]

theorem enableVf_eq (cfg : AdapterCfg) (b : Adapter) (vf : ℕ) : ∃ r : HwRegs,
    enableVf cfg b vf = { b.modifyVf vf fun v => { v with clearToSend := true } with regs := r } :=
  ⟨_, rfl⟩

section

variable (cfg : AdapterCfg) (a : Adapter)

theorem vfResetMsg_eq (vf : ℕ) : ∃ (r : HwRegs) (m : Mbx),
    vfResetMsg cfg a vf =
      { (restoreVfMac cfg (vfResetEvent cfg a vf) vf).modifyVf vf
          fun v => { v with clearToSend := true } with
        regs := r
        mbx := m } := by
  obtain ⟨r, hr⟩ := enableVf_eq cfg (restoreVfMac cfg (vfResetEvent cfg a vf) vf) vf
  rw [vfResetMsg, hr]
  exact ⟨_, _, rfl⟩

structure AdminSame (v v' : VfDataStorage) : Prop where
  pfVlan : v'.pfVlan = v.pfVlan
  pfQos : v'.pfQos = v.pfQos
  pfSetMac : v'.pfSetMac = v.pfSetMac
  trusted : v'.trusted = v.trusted
  linkEnable : v'.linkEnable = v.linkEnable
  spoofchkEnabled : v'.spoofchkEnabled = v.spoofchkEnabled
  rssQueryEnabled : v'.rssQueryEnabled = v.rssQueryEnabled

theorem AdminSame.refl (v : VfDataStorage) : AdminSame v v := ⟨rfl, rfl, rfl, rfl, rfl, rfl, rfl⟩

def ModifiesVf (vf : ℕ) (f g : ℕ → VfDataStorage) : Prop :=
  ∃ v, g = Function.update f vf v ∧ AdminSame (f vf) v

theorem ModifiesVf.refl (vf : ℕ) (f : ℕ → VfDataStorage) : ModifiesVf vf f f :=
  ⟨f vf, (update_eq_self vf f).symm, .refl _⟩

theorem ModifiesVf.trans {f g h : ℕ → VfDataStorage} (h1 : ModifiesVf vf f g)
    (h2 : ModifiesVf vf g h) : ModifiesVf vf f h := by
  obtain ⟨v, rfl, hv⟩ := h1
  obtain ⟨v', rfl, hv'⟩ := h2
  rw [update_self] at hv'
  refine ⟨v', update_idem v v' f, ⟨?_, ?_, ?_, ?_, ?_, ?_, ?_⟩⟩
  · exact hv'.pfVlan.trans hv.pfVlan
  · exact hv'.pfQos.trans hv.pfQos
  · exact hv'.pfSetMac.trans hv.pfSetMac
  · exact hv'.trusted.trans hv.trusted
  · exact hv'.linkEnable.trans hv.linkEnable
  · exact hv'.spoofchkEnabled.trans hv.spoofchkEnabled
  · exact hv'.rssQueryEnabled.trans hv.rssQueryEnabled

theorem ModifiesVf.other {f g : ℕ → VfDataStorage} (h : ModifiesVf vf f g) {w : ℕ} (hw : w ≠ vf) :
    g w = f w := by
  obtain ⟨v, rfl, -⟩ := h
  exact update_of_ne hw v f

theorem ModifiesVf.adminSame {f g : ℕ → VfDataStorage} (h : ModifiesVf vf f g) (w : ℕ) :
    AdminSame (f w) (g w) := by
  by_cases hw : w = vf
  · obtain ⟨v, rfl, hv⟩ := h
    rwa [hw, update_self]
  · rw [h.other hw]
    exact .refl _

theorem vfResetEvent_modifiesVf (vf : ℕ) : ModifiesVf vf a.vfinfo (vfResetEvent cfg a vf).vfinfo :=
  ⟨_, vfResetEvent_vfinfo, ⟨rfl, rfl, rfl, rfl, rfl, rfl, rfl⟩⟩

theorem setVfMac_modifiesVf (vf : ℕ) (addr : MacAddr) :
    ModifiesVf vf a.vfinfo (setVfMac cfg a vf addr).2.vfinfo :=
  ⟨_, rfl, ⟨rfl, rfl, rfl, rfl, rfl, rfl, rfl⟩⟩

end

theorem restoreVfMac_modifiesVf : ModifiesVf vf a.vfinfo (restoreVfMac cfg a vf).vfinfo := by
  rw [restoreVfMac]
  split_ifs
  · exact setVfMac_modifiesVf cfg a vf _
  · exact .refl vf _

/-- **Frame**: a message changes the data of its own VF only, and no setting of the administrator.
-/
theorem Handled.modifiesVf {b : Adapter} {msg : MsgBuf} (h : Handled cfg a vf msg b) :
    ModifiesVf vf a.vfinfo b.vfinfo := by
  cases h with
  | same => exact .refl vf _
  | reset _ =>
    obtain ⟨r, m, h⟩ := vfResetMsg_eq cfg a vf
    rw [h]
    exact ((vfResetEvent_modifiesVf cfg a vf).trans restoreVfMac_modifiesVf).trans
      ⟨_, rfl, ⟨rfl, rfl, rfl, rfl, rfl, rfl, rfl⟩⟩
  | mac _ _ _ _ => exact setVfMac_modifiesVf cfg a vf _
  | multicast _ _ =>
    exact ⟨_, writeMcAddrList_vfinfo, ⟨rfl, rfl, rfl, rfl, rfl, rfl, rfl⟩⟩
  | vlan _ _ _ _ => exact .refl vf _
  | frameSize _ => exact .refl vf _
  | macvlan r _ =>
    rw [setVfMacvlan_vfinfo]
    exact .refl vf _
  | api _ => exact ⟨_, rfl, ⟨rfl, rfl, rfl, rfl, rfl, rfl, rfl⟩⟩
  | xcast _ _ => exact ⟨_, rfl, ⟨rfl, rfl, rfl, rfl, rfl, rfl, rfl⟩⟩

theorem resetVfVlan_vlan : (resetVfVlan cfg a vf).vlan =
    (setVfVlan cfg.toPoolCfg (clearVfVlans cfg.toPoolCfg a.vlan vf) true
      (a.vfinfo vf).pfVlan vf).2 :=
  rfl

theorem restoreVfMac_vlan : (restoreVfMac cfg a vf).vlan = a.vlan := by
  rw [restoreVfMac]
  split_ifs <;> rfl

theorem Handled.vlan_cases {b : Adapter} {msg : MsgBuf} (h : Handled cfg a vf msg b) :
    b.vlan = a.vlan ∨
      msg 0 = vfReset ∧ b.vlan = (vfResetEvent cfg a vf).vlan ∨
      (a.vfinfo vf).pfVlan = 0 ∧ ∃ (add : Bool) (vid : ℕ), vid ≤ 4095 ∧
        b.vlan = (setVfVlan cfg.toPoolCfg a.vlan add vid vf).2 := by
  cases h with
  | same => exact .inl rfl
  | reset hmsg =>
    obtain ⟨r, m, h⟩ := vfResetMsg_eq cfg a vf
    rw [h]
    exact .inr (.inl ⟨hmsg, restoreVfMac_vlan⟩)
  | mac _ _ _ _ => exact .inl rfl
  | multicast _ _ => exact .inl writeMcAddrList_vlan
  | vlan hpv add vid hv => exact .inr (.inr ⟨hpv, add, vid, hv, rfl⟩)
  | frameSize _ => exact .inl rfl
  | macvlan _ _ => exact .inl (setVfMacvlan_vlan _ _)
  | api _ => exact .inl rfl
  | xcast _ _ => exact .inl rfl

end

section

variable {cfg : AdapterCfg} {a : Adapter}

section

variable (cfg : AdapterCfg) (a : Adapter) (vf : ℤ)

theorem ndoSetVfTrust_cases (setting : Bool) :
    (ndoSetVfTrust cfg a vf setting).2 = a ∨
      ∃ (v : ℕ) (m : Mbx), v < cfg.numVfs ∧ vf = v ∧ (a.vfinfo v).trusted ≠ setting ∧
        (ndoSetVfTrust cfg a vf setting).2 =
          { a.modifyVf v fun d => { d with trusted := setting, clearToSend := false } with
            mbx := m } := by
  unfold ndoSetVfTrust
  split
  · exact .inl rfl
  split
  · exact .inl rfl
  rename_i h2
  exact .inr ⟨vf.toNat, _, by omega, by omega, h2, rfl⟩

theorem ndoSetVfMac_cases (mac : MacAddr) :
    (ndoSetVfMac cfg a vf mac).2 = a ∨
      ∃ v : ℕ, v < cfg.numVfs ∧ vf = v ∧
        (isValidEtherAddr mac = true ∧ (ndoSetVfMac cfg a vf mac).2 =
            (if (setVfMac cfg a v mac).1 ≥ 0 then
              (setVfMac cfg a v mac).2.modifyVf v fun d => { d with pfSetMac := true }
            else (setVfMac cfg a v mac).2) ∨
          (ndoSetVfMac cfg a vf mac).2 =
            (if (delMacFilter cfg.toRarCfg a.mac (a.vfinfo v).vfMacAddresses v).1 ≥ 0 then
              Adapter.modifyVf
                { a with
                  mac := (delMacFilter cfg.toRarCfg a.mac (a.vfinfo v).vfMacAddresses v).2 } v
                fun d => { d with pfSetMac := false, vfMacAddresses := 0 }
            else
              { a with
                mac := (delMacFilter cfg.toRarCfg a.mac (a.vfinfo v).vfMacAddresses v).2 })) := by
  unfold ndoSetVfMac
  split
  · exact .inl rfl
  split
  case isTrue h2 =>
    exact .inr ⟨vf.toNat, by omega, by omega, .inl ⟨h2, rfl⟩⟩
  split
  case isTrue h3 =>
    by_cases h4 : (a.vfinfo vf.toNat).vfMacAddresses = 0
    · rw [if_pos h4]
      exact .inl rfl
    · rw [if_neg h4, h3]
      exact .inr ⟨vf.toNat, by omega, by omega, .inr rfl⟩
  · exact .inl rfl

theorem ndoSetVfTrust_vfinfo (setting : Bool) (w : ℕ) :
    ∃ t c : Bool, (ndoSetVfTrust cfg a vf setting).2.vfinfo w =
      { a.vfinfo w with trusted := t, clearToSend := c } := by
  rcases ndoSetVfTrust_cases cfg a vf setting with h | ⟨v, m, -, -, -, h⟩
  · exact ⟨_, _, by rw [h]⟩
  · rw [h]
    by_cases hw : w = v
    · subst hw
      exact ⟨setting, false, update_self ..⟩
    · exact ⟨_, _, update_of_ne hw _ _⟩

end

theorem ndoSetVfTrust_trusted (vf : ℤ) (setting : Bool) {w : ℕ} (hw : w < cfg.numVfs) :
    ((ndoSetVfTrust cfg a vf setting).2.vfinfo w).trusted =
      if vf = w then setting else (a.vfinfo w).trusted := by
  unfold ndoSetVfTrust
  split
  · rw [if_neg (by omega)]
  by_cases hvf : vf = w
  · subst hvf
    rw [if_pos rfl, Int.toNat_natCast]
    split
    case isTrue h2 =>
      exact h2
    · simp [pingVf, writeMbx]
  · have hne : w ≠ vf.toNat := by omega
    split_ifs
    · rfl
    · simp [pingVf, writeMbx, hne]

theorem ndoSetVfTrust_frame (vf : ℤ) (setting : Bool) :
    (ndoSetVfTrust cfg a vf setting).2.vlan = a.vlan ∧
      (ndoSetVfTrust cfg a vf setting).2.vmolr = a.vmolr := by
  rcases ndoSetVfTrust_cases cfg a vf setting with h | ⟨v, m, -, -, -, h⟩ <;> rw [h] <;>
    exact ⟨rfl, rfl⟩

theorem ndoSetVfMac_vfinfo_other {vf : ℤ} {w : ℕ} (hvw : vf ≠ w) (mac : MacAddr) :
    (ndoSetVfMac cfg a vf mac).2.vfinfo w = a.vfinfo w := by
  rcases ndoSetVfMac_cases cfg a vf mac with h | ⟨v, -, rfl, h⟩
  · rw [h]
  have hwv : w ≠ v := fun hc => hvw (by rw [hc])
  rcases h with ⟨-, h⟩ | h <;> rw [h] <;> split_ifs <;> simp [Adapter.modifyVf, setVfMac, hwv]

theorem ndoSetVfMac_vfinfo (cfg : AdapterCfg) (a : Adapter) (vf : ℤ) (mac : MacAddr) (w : ℕ) :
    ∃ (p : Bool) (m : MacAddr), (ndoSetVfMac cfg a vf mac).2.vfinfo w =
      { a.vfinfo w with pfSetMac := p, vfMacAddresses := m } := by
  by_cases hvw : vf = w
  · rcases ndoSetVfMac_cases cfg a vf mac with h | ⟨v, -, hv, h⟩
    · exact ⟨_, _, by rw [h]⟩
    obtain rfl : v = w := by omega
    have hset : (setVfMac cfg a v mac).2.vfinfo v = { a.vfinfo v with
        vfMacAddresses := if (setVfMac cfg a v mac).1 ≥ 0 then mac else 0 } := by
      rw [setVfMac_vfinfo, update_self]
    rcases h with ⟨-, h⟩ | h <;> rw [h] <;> split_ifs
    · exact ⟨true, _, by rw [Adapter.modifyVf_self, hset]⟩
    · exact ⟨_, _, hset⟩
    · exact ⟨false, 0, Adapter.modifyVf_self ..⟩
    · exact ⟨_, _, rfl⟩
  · exact ⟨_, _, ndoSetVfMac_vfinfo_other hvw mac⟩

theorem ndoSetVfMac_ok {w : ℕ} {mac : MacAddr} (hvalid : isValidEtherAddr mac = true)
    (hok : 0 ≤ (ndoSetVfMac cfg a w mac).1) : (ndoSetVfMac cfg a w mac).2.vfinfo w =
      { a.vfinfo w with pfSetMac := true, vfMacAddresses := mac } := by
  unfold ndoSetVfMac at hok ⊢
  by_cases h1 : (w : ℤ) < 0 ∨ (w : ℤ) ≥ cfg.numVfs
  · rw [if_pos h1] at hok
    exact absurd hok (by decide : ¬ 0 ≤ eInval)
  rw [if_neg h1] at hok ⊢
  dsimp only [Int.toNat_natCast] at hok ⊢
  rw [if_pos hvalid] at hok ⊢
  rw [if_pos hok, Adapter.modifyVf_self, setVfMac_vfinfo, update_self, if_pos hok]

theorem ndoSetVfMac_frame (vf : ℤ) (mac : MacAddr) : (ndoSetVfMac cfg a vf mac).2.vlan = a.vlan ∧
    (ndoSetVfMac cfg a vf mac).2.vmolr = a.vmolr ∧ (ndoSetVfMac cfg a vf mac).2.mvs = a.mvs := by
  rcases ndoSetVfMac_cases cfg a vf mac with h | ⟨v, -, -, ⟨-, h⟩ | h⟩ <;> rw [h]
  · exact ⟨rfl, rfl, rfl⟩
  all_goals split_ifs <;> exact ⟨rfl, rfl, rfl⟩

theorem disablePortVlan_vfinfo (vf : ℕ) : (disablePortVlan cfg a vf).2.vfinfo =
    update a.vfinfo vf { a.vfinfo vf with pfVlan := 0, pfQos := 0 } := by
  unfold disablePortVlan
  split_ifs <;> rfl

theorem enablePortVlan_vfinfo (vf vlan qos : ℕ) : (enablePortVlan cfg a vf vlan qos).2.vfinfo =
    if (enablePortVlan cfg a vf vlan qos).1 ≠ 0 then a.vfinfo
    else update a.vfinfo vf
      { a.vfinfo vf with pfVlan := Fin.ofNat 4096 vlan, pfQos := qos } := by
  unfold enablePortVlan
  dsimp only
  split_ifs <;> rfl

section

variable (cfg : AdapterCfg) (a : Adapter) (vf : ℤ)

/-- **Invariant rule** for a call that disables a port VLAN, enables one, or does both. -/
theorem ndoSetVfVlan_inv (vlan qos proto : ℕ) {P : Adapter → Prop} (h : P a)
    (hdis : ∀ v : ℕ, vf = v → v < cfg.numVfs → P (disablePortVlan cfg a v).2)
    (hen : ∀ b, P b → ∀ v : ℕ, vf = v → v < cfg.numVfs → vlan ≤ 4094 →
      P (enablePortVlan cfg b v vlan qos).2) : P (ndoSetVfVlan cfg a vf vlan qos proto).2 := by
  unfold ndoSetVfVlan
  split
  · exact h
  by_cases h2 : proto ≠ 0x8100
  · rw [if_pos h2]
    exact h
  have hdis := hdis vf.toNat (by omega) (by omega)
  have hen := fun b hb => hen b hb vf.toNat (by omega) (by omega) (by omega)
  dsimp only
  split_ifs
  · exact hdis
  · exact hen _ hdis
  · exact absurd rfl ‹(0 : ℤ) ≠ 0›
  · exact hen _ h
  · exact hdis

theorem ndoSetVfVlan_frame (vlan qos proto : ℕ) :
    (ndoSetVfVlan cfg a vf vlan qos proto).2.mac = a.mac ∧
      (ndoSetVfVlan cfg a vf vlan qos proto).2.mvs = a.mvs ∧
      (ndoSetVfVlan cfg a vf vlan qos proto).2.netdev = a.netdev := by
  refine ndoSetVfVlan_inv cfg a vf vlan qos proto
    (P := fun b => b.mac = a.mac ∧ b.mvs = a.mvs ∧ b.netdev = a.netdev) ⟨rfl, rfl, rfl⟩
    (fun v _ _ => ?_) fun b hb v _ _ _ => ?_
  · unfold disablePortVlan
    split_ifs <;> exact ⟨rfl, rfl, rfl⟩
  · unfold enablePortVlan
    dsimp only
    split_ifs <;> exact hb

theorem ndoSetVfVlan_vfinfo (vlan qos proto w : ℕ) :
    ∃ (v : Fin 4096) (q : ℕ), (ndoSetVfVlan cfg a vf vlan qos proto).2.vfinfo w =
      { a.vfinfo w with pfVlan := v, pfQos := q } := by
  refine ndoSetVfVlan_inv cfg a vf vlan qos proto (P := fun b => ∃ v q, b.vfinfo w =
    { a.vfinfo w with pfVlan := v, pfQos := q }) ⟨_, _, rfl⟩ (fun u _ _ => ?_)
    fun b ⟨v, q, hb⟩ u _ _ _ => ?_
  · rw [disablePortVlan_vfinfo]
    by_cases hw : w = u
    · exact ⟨0, 0, by rw [hw, update_self]⟩
    · exact ⟨_, _, update_of_ne hw _ _⟩
  · rw [enablePortVlan_vfinfo]
    split_ifs
    · exact ⟨v, q, hb⟩
    · by_cases hw : w = u
      · exact ⟨_, _, by rw [← hw, update_self, hb]⟩
      · exact ⟨v, q, (update_of_ne hw _ _).trans hb⟩

end

theorem ndoSetVfVlan_vfinfo_other {vf : ℤ} {w : ℕ} (hvw : vf ≠ w) (vlan qos proto : ℕ) :
    (ndoSetVfVlan cfg a vf vlan qos proto).2.vfinfo w = a.vfinfo w := by
  refine ndoSetVfVlan_inv cfg a vf vlan qos proto (P := fun b => b.vfinfo w = a.vfinfo w) rfl
    (fun v hv _ => ?_) fun b hb v hv _ _ => ?_
  all_goals have hwv : w ≠ v := fun hc => hvw (by rw [hv, hc])
  · rw [disablePortVlan_vfinfo, update_of_ne hwv]
  · rw [enablePortVlan_vfinfo]
    split_ifs
    · exact hb
    · rw [update_of_ne hwv, hb]

theorem ndoSetVfVlan_ok {v vlan qos proto : ℕ} (hset : vlan ≠ 0 ∨ qos ≠ 0)
    (hok : (ndoSetVfVlan cfg a v vlan qos proto).1 = 0) : vlan ≤ 4094 ∧ qos ≤ 7 ∧
      ∃ b, (b = a ∨ b = (disablePortVlan cfg a v).2) ∧ (enablePortVlan cfg b v vlan qos).1 = 0 ∧
        (ndoSetVfVlan cfg a v vlan qos proto).2 = (enablePortVlan cfg b v vlan qos).2 := by
  unfold ndoSetVfVlan at hok ⊢
  by_cases h1 : (v : ℤ) < 0 ∨ (v : ℤ) ≥ cfg.numVfs ∨ vlan > 4094 ∨ qos > 7
  · rw [if_pos h1] at hok
    exact absurd hok (by decide : eInval ≠ 0)
  rw [if_neg h1] at hok ⊢
  by_cases h2 : proto ≠ 0x8100
  · rw [if_pos h2] at hok
    exact absurd hok (by decide : eProtoNoSupport ≠ 0)
  rw [if_neg h2] at hok ⊢
  dsimp only [Int.toNat_natCast] at hok ⊢
  rw [if_pos hset] at hok ⊢
  refine ⟨by omega, by omega,
    (if (a.vfinfo v).pfVlan ≠ 0 then disablePortVlan cfg a v else (0, a)).2, ?_, ?_⟩
  · split_ifs
    · exact .inr rfl
    · exact .inl rfl
  · generalize (if (a.vfinfo v).pfVlan ≠ 0 then disablePortVlan cfg a v else (0, a)) = r at hok ⊢
    by_cases h3 : r.1 ≠ 0
    · rw [if_pos h3] at hok
      exact absurd hok h3
    · rw [if_neg h3] at hok ⊢
      exact ⟨hok, rfl⟩

theorem ndoSetVfVlan_recorded {v vlan qos proto : ℕ} (hset : vlan ≠ 0 ∨ qos ≠ 0)
    (hok : (ndoSetVfVlan cfg a v vlan qos proto).1 = 0) :
    (((ndoSetVfVlan cfg a v vlan qos proto).2.vfinfo v).pfVlan : ℕ) = vlan ∧
      ((ndoSetVfVlan cfg a v vlan qos proto).2.vfinfo v).pfQos = qos := by
  obtain ⟨hvlan, -, b, -, hen, heq⟩ := ndoSetVfVlan_ok hset hok
  rw [heq, enablePortVlan_vfinfo, if_neg (not_not.mpr hen), update_self]
  exact ⟨Nat.mod_eq_of_lt (by omega), rfl⟩

end

section

variable {cfg : AdapterCfg} {a : Adapter} {w : ℕ}

theorem rxModeVlan_keeps (hw : w < cfg.numVfs) (c : Bool) (s : VlanState) :
    Keeps w s.regs (if c then vlanPromiscDisable cfg.toPoolCfg s
      else vlanPromiscEnable cfg.toPoolCfg s).regs := by
  cases c with
  | true =>
    rw [if_pos rfl]
    exact vlanPromiscDisable_keeps hw
  | false =>
    exact vlanPromiscEnable_keeps hw

theorem vfResetEvent_keeps (hw : w < cfg.numVfs) (vf : Fin cfg.numVfs) (hvw : (vf : ℕ) ≠ w) :
    Keeps w a.vlan.regs (vfResetEvent cfg a vf).vlan.regs := by
  have hv : ((a.vfinfo vf).pfVlan : ℕ) ≤ 4095 := by omega
  have hreset : Keeps w a.vlan.regs (resetVfVlan cfg a vf).vlan.regs := by
    exact (clearVfVlans_keeps hw vf hvw).trans (setVfVlan_keeps hw vf hvw true hv)
  rw [vfResetEvent_vlan]
  exact hreset.trans (rxModeVlan_keeps hw _ _)

theorem Handled.keeps {b : Adapter} {msg : MsgBuf} {vf : Fin cfg.numVfs}
    (h : Handled cfg a vf msg b)
    (hw : w < cfg.numVfs) (hvw : (vf : ℕ) ≠ w) : Keeps w a.vlan.regs b.vlan.regs := by
  rcases h.vlan_cases with h | ⟨-, h⟩ | ⟨-, add, vid, hv, h⟩
  · rw [h]
    exact Keeps.refl w _
  · rw [h]
    exact vfResetEvent_keeps hw vf hvw
  · rw [h]
    exact setVfVlan_keeps hw vf hvw add hv

theorem enablePortVlan_keeps (hw : w < cfg.numVfs) (vf : Fin cfg.numVfs) (hvw : (vf : ℕ) ≠ w)
    {vlan : ℕ} (hv : vlan ≤ 4095) (qos : ℕ) :
    Keeps w a.vlan.regs (enablePortVlan cfg a vf vlan qos).2.vlan.regs := by
  unfold enablePortVlan
  dsimp only
  split_ifs
  · exact setVfVlan_keeps hw vf hvw true hv
  · exact (setVfVlan_keeps hw vf hvw true hv).trans (setVfVlan_keeps hw vf hvw false (by decide))
  · exact (setVfVlan_keeps hw vf hvw true hv).trans (setVfVlan_keeps hw vf hvw false (by decide))

theorem disablePortVlan_keeps (hw : w < cfg.numVfs) (vf : Fin cfg.numVfs) (hvw : (vf : ℕ) ≠ w) :
    Keeps w a.vlan.regs (disablePortVlan cfg a vf).2.vlan.regs := by
  have h := (setVfVlan_keeps (s := a.vlan) hw vf hvw false
    (by omega : ((a.vfinfo vf).pfVlan : ℕ) ≤ 4095)).trans
    (setVfVlan_keeps hw vf hvw true (by decide : 0 ≤ 4095))
  unfold disablePortVlan
  split_ifs <;> exact h

theorem ndoSetVfVlan_keeps (hw : w < cfg.numVfs) {vf : ℤ} (hvw : vf ≠ w) (vlan qos proto : ℕ) :
    Keeps w a.vlan.regs (ndoSetVfVlan cfg a vf vlan qos proto).2.vlan.regs := by
  refine ndoSetVfVlan_inv cfg a vf vlan qos proto (P := fun b => Keeps w a.vlan.regs b.vlan.regs)
    (Keeps.refl w _) (fun v hv hlt => ?_) fun b hb v hv hlt hvlan => ?_
  all_goals have hne : v ≠ w := fun hc => hvw (by rw [hv, hc])
  · exact disablePortVlan_keeps hw ⟨v, hlt⟩ hne
  · exact hb.trans (enablePortVlan_keeps hw ⟨v, hlt⟩ hne (by omega) qos)

end

end Ixgbe
