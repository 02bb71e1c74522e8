import Ixgbe.Sriov.Effects

/-! # Who writes VMOLR

Five routines, each with its own mask. -/

namespace Ixgbe

open WordArray Function Adapter

/-- Once `ixgbe_write_mc_addr_list` is done. -/
def restoredVmolr (running : Bool) (hashes : ℕ) (x : U32) : U32 :=
  if running then (if hashes ≠ 0 then x ||| vmolrRompe else x &&& ~~~vmolrRompe) else x

def defaultVmolr (aupe : Bool) (x : U32) : U32 :=
  if aupe then x ||| vmolrBam ||| vmolrAupe else (x ||| vmolrBam) &&& ~~~vmolrAupe

section

variable {cfg : AdapterCfg} {a : Adapter} {j : ℕ}

theorem writeMcAddrList_restored (hj : j < cfg.numVfs) : (writeMcAddrList cfg a).2.vmolr j =
    restoredVmolr a.netdev.running (a.vfinfo j).numVfMcHashes (a.vmolr j) := by
  rw [writeMcAddrList_vmolr]
  simp only [hj, and_true]
  rfl

theorem setRxMode_restored (hj : j < cfg.numVfs) : (setRxMode cfg a).vmolr j =
    restoredVmolr a.netdev.running (a.vfinfo j).numVfMcHashes (a.vmolr j) := setRxMode_vmolr hj

theorem vfResetEvent_vmolr_self {vf : ℕ} (hvf : vf < cfg.numVfs) :
    (vfResetEvent cfg a vf).vmolr vf = restoredVmolr a.netdev.running 0
      (defaultVmolr (decide ((a.vfinfo vf).pfVlan = 0)) (a.vmolr vf)) := by
  rw [vfResetEvent_vmolr hvf, resetVfDefaults_vfinfo, resetVfDefaults_vmolr, update_self,
    update_self]
  simp [restoredVmolr, defaultVmolr]

theorem vfResetEvent_vmolr_other {vf : ℕ} (hj : j < cfg.numVfs) (hne : j ≠ vf) :
    (vfResetEvent cfg a vf).vmolr j =
      restoredVmolr a.netdev.running (a.vfinfo j).numVfMcHashes (a.vmolr j) := by
  rw [vfResetEvent_vmolr hj, resetVfDefaults_vfinfo, resetVfDefaults_vmolr,
    update_of_ne hne, update_of_ne hne]
  rfl

theorem setVfMulticasts_vmolr_other {vf : ℕ} (hj : j < cfg.numVfs) (hne : j ≠ vf) (msg : MsgBuf) :
    (setVfMulticasts cfg a msg vf).2.vmolr j =
      restoredVmolr a.netdev.running (a.vfinfo j).numVfMcHashes (a.vmolr j) := by
  rw [setVfMulticasts]
  rw [writeMcAddrList_restored hj, writeVmolr_of_ne _ hne, writeVmolr_vfinfo, modifyVf_of_ne a hne]
  rfl

theorem restoreVfMac_vmolr {vf : ℕ} : (restoreVfMac cfg a vf).vmolr = a.vmolr := by
  rw [restoreVfMac]
  split_ifs <;> rfl

theorem vfResetMsg_vmolr (vf : ℕ) :
    (vfResetMsg cfg a vf).vmolr = (vfResetEvent cfg a vf).vmolr := by
  obtain ⟨r, m, h⟩ := vfResetMsg_eq cfg a vf
  rw [h]
  exact restoreVfMac_vmolr

theorem disablePortVlan_vmolr (vf : ℕ) : (disablePortVlan cfg a vf).2.vmolr =
    update a.vmolr vf (defaultVmolr true (a.vmolr vf)) := by
  unfold disablePortVlan
  split_ifs <;> rfl

theorem enablePortVlan_vmolr (vf vlan qos : ℕ) :
    (enablePortVlan cfg a vf vlan qos).2.vmolr = a.vmolr ∨
    (enablePortVlan cfg a vf vlan qos).2.vmolr =
      update a.vmolr vf (defaultVmolr false (a.vmolr vf)) := by
  unfold enablePortVlan
  dsimp only
  split_ifs
  · exact .inl rfl
  · exact .inr rfl
  · exact .inr rfl

theorem ndoSetVfVlan_vmolr_other {vf : ℤ} (hne : vf ≠ j) (vlan qos proto : ℕ) :
    (ndoSetVfVlan cfg a vf vlan qos proto).2.vmolr j = a.vmolr j := by
  refine ndoSetVfVlan_inv cfg a vf vlan qos proto (P := fun b => b.vmolr j = a.vmolr j) rfl
    (fun v hv _ => ?_) fun b hb v hv _ _ => ?_
  all_goals have hjv : j ≠ v := fun hc => hne (by rw [hv, hc])
  · rw [disablePortVlan_vmolr, update_of_ne hjv]
  · rcases enablePortVlan_vmolr v vlan qos with h | h <;> rw [h]
    · exact hb
    · rw [update_of_ne hjv, hb]

end

def promiscBits : U32 := vmolrMpe ||| vmolrUpe ||| vmolrVpe

theorem restoredVmolr_promisc (running : Bool) (hashes : ℕ) (x : U32) :
    restoredVmolr running hashes x &&& promiscBits = x &&& promiscBits := by
  rw [restoredVmolr]
  split_ifs
  · exact or_and_of_disjoint (by decide) x
  · exact and_not_and_of_disjoint (by decide) x
  · rfl

theorem defaultVmolr_promisc (aupe : Bool) (x : U32) :
    defaultVmolr aupe x &&& promiscBits = x &&& promiscBits := by
  have hbam : (x ||| vmolrBam) &&& promiscBits = x &&& promiscBits :=
    or_and_of_disjoint (by decide) x
  rw [defaultVmolr]
  split_ifs
  · rw [or_and_of_disjoint (by decide), hbam]
  · rw [and_not_and_of_disjoint (by decide), hbam]

theorem xcast_promisc (mode : XcastMode) (x : U32) :
    ((x &&& ~~~mode.disable) ||| mode.enable) &&& promiscBits = mode.enable &&& promiscBits :=
  write_and_of_covered (by cases mode <;> decide) x

section

variable {cfg : AdapterCfg} {a : Adapter} {j : ℕ}

theorem Handled.promisc {b : Adapter} {vf : ℕ} {msg : MsgBuf} (h : Handled cfg a vf msg b)
    (hj : j < cfg.numVfs) : b.vmolr j &&& promiscBits = a.vmolr j &&& promiscBits ∨
      j = vf ∧ ∃ mode : XcastMode,
        ((a.vfinfo vf).trusted = false → mode = .none ∨ mode = .multi) ∧
        b.vmolr j &&& promiscBits = mode.enable &&& promiscBits := by
  cases h with
  | same => exact .inl rfl
  | reset _ =>
    refine .inl ?_
    rw [vfResetMsg_vmolr]
    by_cases hne : j = vf
    · subst hne
      rw [vfResetEvent_vmolr_self hj, restoredVmolr_promisc, defaultVmolr_promisc]
    · rw [vfResetEvent_vmolr_other hj hne, restoredVmolr_promisc]
  | mac _ _ _ _ => exact .inl rfl
  | multicast _ _ =>
    refine .inl ?_
    rw [setVfMulticasts]
    rw [writeMcAddrList_restored hj, restoredVmolr_promisc]
    by_cases hne : j = vf
    · subst hne
      rw [writeVmolr_self]
      exact or_and_of_disjoint (by decide) _
    · rw [writeVmolr_of_ne _ hne, modifyVf_vmolr]
  | vlan _ _ _ _ => exact .inl rfl
  | frameSize _ => exact .inl rfl
  | macvlan _ _ => exact .inl (by rw [setVfMacvlan_vmolr])
  | api _ => exact .inl rfl
  | xcast mode hmode =>
    by_cases hne : j = vf
    · subst hne
      refine .inr ⟨rfl, mode, hmode, ?_⟩
      rw [modifyVf_vmolr, writeVmolr_self, xcast_promisc]
    · exact .inl (by rw [modifyVf_vmolr, writeVmolr_of_ne _ hne])

theorem ndoSetVfVlan_promisc (vf : ℤ) (vlan qos proto : ℕ) :
    (ndoSetVfVlan cfg a vf vlan qos proto).2.vmolr j &&& promiscBits =
      a.vmolr j &&& promiscBits := by
  have hupd : ∀ (f : ℕ → U32) (v : ℕ) (aupe : Bool),
      update f v (defaultVmolr aupe (f v)) j &&& promiscBits = f j &&& promiscBits := by
    intro f v aupe
    by_cases hne : j = v
    · rw [hne, update_self, defaultVmolr_promisc]
    · rw [update_of_ne hne]
  refine ndoSetVfVlan_inv cfg a vf vlan qos proto
    (P := fun b => b.vmolr j &&& promiscBits = a.vmolr j &&& promiscBits) rfl
    (fun v _ _ => ?_) fun b hb v _ _ _ => ?_
  · rw [disablePortVlan_vmolr]
    exact hupd a.vmolr v true
  · rcases enablePortVlan_vmolr v vlan qos with h | h <;> rw [h]
    · exact hb
    · exact (hupd b.vmolr v false).trans hb

/-- **Step lemma**: the promiscuous bits change only by an xcast update the VF is entitled to, and
on an adapter reset. -/
theorem step_promisc (hj : j < cfg.numVfs) (e : Event cfg.numVfs) :
    (step cfg a e).vmolr j &&& promiscBits = a.vmolr j &&& promiscBits ∨
      (∃ mode : XcastMode, ((a.vfinfo j).trusted = false → mode = .none ∨ mode = .multi) ∧
        (step cfg a e).vmolr j &&& promiscBits = mode.enable &&& promiscBits) ∨
      ∃ hw, e = .reset hw ∧ (step cfg a e).vmolr j = hw.vmolr j := by
  cases e with
  | msg w read =>
    obtain ⟨b, m, hb, h⟩ := rcvMsgFromVf_handled cfg a w read
    rw [step, h]
    rcases hb.promisc hj with h | ⟨hjw, mode, hmode, h⟩
    · exact .inl h
    · exact .inr (.inl ⟨mode, hjw ▸ hmode, h⟩)
  | vfReset w =>
    refine .inl ?_
    rw [step]
    by_cases hne : j = w
    · rw [hne, vfResetEvent_vmolr_self w.isLt, restoredVmolr_promisc, defaultVmolr_promisc]
    · rw [vfResetEvent_vmolr_other hj hne, restoredVmolr_promisc]
  | addVid _ => exact .inl rfl
  | killVid _ => exact .inl rfl
  | rxMode dev => exact .inl (by rw [step, setRxMode_restored hj, restoredVmolr_promisc])
  | ucSync _ => exact .inl rfl
  | ucUnsync _ => exact .inl rfl
  | setVfTrust w b => exact .inl (by rw [step, (ndoSetVfTrust_frame w b).2])
  | setVfMac w mac => exact .inl (by rw [step, (ndoSetVfMac_frame w mac).2.1])
  | setVfVlan w vlan qos proto => exact .inl (ndoSetVfVlan_promisc w vlan qos proto)
  | reset hw => exact .inr (.inr ⟨hw, rfl, rfl⟩)

end

end Ixgbe
