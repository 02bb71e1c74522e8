import Ixgbe.Sriov.Effects

/-! # A port VLAN confines its VF

`Confined`: the VF is not in slot 0, and every slot that lists it holds the port VLAN. -/

namespace Ixgbe

open VlanRegs EventRun

/-- Every enabled entry that lists the VF is that of VLAN `v`. -/
def ListedOnlyIn (t : VlanRegs) (vf v : ℕ) : Prop :=
  ∀ i < 64, t.vlvf i &&& vlvfVien ≠ 0 → t.poolBit i vf = true → vlvfVid (t.vlvf i) = v

/-- Listed in slots of `1..63` that hold VLAN `v`, and in no other. -/
structure Confined (t : VlanRegs) (vf v : ℕ) : Prop where
  slot0 : t.poolBit 0 vf = false
  slots : ∀ i, 1 ≤ i → i < 64 → t.poolBit i vf = true → t.vlvf i = vlvfWord v

namespace Confined

variable {t t' : VlanRegs} {vf v : ℕ}

theorem listedOnlyIn (h : Confined t vf v) (hv : v ≤ 4095) : ListedOnlyIn t vf v := by
  intro i hi _ hbit
  have hpos : 1 ≤ i := Nat.pos_of_ne_zero fun h0 =>
    absurd hbit (ne_true_of_eq_false (h0 ▸ h.slot0))
  rw [h.slots i hpos hi hbit, vlvfVid_vlvfWord hv]

theorem keeps (h : Confined t vf v) (hk : Keeps vf t t') : Confined t' vf v where
  slot0 := (hk.pools 0 (by decide)).trans h.slot0
  slots i h1 h2 hbit := by
    rw [hk.pools i h2] at hbit
    have hw := h.slots i h1 h2 hbit
    rw [hk.vlvf i h1 h2 hbit (hw ▸ vlvfWord_ne_zero v), hw]

theorem vftaStep_self (h : Confined t vf v) (hv : v ≠ 0) (hvf : vf < 64) {b : Bool} {e : ℤ}
    (hstep : VftaStep t v vf true b (e, t')) : Confined t' vf v := by
  cases hstep with
  | noSpace _ _ _ => exact h
  | vftaOnly _ _ _ => exact ⟨h.slot0, h.slots⟩
  | join _ i _ hs =>
    have hi : i ≠ 0 := fun h0 => hv (hs.eq_zero_iff.mp h0)
    refine ⟨?_, fun j h1 h2 hbit => ?_⟩
    · rw [setVftaBit_poolBit, writeVlvf_poolBit,
        setPool_poolBit_of_slot_ne true hvf hvf (Ne.symm hi)]
      exact h.slot0
    · rw [setVftaBit_vlvf, writeVlvf_vlvf]
      by_cases hji : j = i
      · rw [if_pos hji]
      · rw [if_neg hji]
        rw [setVftaBit_poolBit, writeVlvf_poolBit,
          setPool_poolBit_of_slot_ne true hvf hvf hji] at hbit
        exact h.slots j h1 h2 hbit

theorem vfVlanStep_self {s : VlanState} {pf : ℕ} {e : ℤ} (h : Confined s.regs vf v) (hv : v ≠ 0)
    (hvf : vf < 64) (hpf : pf < 64) (hne : pf ≠ vf) (hstep : VfVlanStep s pf v vf true (e, t')) :
    Confined t' vf v :=
  hstep.inv (P := fun t => Confined t vf v)
    (fun _ _ _ h1 ht => ht.keeps (Keeps.vftaStep hpf hvf hne h1))
    (fun _ _ _ h2 ht => ht.vftaStep_self hv hvf h2)
    (fun _ _ hup ht => ht.keeps (Keeps.pfUpdate hpf hvf hne hup)) h

end Confined

section

variable {cfg : AdapterCfg} {a : Adapter} {v : ℕ}

theorem ClearSlot.poolBit_self {t t' : VlanRegs} {promisc : Bool} {pf vf i : ℕ} (hvf : vf < 64)
    (hpf : pf < 64) (hne : vf ≠ pf) (h : ClearSlot t promisc pf vf i t') :
    t'.poolBit i vf = false := by
  have hout : (t.setPool i vf false).poolBit i vf = false := by
    rw [setPool_poolBit false hvf hvf, if_pos ⟨rfl, rfl⟩]
  cases h with
  | absent h => exact h
  | others _ _ => exact hout
  | onlyPf _ _ _ =>
    rw [writeVlvf_poolBit, setPool_poolBit_of_ne _ hpf hvf (Ne.symm hne)]
    exact hout
  | stale _ _ _ => exact hout
  | last _ _ _ => exact hout

theorem clearVfVlans_confined (s : VlanState) (vf : Fin cfg.numVfs) :
    Confined (clearVfVlans cfg.toPoolCfg s vf).regs vf v := by
  have hvf := cfg.vf_lt vf
  have hout : ∀ j < 64, (clearVfVlans cfg.toPoolCfg s vf).regs.poolBit j vf = false := by
    intro j hj
    obtain ⟨t1, t2, -, hc, hsame⟩ := clearVfVlans_slot (s := s) vf hj
    rw [hsame.pools vf hvf]
    exact hc.poolBit_self hvf cfg.pf_lt (cfg.vf_ne_pf vf)
  exact ⟨hout 0 (by decide), fun j _ hj hbit => absurd hbit (ne_true_of_eq_false (hout j hj))⟩

theorem vfResetEvent_confined (vf : Fin cfg.numVfs) (hv : v ≠ 0)
    (hpv : ((a.vfinfo vf).pfVlan : ℕ) = v) :
    Confined (vfResetEvent cfg a vf).vlan.regs vf v := by
  have hvf := cfg.vf_lt vf
  have hv' : v ≤ 4095 := by omega
  have hreset : Confined (resetVfVlan cfg a vf).vlan.regs vf v := by
    rw [resetVfVlan_vlan, hpv]
    exact (clearVfVlans_confined a.vlan vf).vfVlanStep_self hv hvf cfg.pf_lt (cfg.vf_ne_pf vf).symm
      (setVfVlan_step cfg.pf_lt true hv' hvf)
  rw [vfResetEvent_vlan]
  exact hreset.keeps (rxModeVlan_keeps vf.isLt _ _)

end

structure PortVlanInv (cfg : AdapterCfg) (vf v : ℕ) (a : Adapter) : Prop where
  pfVlan : ((a.vfinfo vf).pfVlan : ℕ) = v
  confined : Confined a.vlan.regs vf v

/-- And no reset of the whole adapter. -/
def NoVlanAdmin {n : ℕ} (vf : ℕ) : Event n → Prop
  | .setVfVlan w _ _ _ => w ≠ vf
  | .reset _ => False
  | _ => True

/-- One the hardware detected, or the VF's own request. -/
def ProcessesReset {n : ℕ} (vf : Fin n) : Event n → Prop
  | .vfReset w => w = vf
  | .msg w read => w = vf ∧ read.1 = 0 ∧ read.2 0 = vfReset
  | _ => False

section

variable {cfg : AdapterCfg} {a : Adapter} {vf : Fin cfg.numVfs} {v : ℕ}

theorem step_pfVlan {e : Event cfg.numVfs} (he : NoVlanAdmin vf e) :
    ((step cfg a e).vfinfo vf).pfVlan = (a.vfinfo vf).pfVlan := by
  cases e with
  | msg w read =>
    obtain ⟨b, m, hb, h⟩ := rcvMsgFromVf_handled cfg a w read
    rw [step, h]
    exact (hb.modifiesVf.adminSame vf).pfVlan
  | vfReset w => exact ((vfResetEvent_modifiesVf cfg a w).adminSame vf).pfVlan
  | addVid _ => rfl
  | killVid _ => rfl
  | rxMode dev => rw [step, setRxMode_vfinfo]
  | ucSync _ => rfl
  | ucUnsync _ => rfl
  | setVfTrust w b =>
    obtain ⟨_, _, h⟩ := ndoSetVfTrust_vfinfo cfg a w b vf
    rw [step, h]
  | setVfMac w mac =>
    obtain ⟨_, _, h⟩ := ndoSetVfMac_vfinfo cfg a w mac vf
    rw [step, h]
  | setVfVlan w vlan qos proto => rw [step, ndoSetVfVlan_vfinfo_other he]
  | reset _ => exact absurd he id

theorem ProcessesReset.noVlanAdmin {n : ℕ} {vf : Fin n} {e : Event n} (he : ProcessesReset vf e) :
    NoVlanAdmin vf e := by
  cases e with
  | msg _ _ => trivial
  | vfReset _ => trivial
  | _ => exact absurd he id

theorem ProcessesReset.confined {e : Event cfg.numVfs} (he : ProcessesReset vf e) (hv : v ≠ 0)
    (hpv : ((a.vfinfo vf).pfVlan : ℕ) = v) : Confined (step cfg a e).vlan.regs vf v := by
  cases e with
  | vfReset w =>
    cases he
    exact vfResetEvent_confined vf hv hpv
  | msg w read =>
    obtain ⟨ret, msg⟩ := read
    obtain ⟨rfl, rfl, hmsg⟩ := he
    obtain ⟨r, m, h⟩ := vfResetMsg_eq cfg a w
    rw [step, rcvMsgFromVf_reset cfg a w hmsg, h]
    change Confined (restoreVfMac cfg (vfResetEvent cfg a w) w).vlan.regs w v
    rw [restoreVfMac_vlan]
    exact vfResetEvent_confined w hv hpv
  | _ => exact absurd he id

theorem PortVlanInv.step (h : PortVlanInv cfg vf v a) (hv : v ≠ 0) {e : Event cfg.numVfs}
    (he : NoVlanAdmin vf e) : PortVlanInv cfg vf v (step cfg a e) := by
  have hpv : (((Ixgbe.step cfg a e).vfinfo vf).pfVlan : ℕ) = v := by
    rw [step_pfVlan he]
    exact h.pfVlan
  refine ⟨hpv, ?_⟩
  cases e with
  | msg w read =>
    obtain ⟨b, m, hb, hstep⟩ := rcvMsgFromVf_handled cfg a w read
    rw [Ixgbe.step, hstep]
    by_cases hw : w = vf
    · subst hw
      rcases hb.vlan_cases with hsame | ⟨-, hreset⟩ | ⟨hnone, -⟩
      · rw [hsame]
        exact h.confined
      · rw [hreset]
        exact vfResetEvent_confined w hv h.pfVlan
      · -- the request is refused: the VF has a port VLAN
        exact absurd (by rw [← h.pfVlan, hnone]; rfl) hv
    · exact h.confined.keeps (hb.keeps vf.isLt fun hc => hw (Fin.ext hc))
  | vfReset w =>
    by_cases hw : w = vf
    · subst hw
      exact vfResetEvent_confined w hv h.pfVlan
    · exact h.confined.keeps (vfResetEvent_keeps vf.isLt w fun hc => hw (Fin.ext hc))
  | addVid vid => exact h.confined.keeps (vlanRxAddVid_keeps vf.isLt vid)
  | killVid vid => exact h.confined.keeps (vlanRxKillVid_keeps vf.isLt vid)
  | rxMode dev =>
    rw [Ixgbe.step, setRxMode_vlan]
    exact h.confined.keeps (rxModeVlan_keeps vf.isLt _ _)
  | ucSync _ => exact h.confined
  | ucUnsync _ => exact h.confined
  | setVfTrust w b =>
    rw [Ixgbe.step, (ndoSetVfTrust_frame w b).1]
    exact h.confined
  | setVfMac w mac =>
    rw [Ixgbe.step, (ndoSetVfMac_frame w mac).1]
    exact h.confined
  | setVfVlan w vlan qos proto =>
    exact h.confined.keeps (ndoSetVfVlan_keeps vf.isLt he vlan qos proto)
  | reset _ => exact absurd he id

end

/-- **Port VLAN confinement.** From the VF's reset on, whatever the VFs send and the PF does, the VF
is listed in no enabled entry but that of `v`. -/
theorem port_vlan_confined (cfg : AdapterCfg) (a : Adapter) (vf : Fin cfg.numVfs)
    (v qos proto : ℕ) (hv : 1 ≤ v) (hv' : v ≤ 4094)
    (hset : (ndoSetVfVlan cfg a vf v qos proto).1 = 0) (es₁ es₂ : List (Event cfg.numVfs))
    (hes₁ : ∀ e ∈ es₁, NoVlanAdmin vf e) (r : Event cfg.numVfs) (hr : ProcessesReset vf r)
    (hes₂ : ∀ e ∈ es₂, NoVlanAdmin vf e) :
    let a₁ := run (step cfg) (ndoSetVfVlan cfg a vf v qos proto).2 es₁
    ListedOnlyIn (step cfg a₁ r).vlan.regs vf v ∧
      After (step cfg) (fun s => ListedOnlyIn s.vlan.regs vf v) (step cfg a₁ r) es₂ := by
  intro a₁
  have hv0 : v ≠ 0 := by omega
  have hpv : ((a₁.vfinfo vf).pfVlan : ℕ) = v := by
    have hstep : ∀ (s : Adapter) (e : Event cfg.numVfs), ((s.vfinfo vf).pfVlan : ℕ) = v →
        NoVlanAdmin vf e → (((step cfg s e).vfinfo vf).pfVlan : ℕ) = v := fun s e hs he => by
      rw [step_pfVlan he]
      exact hs
    exact run_inv hstep (ndoSetVfVlan_recorded (.inl hv0) hset).1 (along_of_forall _ es₁ hes₁)
  have hinv : PortVlanInv cfg vf v (step cfg a₁ r) := by
    refine ⟨?_, hr.confined hv0 hpv⟩
    rw [step_pfVlan hr.noVlanAdmin]
    exact hpv
  have hlisted : ∀ s, PortVlanInv cfg vf v s → ListedOnlyIn s.vlan.regs vf v := fun s hs =>
    hs.confined.listedOnlyIn (by omega)
  exact ⟨hlisted _ hinv, after_of_inv (fun s e hs he => hs.step hv0 he) hlisted hinv
    (along_of_forall _ es₂ hes₂)⟩

theorem port_vlan_confined_vlan_five :
    let cfg := oneVfAdapterCfg
    let a := (ndoSetVfVlan cfg (enabledAdapter cfg 0x0250#48) 0 5 0 0x8100).2
    let joinSeven : Event cfg.numVfs :=
      .msg oneVf (0, fun i => if i = 0 then 0x10004 else 7)
    After (step cfg) (fun s => ListedOnlyIn s.vlan.regs 0 5) (step cfg a (.vfReset oneVf))
      [joinSeven, .addVid 7] := by
  intro cfg a joinSeven
  refine (port_vlan_confined cfg (enabledAdapter cfg 0x0250#48) oneVf 5 0 0x8100 (by decide)
    (by decide) (by decide +kernel) [] [joinSeven, .addVid 7] (by simp) (.vfReset oneVf) rfl ?_).2
  intro e he
  simp only [List.mem_cons, List.not_mem_nil, or_false] at he
  rcases he with rfl | rfl <;> trivial

end Ixgbe
