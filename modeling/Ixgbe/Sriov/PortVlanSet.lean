import Ixgbe.Sriov.Isolation

/-! # Setting a port VLAN

A call that returns 0 should leave the VF in its new VLAN (`portVlanSet_iff`), one that fails
everything as it was (`allOrNothing_iff`). -/

namespace Ixgbe

open VlanRegs

/-- An enabled entry for `vlan`, at index `lo` or above, lists the VF. -/
def Lists (t : VlanRegs) (vf vlan lo : ℕ) : Prop :=
  ∃ i, lo ≤ i ∧ i < 64 ∧ t.vlvf i = vlvfWord vlan ∧ t.poolBit i vf = true

def SameLists (vf vlan lo : ℕ) (t t' : VlanRegs) : Prop :=
  ∀ i, lo ≤ i → i < 64 → (t'.vlvf i = vlvfWord vlan ∧ t'.poolBit i vf = true ↔
    t.vlvf i = vlvfWord vlan ∧ t.poolBit i vf = true)

theorem SameLists.lists_iff {vf lo vlan : ℕ} {t t' : VlanRegs} (h : SameLists vf vlan lo t t') :
    Lists t' vf vlan lo ↔ Lists t vf vlan lo := by
  constructor
  · rintro ⟨i, h1, h2, h3⟩
    exact ⟨i, h1, h2, (h i h1 h2).mp h3⟩
  · rintro ⟨i, h1, h2, h3⟩
    exact ⟨i, h1, h2, (h i h1 h2).mpr h3⟩

theorem SameLists.refl (vf vlan lo : ℕ) (t : VlanRegs) : SameLists vf vlan lo t t := fun _ _ _ =>
  Iff.rfl

theorem SameLists.trans {vf vlan lo : ℕ} {t1 t2 t3 : VlanRegs} (h1 : SameLists vf vlan lo t1 t2)
    (h2 : SameLists vf vlan lo t2 t3) : SameLists vf vlan lo t1 t3 := fun i hlo hi =>
  (h2 i hlo hi).trans (h1 i hlo hi)

section

variable {t t' : VlanRegs} {s : VlanState} {pf vid vf vlan : ℕ} {add : Bool} {e : ℤ}

theorem VftaStep.zero_sameSlot {p i : ℕ} {on : Bool} (hp : p < 64) (hi : i ≠ 0)
    (h : VftaStep t 0 p on false (e, t')) : SameSlot t t' i := by
  cases h with
  | noSpace _ _ hn => exact absurd rfl hn.1
  | vftaOnly _ _ _ => exact (SameSlot.refl t i).setVftaBit 0 on
  | join _ j _ hs =>
    obtain rfl := hs.eq_zero_iff.mpr rfl
    exact (SameSlot.setPool_writeVlvf hp true _ hi).setVftaBit 0 true
  | release _ j _ hs _ =>
    obtain rfl := hs.eq_zero_iff.mpr rfl
    exact (SameSlot.setPool_writeVlvf hp false _ hi).setVftaBit 0 false
  | leave _ j _ hs _ =>
    obtain rfl := hs.eq_zero_iff.mpr rfl
    exact SameSlot.setPool_writeVlvf hp false _ hi

theorem VfVlanStep.zero_sameSlot {i : ℕ} (hpf : pf < 64) (hvf : vf < 64) (hi : i ≠ 0)
    (h : VfVlanStep s pf 0 vf add (e, t')) : SameSlot s.regs t' i := by
  refine h.inv (P := fun t => SameSlot s.regs t i)
    (fun _ _ _ h1 ht => ht.trans (h1.zero_sameSlot hpf hi))
    (fun _ _ _ h2 ht => ht.trans (h2.zero_sameSlot hvf hi)) (fun _ _ hup ht => ?_)
    (SameSlot.refl s.regs i)
  cases hup with
  | absent _ => exact ht
  | keep _ hv _ _ _ _ => exact absurd rfl hv
  | free _ hv _ _ _ _ => exact absurd rfl hv

theorem VfVlanStep.zero_slots (hpf : pf < 64) (hvf : vf < 64)
    (h : VfVlanStep s pf 0 vf add (e, t')) : SameLists vf vlan 1 s.regs t' := by
  intro i hi _
  have hsame := h.zero_sameSlot hpf hvf (Nat.ne_of_gt hi)
  rw [hsame.vlvf, hsame.pools vf hvf]

theorem VfVlanStep.zero_revoked (hvf : vf < 64) (hvt : s.regs.VtOn)
    (h : VfVlanStep s pf 0 vf false (e, t')) : t'.poolBit 0 vf = false := by
  obtain ⟨t2, hbit, h3⟩ : ∃ t2 : VlanRegs, t2.poolBit 0 vf = false ∧
      (PfUpdate t2 s.vlanPromisc pf 0 t' ∨ t' = t2) := by
    cases h with
    | removed _ t2 _ h2 h3 =>
      refine ⟨t2, ?_, h3.imp And.right And.right⟩
      have hout : (s.regs.setPool 0 vf false).poolBit 0 vf = false := by
        rw [setPool_poolBit false hvf hvf, if_pos ⟨rfl, rfl⟩]
      cases h2 with
      | noSpace _ _ hn => exact absurd rfl hn.1
      | vftaOnly _ _ hoff =>
        exact absurd hvt (hoff.resolve_right fun hb => absurd hb.1 (by decide))
      | release _ i _ hs _ =>
        obtain rfl := hs.eq_zero_iff.mpr rfl
        exact hout
      | leave _ i _ hs _ =>
        obtain rfl := hs.eq_zero_iff.mpr rfl
        exact hout
  rcases h3 with hup | rfl
  · cases hup with
    | absent _ => exact hbit
    | keep _ hv _ _ _ _ => exact absurd rfl hv
    | free _ hv _ _ _ _ => exact absurd rfl hv
  · exact hbit

theorem PfUpdate.sameLists {promisc : Bool} (hpf : pf < 64) (hvf : vf < 64) (hne : vf ≠ pf)
    (h : PfUpdate t promisc pf vid t') (lo : ℕ) : SameLists vf vlan lo t t' := by
  cases h with
  | absent _ => exact SameLists.refl vf vlan lo t
  | keep _ _ _ _ _ _ => exact SameLists.refl vf vlan lo t
  | free i _ _ _ _ ho =>
    intro j _ _
    have hbit : ((if promisc then t else t.setPool i pf false).writeVlvf i 0).poolBit j vf =
        t.poolBit j vf := by
      cases promisc with
      | true => rfl
      | false => exact setPool_poolBit_of_ne false hpf hvf (Ne.symm hne) j
    rw [hbit, writeVlvf_vlvf]
    by_cases hji : j = i
    · -- the entry does not list the VF
      have hout : t.poolBit j vf = false := hji ▸ ho vf hvf hne
      simp [hout]
    · rw [if_neg hji]
      cases promisc <;> exact Iff.rfl

theorem VfVlanStep.lists_of_vtOff (hpf : pf < 64) (hvf : vf < 64) (hne : vf ≠ pf)
    (hvt : ¬ s.regs.VtOn) (h : VfVlanStep s pf vid vf add (e, t')) :
    SameLists vf vlan 0 s.regs t' := by
  have hcall : ∀ (t t1 : VlanRegs) (p : ℕ) (on : Bool) (e : ℤ),
      VftaStep t vid p on false (e, t1) → ¬ t.VtOn ∧ SameLists vf vlan 0 s.regs t →
        ¬ t1.VtOn ∧ SameLists vf vlan 0 s.regs t1 := by
    intro t t1 p on e h1 ht
    refine ⟨fun hc => ht.1 (h1.vtOn.mp hc), ht.2.trans ?_⟩
    cases h1 with
    | noSpace _ hon _ => exact absurd hon ht.1
    | vftaOnly _ _ _ => exact SameLists.refl vf vlan 0 t
    | join _ _ hon _ => exact absurd hon ht.1
    | release _ _ hon _ _ => exact absurd hon ht.1
    | leave _ _ hon _ _ => exact absurd hon ht.1
  refine (h.inv (P := fun t => ¬ t.VtOn ∧ SameLists vf vlan 0 s.regs t)
    (fun t t1 e h1 => hcall t t1 pf true e h1) (fun t t1 e h2 => hcall t t1 vf add e h2)
    (fun t t1 hup ht => ⟨?_, ht.2.trans (hup.sameLists hpf hvf hne 0)⟩)
    ⟨hvt, SameLists.refl vf vlan 0 s.regs⟩).2
  intro hc
  refine ht.1 ?_
  cases hup with
  | absent _ => exact hc
  | keep _ _ _ _ _ _ => exact hc
  | free _ _ _ _ _ _ =>
    revert hc
    cases s.vlanPromisc <;> exact id

theorem VftaStep.strays {p : ℕ} {on : Bool} (hp : p < 64) (hvf : vf < 64) (hv : vid ≠ 0)
    (hv' : vid ≤ 4095) (h : VftaStep t vid p on false (e, t')) : SameLists vf 0 1 t t' := by
  have hword : vlvfWord vid ≠ vlvfWord 0 := fun hc => hv (vlvfWord_inj hv' (by decide) hc)
  -- the slot that is written holds no entry for VLAN 0, neither before nor after
  have hslot : ∀ (k : ℕ) (b : Bool) (x : U32), t.vlvf k ≠ vlvfWord 0 → x ≠ vlvfWord 0 →
      SameLists vf 0 1 t ((t.setPool k p b).writeVlvf k x) := by
    intro k b x hk hx i _ _
    rw [writeVlvf_poolBit, writeVlvf_vlvf]
    by_cases hik : i = k
    · rw [if_pos hik, hik]
      exact ⟨fun hc => absurd hc.1 hx, fun hc => absurd hc.1 hk⟩
    · rw [if_neg hik, setPool_poolBit_of_slot_ne b hp hvf hik]
      exact Iff.rfl
  have hfound : ∀ k, SlotFor t vid false k → t.vlvf k ≠ vlvfWord 0 := by
    intro k hs
    cases hs with
    | reserved hv0 => exact absurd hv0 hv
    | held _ _ _ _ hw => exact hw ▸ hword
    | free _ _ _ _ _ _ hw _ => exact hw ▸ (vlvfWord_ne_zero 0).symm
  cases h with
  | noSpace _ _ _ => exact SameLists.refl vf 0 1 t
  | vftaOnly _ _ _ => exact SameLists.refl vf 0 1 t
  | join _ k _ hs => exact hslot k true _ (hfound k hs) hword
  | release _ k _ hs _ => exact hslot k false _ (hfound k hs) (vlvfWord_ne_zero 0).symm
  | leave _ k _ hs _ => exact hslot k false _ (hfound k hs) hword

theorem VfVlanStep.strays (hpf : pf < 64) (hvf : vf < 64) (hne : vf ≠ pf) (hv : vid ≠ 0)
    (hv' : vid ≤ 4095) (h : VfVlanStep s pf vid vf add (e, t')) : SameLists vf 0 1 s.regs t' :=
  h.inv (P := fun t => SameLists vf 0 1 s.regs t)
    (fun _ _ _ h1 ht => ht.trans (h1.strays hpf hvf hv hv'))
    (fun _ _ _ h2 ht => ht.trans (h2.strays hvf hvf hv hv'))
    (fun _ _ hup ht => ht.trans (hup.sameLists hpf hvf hne 1)) (SameLists.refl vf 0 1 s.regs)

theorem VfVlanStep.listed (hvf : vf < 64) (hvt : s.regs.VtOn)
    (h : VfVlanStep s pf vid vf true (success, t')) (hv : vid ≠ 0) : Lists t' vf vid 1 := by
  obtain ⟨t1, hvt1, h2⟩ :
      ∃ t1 : VlanRegs, t1.VtOn ∧ VftaStep t1 vid vf true false (success, t') := by
    cases h with
    | pfFail _ _ _ _ he => exact absurd rfl he
    | joinFail _ _ _ _ _ _ he _ => exact absurd rfl he
    | joined t1 _ h1 h2 =>
      refine ⟨t1, ?_, h2⟩
      rcases h1 with ⟨-, h1⟩ | ⟨-, rfl⟩
      · exact h1.vtOn.mpr hvt
      · exact hvt
  obtain ⟨i, hs, rfl⟩ := h2.join_of_success hvt1
  refine ⟨i, hs.pos hv, hs.lt, ?_, ?_⟩
  · rw [setVftaBit_vlvf, writeVlvf_vlvf_self]
  · rw [setVftaBit_poolBit, writeVlvf_poolBit, setPool_poolBit true hvf hvf, if_pos ⟨rfl, rfl⟩]

end

/-- In what the VF sends. -/
def TagsWith (x : U32) (vid qos : ℕ) : Prop :=
  (x &&& 0xFFF).toNat = vid ∧ ((x >>> 13) &&& 0x7).toNat = qos ∧ x &&& 0x40000000 ≠ 0

theorem vmvirWord_toNat {vid qos : ℕ} (hv : vid ≤ 4095) (hq : qos ≤ 7) :
    (vmvirWord vid qos).toNat = 2 ^ 30 + (qos * 2 ^ 13 + vid) := by
  have hqos : (BitVec.ofNat 32 qos <<< 13).toNat = qos * 2 ^ 13 := by
    rw [BitVec.toNat_shiftLeft, BitVec.toNat_ofNat, Nat.mod_eq_of_lt (by omega : qos < 2 ^ 32),
      Nat.shiftLeft_eq, Nat.mod_eq_of_lt (by omega)]
  have hvid : (BitVec.ofNat 32 vid).toNat = vid := by
    rw [BitVec.toNat_ofNat, Nat.mod_eq_of_lt (by omega)]
  rw [vmvirWord, BitVec.toNat_or, BitVec.toNat_or, hqos, hvid, Nat.or_comm, Nat.or_comm vid,
    Nat.mul_comm qos, ← Nat.two_pow_add_eq_or_of_lt (by omega : vid < 2 ^ 13)]
  exact (Nat.two_pow_add_eq_or_of_lt (i := 30) (by omega) 1).symm

theorem tagsWith_vmvirWord {vid qos : ℕ} (hv : vid ≤ 4095) (hq : qos ≤ 7) :
    TagsWith (vmvirWord vid qos) vid qos := by
  have hword := vmvirWord_toNat hv hq
  refine ⟨?_, ?_, ?_⟩
  · rw [BitVec.toNat_and, hword]
    change _ &&& 2 ^ 12 - 1 = vid
    rw [Nat.and_two_pow_sub_one_eq_mod]
    omega
  · rw [BitVec.toNat_and, BitVec.toNat_ushiftRight, hword, Nat.shiftRight_eq_div_pow]
    change _ &&& 2 ^ 3 - 1 = qos
    rw [Nat.and_two_pow_sub_one_eq_mod]
    omega
  · intro hc
    have hbit := congrArg (fun y => BitVec.getLsbD y 30) hc
    simp [vmvirWord] at hbit

section

variable {cfg : AdapterCfg} {a b : Adapter} {vf : Fin cfg.numVfs} {vlan qos : ℕ}

theorem setVfVlan_vfStep (cfg : AdapterCfg) (s : VlanState) (vf : Fin cfg.numVfs) (add : Bool)
    {vid : ℕ} (hv : vid ≤ 4095) : VfVlanStep s cfg.pf vid vf add
      ((setVfVlan cfg.toPoolCfg s add vid vf).1, (setVfVlan cfg.toPoolCfg s add vid vf).2.regs) :=
  setVfVlan_step cfg.pf_lt add hv (cfg.vf_lt vf)

theorem disablePortVlan_vlan (v : ℕ) : (disablePortVlan cfg a v).2.vlan =
    (setVfVlan cfg.toPoolCfg
      (setVfVlan cfg.toPoolCfg a.vlan false (a.vfinfo v).pfVlan v).2 true 0 v).2 := by
  unfold disablePortVlan
  split_ifs <;> rfl

theorem enablePortVlan_fst (v : ℕ) : (enablePortVlan cfg a v vlan qos).1 =
    (setVfVlan cfg.toPoolCfg a.vlan true vlan v).1 := by
  unfold enablePortVlan
  dsimp only
  split_ifs <;> rfl

theorem enablePortVlan_ok {v : ℕ} (hok : (enablePortVlan cfg a v vlan qos).1 = 0) :
    (enablePortVlan cfg a v vlan qos).2.vlan =
        (setVfVlan cfg.toPoolCfg (setVfVlan cfg.toPoolCfg a.vlan true vlan v).2 false 0 v).2 ∧
      (enablePortVlan cfg a v vlan qos).2.regs.vmvir v = vmvirWord vlan qos := by
  have hadd : ¬ (a.setVfVlan cfg true vlan v).1 ≠ 0 :=
    not_not.mpr ((enablePortVlan_fst v).symm.trans hok)
  unfold enablePortVlan
  rw [if_neg hadd]
  split_ifs <;> exact ⟨rfl, Function.update_self ..⟩

theorem disabled_lists (vlan : ℕ) (hb : b = a ∨ b = (disablePortVlan cfg a vf).2) :
    (b.vlan.regs.VtOn ↔ a.vlan.regs.VtOn) ∧
      (¬ a.vlan.regs.VtOn → SameLists vf vlan 0 a.vlan.regs b.vlan.regs) ∧
      SameLists vf 0 1 a.vlan.regs b.vlan.regs := by
  have hpf := cfg.pf_lt
  have hvf := cfg.vf_lt vf
  have hne := cfg.vf_ne_pf vf
  rcases hb with rfl | rfl
  · exact ⟨Iff.rfl, fun _ => SameLists.refl _ _ _ _, SameLists.refl _ _ _ _⟩
  rw [disablePortVlan_vlan]
  have h1 := setVfVlan_vfStep cfg a.vlan vf false
    (by omega : ((a.vfinfo vf).pfVlan : ℕ) ≤ 4095)
  have h2 := setVfVlan_vfStep cfg
    (setVfVlan cfg.toPoolCfg a.vlan false (a.vfinfo vf).pfVlan vf).2 vf true (by omega : 0 ≤ 4095)
  refine ⟨h2.vtOn.trans h1.vtOn, fun hvt => ?_, SameLists.trans ?_ (h2.zero_slots hpf hvf)⟩
  · exact (h1.lists_of_vtOff hpf hvf hne hvt).trans
      (h2.lists_of_vtOff hpf hvf hne fun hc => hvt (h1.vtOn.mp hc))
  · by_cases hv : ((a.vfinfo vf).pfVlan : ℕ) = 0
    · rw [hv] at h1 ⊢
      exact h1.zero_slots hpf hvf
    · exact h1.strays hpf hvf hne hv (by omega)

end

/-- In an enabled entry, its frames tagged, and the setting recorded. -/
structure PortVlanSet (a : Adapter) (vf vlan qos : ℕ) : Prop where
  listed : Lists a.vlan.regs vf vlan 0
  tags : TagsWith (a.regs.vmvir vf) vlan qos
  pfVlan : ((a.vfinfo vf).pfVlan : ℕ) = vlan
  pfQos : (a.vfinfo vf).pfQos = qos

/-- With VT mode on another VLAN than 0, whose entry the call revokes; with it off no entry is
written. -/
def Enforceable (t : VlanRegs) (vf vlan : ℕ) : Prop :=
  if t.VtOn then vlan ≠ 0 ∨ Lists t vf 0 1 else Lists t vf vlan 0

theorem enablePortVlan_lists_iff {cfg : AdapterCfg} {b : Adapter} {vf : Fin cfg.numVfs}
    {vlan qos : ℕ} (hvlan : vlan ≤ 4095) (hok : (enablePortVlan cfg b vf vlan qos).1 = 0) :
    Lists (enablePortVlan cfg b vf vlan qos).2.vlan.regs vf vlan 0 ↔
      Enforceable b.vlan.regs vf vlan := by
  have hpf := cfg.pf_lt
  have hvf := cfg.vf_lt vf
  have hne := cfg.vf_ne_pf vf
  have h1 := setVfVlan_vfStep cfg b.vlan vf true hvlan
  have h2 := setVfVlan_vfStep cfg (setVfVlan cfg.toPoolCfg b.vlan true vlan vf).2 vf false
    (by omega : 0 ≤ 4095)
  rw [(enablePortVlan_ok hok).1, Enforceable]
  split
  case isTrue hvt =>
    have hout := h2.zero_revoked hvf (h1.vtOn.mpr hvt)
    by_cases hv : vlan = 0
    · -- what is left are the entries outside slot 0, which neither step changes
      subst hv
      rw [← (SameLists.trans (h1.zero_slots hpf hvf) (h2.zero_slots hpf hvf)).lists_iff]
      constructor
      · rintro ⟨i, -, hi, hw, hbit⟩
        refine .inr ⟨i, Nat.pos_of_ne_zero ?_, hi, hw, hbit⟩
        rintro rfl
        exact absurd hbit (ne_true_of_eq_false hout)
      · rintro (hc | ⟨i, -, h⟩)
        · exact absurd rfl hc
        · exact ⟨i, Nat.zero_le i, h⟩
    · rw [enablePortVlan_fst] at hok
      rw [hok] at h1
      obtain ⟨i, -, h⟩ := (h2.zero_slots hpf hvf).lists_iff.mpr (h1.listed hvf hvt hv)
      exact ⟨fun _ => .inl hv, fun _ => ⟨i, Nat.zero_le i, h⟩⟩
  case isFalse hvt =>
    exact (SameLists.trans (h1.lists_of_vtOff hpf hvf hne hvt)
      (h2.lists_of_vtOff hpf hvf hne fun hc => hvt (h1.vtOn.mp hc))).lists_iff

/-- **A successful call puts the port VLAN in force exactly if the table lets it.** -/
theorem portVlanSet_iff (cfg : AdapterCfg) (a : Adapter) (vf : Fin cfg.numVfs)
    (vlan qos proto : ℕ) (hset : vlan ≠ 0 ∨ qos ≠ 0)
    (hok : (ndoSetVfVlan cfg a vf vlan qos proto).1 = 0) :
    PortVlanSet (ndoSetVfVlan cfg a vf vlan qos proto).2 vf vlan qos ↔
      Enforceable a.vlan.regs vf vlan := by
  obtain ⟨hpfVlan, hpfQos⟩ := ndoSetVfVlan_recorded hset hok
  obtain ⟨hvlan, hqos, b, hb, hen, heq⟩ := ndoSetVfVlan_ok hset hok
  obtain ⟨hvt, hoff, hstray⟩ := disabled_lists vlan hb
  have htags : TagsWith ((ndoSetVfVlan cfg a vf vlan qos proto).2.regs.vmvir vf) vlan qos := by
    rw [heq, (enablePortVlan_ok hen).2]
    exact tagsWith_vmvirWord (by omega) hqos
  have hlists : Lists (ndoSetVfVlan cfg a vf vlan qos proto).2.vlan.regs vf vlan 0 ↔
      Enforceable a.vlan.regs vf vlan := by
    rw [heq, enablePortVlan_lists_iff (by omega) hen, Enforceable, Enforceable]
    by_cases h : a.vlan.regs.VtOn
    · rw [if_pos h, if_pos (hvt.mpr h), hstray.lists_iff]
    · rw [if_neg h, if_neg fun hc => h (hvt.mp hc), (hoff h).lists_iff]
  exact ⟨fun h => hlists.mp h.listed, fun h => ⟨hlists.mpr h, htags, hpfVlan, hpfQos⟩⟩

theorem portVlanSet_vlan_five :
    let a := enabledAdapter oneVfAdapterCfg 0x0250#48
    (ndoSetVfVlan oneVfAdapterCfg a 0 5 3 0x8100).1 = 0 ∧
      PortVlanSet (ndoSetVfVlan oneVfAdapterCfg a 0 5 3 0x8100).2 0 5 3 := by
  intro a
  have hok : (ndoSetVfVlan oneVfAdapterCfg a 0 5 3 0x8100).1 = 0 := by decide +kernel
  refine ⟨hok, (portVlanSet_iff oneVfAdapterCfg a oneVf 5 3 0x8100 (by decide) hok).mpr ?_⟩
  rw [Enforceable, if_pos (by decide)]
  exact .inl (by decide)

/-- VLAN 0 with priority 3 is accepted, and no entry for VLAN 0 lists the VF. -/
theorem portVlan_zero_not_listed :
    let a := enabledAdapter oneVfAdapterCfg 0x0250#48
    (ndoSetVfVlan oneVfAdapterCfg a 0 0 3 0x8100).1 = 0 ∧
      ¬ PortVlanSet (ndoSetVfVlan oneVfAdapterCfg a 0 0 3 0x8100).2 0 0 3 := by
  intro a
  refine ⟨by decide +kernel, fun h => ?_⟩
  obtain ⟨i, -, hi, hw, hbit⟩ := h.listed
  have hnone : ∀ i < 64, ¬ ((ndoSetVfVlan oneVfAdapterCfg a 0 0 3 0x8100).2.vlan.regs.vlvf i =
      vlvfWord 0 ∧
      (ndoSetVfVlan oneVfAdapterCfg a 0 0 3 0x8100).2.vlan.regs.poolBit i 0 = true) := by
    decide +kernel
  exact hnone i hi ⟨hw, hbit⟩

/-- Also freed when only the PF is left in it and monitors the VLAN. -/
def tornDown (cfg : PoolCfg) (s : VlanState) (v vf i : ℕ) : VlanRegs :=
  let t := (s.regs.setPool i vf false).writeVlvf i
    (if s.regs.OthersEmpty i vf then 0 else vlvfWord v)
  let k := findVlvfEntry t v
  if (s.active v = true ∨ s.vlanPromisc = true) ∧ k ≠ 0 ∧ t.OthersEmpty k (cfg.vmdqP 0) then
    t.writeVlvf k 0
  else t

/-- A change of the VF's port VLAN from `v` to `w` fits in the table. -/
def ChangeFits (cfg : PoolCfg) (s : VlanState) (v vf w : ℕ) : Prop :=
  ¬ s.regs.VtOn ∨ ∃ i : ℕ, findVlvfSlot s.regs v false = i ∧ (w = 0 ∨ ∃ j, 1 ≤ j ∧ j < 64 ∧
    ((tornDown cfg s v vf i).vlvf j = 0 ∨ (tornDown cfg s v vf i).vlvf j = vlvfWord w))

/-- A call that fails leaves port VLAN, outgoing tag and entries. -/
def AllOrNothing (cfg : AdapterCfg) (a : Adapter) (vf vlan qos : ℕ) : Prop :=
  let r := ndoSetVfVlan cfg a vf vlan qos 0x8100
  r.1 ≠ 0 → (r.2.vfinfo vf).pfVlan = (a.vfinfo vf).pfVlan ∧
    (r.2.vfinfo vf).pfQos = (a.vfinfo vf).pfQos ∧ r.2.regs.vmvir vf = a.regs.vmvir vf ∧
    ∀ i < 64, r.2.vlan.regs.poolBit i vf = a.vlan.regs.poolBit i vf

section

variable {cfg : PoolCfg} {s : VlanState} {v vf w i : ℕ}

theorem noSlot_iff {t : VlanRegs} : NoSlot t w false ↔
    ¬ (w = 0 ∨ ∃ j, 1 ≤ j ∧ j < 64 ∧ (t.vlvf j = 0 ∨ t.vlvf j = vlvfWord w)) := by
  constructor
  · rintro ⟨hw, hheld, hfull⟩ (h0 | ⟨j, h1, h2, hfree | hword⟩)
    · exact hw h0
    · exact hfull rfl j h1 h2 hfree
    · exact hheld ⟨j, h1, h2, hword⟩
  · intro h
    rw [not_or] at h
    refine ⟨h.1, ?_, fun _ j h1 h2 hfree => h.2 ⟨j, h1, h2, .inl hfree⟩⟩
    rintro ⟨j, h1, h2, hword⟩
    exact h.2 ⟨j, h1, h2, .inr hword⟩

theorem updatePfPromiscVlvf_vlvf (hpf : cfg.vmdqP 0 < 64) (vid : ℕ) :
    (updatePfPromiscVlvf cfg s vid).regs.vlvf =
      if findVlvfEntry s.regs vid ≠ 0 ∧
          s.regs.OthersEmpty (findVlvfEntry s.regs vid) (cfg.vmdqP 0) then
        (s.regs.writeVlvf (findVlvfEntry s.regs vid) 0).vlvf
      else s.regs.vlvf := by
  unfold updatePfPromiscVlvf
  generalize findVlvfEntry s.regs vid = k
  have hother := slotWord_xor_one k (by omega : cfg.vmdqP 0 / 32 < 2)
  simp only [hother, BitVec.and_comm (~~~shl1 _), othersEmpty_iff k hpf]
  by_cases hk : k = 0
  · rw [if_pos hk, if_neg fun hc => hc.1 hk]
  · rw [if_neg hk]
    split
    case isTrue ho =>
      rw [if_pos (show k ≠ 0 ∧ _ from ⟨hk, ho⟩)]
      cases s.vlanPromisc <;> rfl
    case isFalse ho =>
      rw [if_neg fun hc => ho hc.2]

theorem setVfVlan_remove_vlvf (hpf : cfg.vmdqP 0 < 64) (hv : v ≤ 4095) (hvf : vf < 64)
    (hvt : s.regs.VtOn) (hi : findVlvfSlot s.regs v false = (i : ℤ)) :
    (setVfVlan cfg s false v vf).2.regs.vlvf = (tornDown cfg s v vf i).vlvf := by
  have hcall := setVftaGeneric_slot s.regs hv hvf hvt false false hi
  unfold setVfVlan tornDown
  simp only [Bool.false_eq_true, false_and, if_false, ne_eq, not_true, hcall, active_regs]
  -- the VFTA bit that goes with a freed slot is no part of the words
  generalize ht : (if s.regs.OthersEmpty i vf then
    ((s.regs.setPool i vf false).writeVlvf i 0).setVftaBit v false
    else (s.regs.setPool i vf false).writeVlvf i (vlvfWord v)) = t
  generalize ht' : (s.regs.setPool i vf false).writeVlvf i
    (if s.regs.OthersEmpty i vf then 0 else vlvfWord v) = t'
  have hvlvf : t.vlvf = t'.vlvf := by
    rw [← ht, ← ht']
    split_ifs <;> rfl
  have hpools : ∀ k p, t.poolBit k p = t'.poolBit k p := by
    intro k p
    rw [← ht, ← ht']
    split_ifs <;> rfl
  have hentry : findVlvfEntry t v = findVlvfEntry t' v := by
    rw [findVlvfEntry, findVlvfEntry, hvlvf]
  have hempty : ∀ k, t.OthersEmpty k (cfg.vmdqP 0) ↔ t'.OthersEmpty k (cfg.vmdqP 0) := by
    intro k
    simp only [OthersEmpty, hpools]
  split
  case isTrue hm =>
    rw [updatePfPromiscVlvf_vlvf hpf]
    simp only [hentry, hempty]
    split
    case isTrue hfree =>
      rw [if_pos ⟨hm, hfree⟩]
      simp only [writeVlvf, hvlvf]
    case isFalse hfree =>
      rw [if_neg fun hc => hfree hc.2, hvlvf]
  case isFalse hm =>
    rw [if_neg fun hc => hm hc.1]
    exact hvlvf

theorem findVlvfSlot_eq_iff {t : VlanRegs} {b : Bool} :
    (∃ i : ℕ, findVlvfSlot t v b = i) ↔ ¬ NoSlot t v b := by
  have hsearch := findVlvfSlot_search t v b
  generalize findVlvfSlot t v b = r at hsearch ⊢
  cases hsearch with
  | slot i hs => exact ⟨fun _ => hs.not_noSlot, fun _ => ⟨i, rfl⟩⟩
  | none hn =>
    refine ⟨?_, fun hc => absurd hn hc⟩
    rintro ⟨i, hi⟩
    exact absurd hi (by rw [errNoSpace]; omega)

end

section

variable {cfg : AdapterCfg} {a : Adapter} {vf : Fin cfg.numVfs} {vlan qos : ℕ}

theorem disablePortVlan_eq_zero_iff : (disablePortVlan cfg a vf).1 = 0 ↔
    ¬ a.vlan.regs.VtOn ∨ ¬ NoSlot a.vlan.regs (a.vfinfo vf).pfVlan false :=
  (setVfVlan_vfStep cfg a.vlan vf false (by omega)).success_iff

theorem enablePortVlan_eq_zero_iff (hvlan : vlan ≤ 4094) :
    (enablePortVlan cfg a vf vlan qos).1 = 0 ↔
    ¬ a.vlan.regs.VtOn ∨ ¬ NoSlot a.vlan.regs vlan false := by
  rw [enablePortVlan_fst]
  exact (setVfVlan_vfStep cfg a.vlan vf true (by omega)).success_iff

theorem noSlot_disabled {i : ℕ} (hvt : a.vlan.regs.VtOn)
    (hi : findVlvfSlot a.vlan.regs (a.vfinfo vf).pfVlan false = (i : ℤ)) :
    NoSlot (disablePortVlan cfg a vf).2.vlan.regs vlan false ↔
      NoSlot (tornDown cfg.toPoolCfg a.vlan (a.vfinfo vf).pfVlan vf i) vlan false := by
  have hwords : ∀ j, 1 ≤ j → j < 64 → (disablePortVlan cfg a vf).2.vlan.regs.vlvf j =
      (tornDown cfg.toPoolCfg a.vlan (a.vfinfo vf).pfVlan vf i).vlvf j := by
    intro j hj _
    have hzero := (setVfVlan_vfStep cfg
      (setVfVlan cfg.toPoolCfg a.vlan false (a.vfinfo vf).pfVlan vf).2 vf true
      (by omega : 0 ≤ 4095)).zero_sameSlot cfg.pf_lt (cfg.vf_lt vf) (Nat.ne_of_gt hj)
    rw [disablePortVlan_vlan, hzero.vlvf,
      setVfVlan_remove_vlvf cfg.pf_lt (by omega) (cfg.vf_lt vf) hvt hi]
  exact ⟨NoSlot.congr fun j h1 h2 => (hwords j h1 h2).symm, NoSlot.congr hwords⟩

section

variable (hvlan : vlan ≤ 4094) (hqos : qos ≤ 7) (hpv : (a.vfinfo vf).pfVlan ≠ 0)

include hvlan hqos hpv

theorem ndoSetVfVlan_change : ndoSetVfVlan cfg a vf vlan qos 0x8100 =
      if (vlan ≠ 0 ∨ qos ≠ 0) ∧ (disablePortVlan cfg a vf).1 = 0 then
        enablePortVlan cfg (disablePortVlan cfg a vf).2 vf vlan qos
      else disablePortVlan cfg a vf := by
  have hrange : ¬ (((vf : ℕ) : ℤ) < 0 ∨ ((vf : ℕ) : ℤ) ≥ cfg.numVfs ∨ vlan > 4094 ∨ qos > 7) := by
    omega
  rw [ndoSetVfVlan, if_neg hrange, if_neg (by decide)]
  dsimp only [Int.toNat_natCast]
  rw [if_pos hpv]
  split
  case isTrue hset =>
    by_cases hdis : (disablePortVlan cfg a vf).1 = 0
    · rw [if_neg (not_not.mpr hdis), if_pos ⟨hset, hdis⟩]
    · rw [if_pos hdis, if_neg fun hc => hdis hc.2]
  case isFalse hset =>
    rw [if_neg fun hc => hset hc.1]

theorem ndoSetVfVlan_eq_zero_iff : (ndoSetVfVlan cfg a vf vlan qos 0x8100).1 = 0 ↔
      (disablePortVlan cfg a vf).1 = 0 ∧
        (vlan = 0 ∧ qos = 0 ∨
          (enablePortVlan cfg (disablePortVlan cfg a vf).2 vf vlan qos).1 = 0) := by
  rw [ndoSetVfVlan_change hvlan hqos hpv]
  by_cases hdis : (disablePortVlan cfg a vf).1 = 0
  · by_cases hset : vlan ≠ 0 ∨ qos ≠ 0
    · have hzero : ¬ (vlan = 0 ∧ qos = 0) := by omega
      rw [if_pos ⟨hset, hdis⟩]
      exact ⟨fun h => ⟨hdis, .inr h⟩, fun h => h.2.resolve_left hzero⟩
    · rw [if_neg fun hc => hset hc.1]
      exact ⟨fun h => ⟨h, .inl (by omega)⟩, fun h => h.1⟩
  · rw [if_neg fun hc => hdis hc.2]
    exact ⟨fun hc => absurd hc hdis, fun hc => hc.1⟩

theorem ndoSetVfVlan_eq_zero_iff_fits : (ndoSetVfVlan cfg a vf vlan qos 0x8100).1 = 0 ↔
      ChangeFits cfg.toPoolCfg a.vlan (a.vfinfo vf).pfVlan vf vlan := by
  rw [ndoSetVfVlan_eq_zero_iff hvlan hqos hpv, disablePortVlan_eq_zero_iff,
    enablePortVlan_eq_zero_iff hvlan, ChangeFits]
  obtain ⟨hvt', -, -⟩ := disabled_lists vlan (.inr rfl : _ ∨ _ = (disablePortVlan cfg a vf).2)
  rw [hvt']
  by_cases hvt : a.vlan.regs.VtOn
  swap
  · exact ⟨fun _ => .inl hvt, fun _ => ⟨.inl hvt, .inr (.inl hvt)⟩⟩
  constructor
  · rintro ⟨hold, hnew⟩
    obtain ⟨i, hi⟩ := findVlvfSlot_eq_iff.mpr (hold.resolve_left (not_not.mpr hvt))
    refine .inr ⟨i, hi, ?_⟩
    rcases hnew with ⟨h0, -⟩ | hnew
    · exact .inl h0
    · have hno := hnew.resolve_left (not_not.mpr hvt)
      rw [noSlot_disabled hvt hi, noSlot_iff, not_not] at hno
      exact hno
  · intro hfits
    obtain ⟨i, hi, hroom⟩ := hfits.resolve_left (not_not.mpr hvt)
    refine ⟨.inr (findVlvfSlot_eq_iff.mp ⟨i, hi⟩), .inr (.inr ?_)⟩
    rw [noSlot_disabled hvt hi, noSlot_iff, not_not]
    exact hroom

theorem ndoSetVfVlan_failed_pfVlan (hfail : (ndoSetVfVlan cfg a vf vlan qos 0x8100).1 ≠ 0) :
    ((ndoSetVfVlan cfg a vf vlan qos 0x8100).2.vfinfo vf).pfVlan = 0 := by
  have hdis : ((disablePortVlan cfg a vf).2.vfinfo vf).pfVlan = 0 := by
    rw [disablePortVlan_vfinfo, Function.update_self]
  rw [ndoSetVfVlan_change hvlan hqos hpv] at hfail ⊢
  split_ifs at hfail ⊢
  · rw [enablePortVlan_vfinfo, if_pos hfail]
    exact hdis
  · exact hdis

end

end

/-- **All or nothing.** The old port VLAN is forgotten first, so a call with valid arguments is
all-or-nothing exactly if the change fits in the table. -/
theorem allOrNothing_iff (cfg : AdapterCfg) (a : Adapter) (vf : Fin cfg.numVfs) (vlan qos : ℕ)
    (hvlan : vlan ≤ 4094) (hqos : qos ≤ 7) (hpv : (a.vfinfo vf).pfVlan ≠ 0) :
    AllOrNothing cfg a vf vlan qos ↔
      ChangeFits cfg.toPoolCfg a.vlan (a.vfinfo vf).pfVlan vf vlan := by
  rw [← ndoSetVfVlan_eq_zero_iff_fits hvlan hqos hpv]
  constructor
  · intro h
    by_contra hfail
    obtain ⟨hsame, -⟩ := h hfail
    exact hpv (hsame.symm.trans (ndoSetVfVlan_failed_pfVlan hvlan hqos hpv hfail))
  · exact fun hok hfail => absurd hok hfail

/-- VF 1 fills the table with the VLANs 1 to 63 and shares VLAN 5 with VF 0, whose port VLAN it is.
-/
def fullTableAdapter : Adapter :=
  let a := enabledAdapter twoVfsCfg 0x0250#48
  { a.modifyVf 0 fun v => { v with pfVlan := 5 } with
    vlan.regs := { vtOnlyRegs with
      vlvf := fun i => if i = 0 then 0 else vlvfWord i
      vlvfb := fun k => if k = 10 then 3 else if k % 2 = 0 ∧ k ≠ 0 then 2 else 0 } }

theorem allOrNothing_vlan_seven :
    (fullTableAdapter.vfinfo 0).pfVlan ≠ 0 ∧ AllOrNothing twoVfsCfg fullTableAdapter 0 7 0 := by
  refine ⟨by decide, (allOrNothing_iff twoVfsCfg fullTableAdapter ⟨0, by decide⟩ 7 0 (by decide)
    (by decide) (by decide)).mpr (.inr ⟨5, by decide +kernel, .inr ⟨7, by decide, by decide, ?_⟩⟩)⟩
  exact .inr (by decide +kernel)

/-- VLAN 100 finds no room, and the VF is left without a port VLAN, in VLAN 0. -/
theorem failed_change_loses_portVlan :
    (ndoSetVfVlan twoVfsCfg fullTableAdapter (0 : ℕ) 100 0 0x8100).1 ≠ 0 ∧
      (fullTableAdapter.vfinfo 0).pfVlan = 5 ∧
      ((ndoSetVfVlan twoVfsCfg fullTableAdapter (0 : ℕ) 100 0 0x8100).2.vfinfo 0).pfVlan = 0 ∧
      ¬ AllOrNothing twoVfsCfg fullTableAdapter 0 100 0 := by
  have hret : (ndoSetVfVlan twoVfsCfg fullTableAdapter (0 : ℕ) 100 0 0x8100).1 ≠ 0 := by
    decide +kernel
  have hold : (fullTableAdapter.vfinfo 0).pfVlan = 5 := by decide
  have hlost : ((ndoSetVfVlan twoVfsCfg fullTableAdapter (0 : ℕ) 100 0 0x8100).2.vfinfo 0).pfVlan =
      0 := by decide +kernel
  refine ⟨hret, hold, hlost, fun h => ?_⟩
  exact absurd (hlost.symm.trans ((h hret).1.trans hold)) (by decide)

end Ixgbe
