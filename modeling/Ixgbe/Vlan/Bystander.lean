import Ixgbe.Vlan.Promisc

/-! # What the operations of others leave of a pool's VLANs

`Keeps w t t'`: pool `w` is listed in the same slots, and a slot that lists it keeps its VLAN. -/

namespace Ixgbe

open VlanRegs

/-- Pool `w` is in the same slots, and those of `1..63` hold the same VLAN. -/
structure Keeps (w : ℕ) (t t' : VlanRegs) : Prop where
  pools : ∀ j < 64, t'.poolBit j w = t.poolBit j w
  vlvf : ∀ j, 1 ≤ j → j < 64 → t.poolBit j w = true → t.vlvf j ≠ 0 → t'.vlvf j = t.vlvf j

theorem SlotFor.word_eq {t : VlanRegs} {vlan i : ℕ} {b : Bool} (h : SlotFor t vlan b i) (hi : 1 ≤ i)
    (hne : t.vlvf i ≠ 0) : vlvfWord vlan = t.vlvf i := by
  cases h with
  | reserved _ => omega
  | held _ _ _ _ hw => exact hw.symm
  | free _ _ _ _ _ _ hw _ => exact absurd hw hne

namespace Keeps

variable {w p i : ℕ} {t t' t₁ t₂ t₃ : VlanRegs}

theorem refl (w : ℕ) (t : VlanRegs) : Keeps w t t := ⟨fun _ _ => rfl, fun _ _ _ _ _ => rfl⟩

theorem trans (h1 : Keeps w t₁ t₂) (h2 : Keeps w t₂ t₃) : Keeps w t₁ t₃ where
  pools j hj := (h2.pools j hj).trans (h1.pools j hj)
  vlvf j hj hj' hbit hne := by
    have hw := h1.vlvf j hj hj' hbit hne
    rw [← hw]
    exact h2.vlvf j hj hj' ((h1.pools j hj').trans hbit) (hw ▸ hne)

theorem setVftaBit (h : Keeps w t t') (v : ℕ) (b : Bool) : Keeps w t (t'.setVftaBit v b) :=
  ⟨h.pools, h.vlvf⟩

theorem setPool (hp : p < 64) (hw : w < 64) (hpw : p ≠ w) (t : VlanRegs) (i : ℕ) (b : Bool) :
    Keeps w t (t.setPool i p b) :=
  ⟨fun j _ => setPool_poolBit_of_ne b hp hw hpw j, fun _ _ _ _ _ => rfl⟩

theorem writeVlvf (t : VlanRegs) (i : ℕ) (x : U32)
    (h : 1 ≤ i → i < 64 → t.poolBit i w = true → t.vlvf i ≠ 0 → x = t.vlvf i) :
    Keeps w t (t.writeVlvf i x) where
  pools _ _ := rfl
  vlvf j hj hj' hbit hne := by
    rw [writeVlvf_vlvf]
    by_cases hji : j = i
    · subst hji
      rw [if_pos rfl]
      exact h hj hj' hbit hne
    · rw [if_neg hji]

theorem setPool_writeVlvf (hp : p < 64) (hw : w < 64) (hpw : p ≠ w) (t : VlanRegs) (i : ℕ)
    (b : Bool) (x : U32) (h : 1 ≤ i → i < 64 → t.poolBit i w = true → t.vlvf i ≠ 0 → x = t.vlvf i) :
    Keeps w t ((t.setPool i p b).writeVlvf i x) := by
  refine (setPool hp hw hpw t i b).trans (writeVlvf _ i x fun hi hi' hbit hne => ?_)
  rw [setPool_poolBit_of_ne b hp hw hpw] at hbit
  exact h hi hi' hbit hne

theorem vftaStep {vlan : ℕ} {on b : Bool} {e : ℤ} (hp : p < 64) (hw : w < 64) (hpw : p ≠ w)
    (h : VftaStep t vlan p on b (e, t')) : Keeps w t t' := by
  cases h with
  | noSpace _ _ _ => exact refl w t
  | vftaOnly _ _ _ => exact (refl w t).setVftaBit vlan on
  | join _ i _ hs =>
    exact (setPool_writeVlvf hp hw hpw t i true _ fun hi _ _ hne => hs.word_eq hi hne).setVftaBit
      vlan true
  | release _ i _ _ ho =>
    -- nobody else was listed
    refine (setPool_writeVlvf hp hw hpw t i false 0 fun _ _ hbit _ => ?_).setVftaBit vlan false
    exact absurd hbit (ne_true_of_eq_false (ho w hw (Ne.symm hpw)))
  | leave _ i _ hs _ =>
    exact setPool_writeVlvf hp hw hpw t i false _ fun hi _ _ hne => hs.word_eq hi hne

theorem pfUpdate {promisc : Bool} {pf vid : ℕ} (hpf : pf < 64) (hw : w < 64) (hne : pf ≠ w)
    (h : PfUpdate t promisc pf vid t') : Keeps w t t' := by
  cases h with
  | absent _ => exact refl w t
  | keep _ _ _ _ _ _ => exact refl w t
  | free i _ _ _ _ ho =>
    have hout : t.poolBit i w = false := ho w hw (Ne.symm hne)
    cases promisc with
    | true =>
      exact writeVlvf t i 0 fun _ _ hbit _ => absurd hbit (ne_true_of_eq_false hout)
    | false =>
      exact setPool_writeVlvf hpf hw hne t i false 0 fun _ _ hbit _ =>
        absurd hbit (ne_true_of_eq_false hout)

theorem clearSlot {promisc : Bool} {pf vf : ℕ} (hvf : vf < 64) (hpf : pf < 64) (hw : w < 64)
    (hvw : vf ≠ w) (hpw : pf ≠ w) (h : ClearSlot t promisc pf vf i t') : Keeps w t t' := by
  have hleave := setPool hvf hw hvw t i false
  cases h with
  | absent _ => exact refl w t
  | others _ _ => exact hleave
  | onlyPf _ ho _ =>
    have hout : (t.setPool i vf false).poolBit i w = false := ho w hw (Ne.symm hpw)
    refine hleave.trans (setPool_writeVlvf hpf hw hpw _ i _ 0 fun _ _ hbit _ => ?_)
    exact absurd hbit (ne_true_of_eq_false hout)
  | stale _ _ _ => exact hleave
  | last _ ho _ =>
    have hout : t.poolBit i w = false := ho w hw (Ne.symm hvw)
    refine (setPool_writeVlvf hvf hw hvw t i false 0 fun _ _ hbit _ => ?_).setVftaBit _ false
    exact absurd hbit (ne_true_of_eq_false hout)

theorem vfVlanStep {s : VlanState} {pf vid vf : ℕ} {add : Bool} {e : ℤ} (hvf : vf < 64)
    (hpf : pf < 64) (hw : w < 64) (hvw : vf ≠ w) (hpw : pf ≠ w)
    (h : VfVlanStep s pf vid vf add (e, t')) : Keeps w s.regs t' :=
  h.inv (P := Keeps w s.regs) (fun _ _ _ h1 hk => hk.trans (vftaStep hpf hw hpw h1))
    (fun _ _ _ h2 hk => hk.trans (vftaStep hvf hw hvw h2))
    (fun _ _ h3 hk => hk.trans (pfUpdate hpf hw hpw h3)) (refl w s.regs)

end Keeps

section

variable {cfg : SriovCfg} {s : VlanState} {w : ℕ}

open Keeps

section

variable (hw : w < cfg.numVfs)

include hw

theorem setVfVlan_keeps (vf : Fin cfg.numVfs) (hvw : (vf : ℕ) ≠ w) (add : Bool)
    {vid : ℕ} (hv : vid ≤ 4095) :
    Keeps w s.regs (setVfVlan cfg.toPoolCfg s add vid vf).2.regs :=
  vfVlanStep (cfg.vf_lt vf) cfg.pf_lt (cfg.vf_lt ⟨w, hw⟩) hvw (cfg.vf_ne_pf ⟨w, hw⟩).symm
    (setVfVlan_step cfg.pf_lt add hv (cfg.vf_lt vf))

theorem clearVfVlans_keeps (vf : Fin cfg.numVfs) (hvw : (vf : ℕ) ≠ w) :
    Keeps w s.regs (clearVfVlans cfg.toPoolCfg s vf).regs :=
  clearVfVlans_inv (P := Keeps w s.regs) vf
    (fun _ _ _ _ hc h => h.trans (clearSlot (cfg.vf_lt vf) cfg.pf_lt (cfg.vf_lt ⟨w, hw⟩) hvw
      (cfg.vf_ne_pf ⟨w, hw⟩).symm hc)) (refl w s.regs)

theorem vlanPromiscEnable_keeps : Keeps w s.regs (vlanPromiscEnable cfg.toPoolCfg s).regs := by
  have hwpf : w ≠ cfg.pf := cfg.vf_ne_pf ⟨w, hw⟩
  cases hp : s.vlanPromisc with
  | true =>
    have hsame : (vlanPromiscEnable cfg.toPoolCfg s).regs = s.regs := by
      simp [vlanPromiscEnable, cfg.vmdq, hp]
    rw [hsame]
    exact refl w s.regs
  | false =>
    have he := vlanPromiscEnable_effect cfg hp
    refine ⟨fun j hj => ?_, fun j _ _ _ _ => by rw [he.vlvf]⟩
    rw [he.pools j hj w (cfg.vf_lt ⟨w, hw⟩), if_neg fun hc => hwpf hc.2]

theorem vlanPromiscDisable_keeps : Keeps w s.regs (vlanPromiscDisable cfg.toPoolCfg s).regs := by
  have hwpf : w ≠ cfg.pf := cfg.vf_ne_pf ⟨w, hw⟩
  cases hp : s.vlanPromisc with
  | false =>
    have hsame : (vlanPromiscDisable cfg.toPoolCfg s).regs = s.regs := by
      simp [vlanPromiscDisable, hp]
    rw [hsame]
    exact refl w s.regs
  | true =>
    have hl := vlanPromiscDisable_effect cfg hp
    refine ⟨fun j hj => ?_, fun j _ _ _ _ => by rw [hl.vlvf]⟩
    rw [hl.pools j hj w (cfg.vf_lt ⟨w, hw⟩), if_neg fun hc => hwpf hc.2.1]

theorem setVftaGeneric_keeps (t : VlanRegs) {vid : ℕ} (hv : vid ≤ 4095) (i : ℕ)
    (on b : Bool) : Keeps w t (setVftaGeneric t vid (cfg.vmdqP i) on b).2 := by
  have hne : cfg.vmdqP i ≠ w := by
    have hw' : w < cfg.offset := hw
    rw [PoolCfg.vmdqP]
    omega
  by_cases hp : cfg.vmdqP i < 64
  · exact vftaStep hp (cfg.vf_lt ⟨w, hw⟩) hne (setVftaGeneric_step t hv hp on b)
  · have hsame : (setVftaGeneric t vid (cfg.vmdqP i) on b).2 = t := by
      rw [setVftaGeneric, if_pos (.inr (by omega))]
    rw [hsame]
    exact refl w t

theorem setVftaRxPools_keeps (t : VlanRegs) {vid : ℕ} (hv : vid ≤ 4095)
    (on : Bool) : Keeps w t (setVftaRxPools cfg.toPoolCfg t vid on) := by
  rw [setVftaRxPools]
  induction List.range' 1 (cfg.numRxPools - 1) generalizing t with
  | nil => exact refl w t
  | cons i l ih => exact (setVftaGeneric_keeps hw t hv i on true).trans (ih _)

theorem vlanRxAddVid_keeps (vid : Fin 4096) :
    Keeps w s.regs (vlanRxAddVid cfg.toPoolCfg s vid).regs := by
  have hv : (vid : ℕ) ≤ 4095 := by omega
  unfold vlanRxAddVid
  simp only [vid.isLt, if_true, cfg.vmdq]
  refine trans ?_ (setVftaRxPools_keeps hw _ hv true)
  split_ifs
  · exact setVftaGeneric_keeps hw s.regs hv 0 true _
  · exact refl w s.regs

theorem vlanRxKillVid_keeps (vid : Fin 4096) :
    Keeps w s.regs (vlanRxKillVid cfg.toPoolCfg s vid).regs := by
  have hv : (vid : ℕ) ≤ 4095 := by omega
  unfold vlanRxKillVid
  by_cases h0 : (vid : ℕ) = 0
  · rw [if_pos h0]
    exact refl w s.regs
  · simp only [h0, if_false, cfg.vmdq, if_true]
    refine trans ?_ (setVftaRxPools_keeps hw _ hv false)
    split_ifs
    · exact setVftaGeneric_keeps hw s.regs hv 0 false true
    · exact refl w s.regs

end

end

end Ixgbe
