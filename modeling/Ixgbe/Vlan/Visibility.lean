import Ixgbe.Vlan.Ops

/-! # The PF's view of its VLANs under VF operations

`Visible`: every VLAN of `active_vlans` is held by its VFTA bit or by the PF's bit in its entry.
Removing a VLAN that a VF never joined may break it. -/

namespace Ixgbe

open WordArray VlanRegs EventRun VlanState

/-- A VLAN of the PF passes the VFTA, and an entry for it lists the PF's pool. -/
def Visible (cfg : SriovCfg) (s : VlanState) : Prop :=
  ∀ v ≤ 4095, s.active v = true →
    s.regs.vftaBit v = true ∧ ∀ i < 64, s.regs.vlvf i = vlvfWord v → s.regs.poolBit i cfg.pf = true

/-- A VF removes a VLAN of the PF that is in no slot, while the highest free slot does not list the
PF. -/
def HarmfulRemove (cfg : SriovCfg) (s : VlanState) : VlanEvent cfg.numVfs → Prop
  | .setVfVlan false vid _ =>
      s.active vid = true ∧ ¬ s.regs.Held vid ∧
        ∃ i, 1 ≤ i ∧ i < 64 ∧ s.regs.vlvf i = 0 ∧ (∀ j, i < j → j < 64 → s.regs.vlvf j ≠ 0) ∧
          s.regs.poolBit i cfg.pf = false
  | _ => False

def VfVidNonzero {n : ℕ} : VlanEvent n → Prop
  | .setVfVlan _ vid _ => vid ≠ 0
  | _ => True

structure VisInv (pf : ℕ) (act : ℕ → Bool) (t : VlanRegs) : Prop where
  shape : SlotShape t
  vt : t.VtOn
  slot0 : t.vlvf 0 = 0 ∨ t.vlvf 0 = vlvfWord 0
  /-- No VF is listed in slot 0 or a free slot; the PF may be. -/
  free : ∀ i < 64, i = 0 ∨ t.vlvf i = 0 → t.OthersEmpty i pf
  vfta : ∀ v ≤ 4095, act v = true → t.vftaBit v = true
  pfBit : ∀ v ≤ 4095, act v = true → ∀ i < 64, t.vlvf i = vlvfWord v → t.poolBit i pf = true

namespace VisInv

variable {pf vf v : ℕ} {act act' : ℕ → Bool} {t t' : VlanRegs}

theorem of_cleared (h : t.Cleared) (hvt : t.VtOn) : VisInv pf (fun _ => false) t where
  shape := ⟨fun i _ hi => .inl (h.vlvf i hi), fun i _ hi _ _ _ _ hne => absurd (h.vlvf i hi) hne⟩
  vt := hvt
  slot0 := .inl (h.vlvf 0 (by decide))
  free i hi _ q hq _ := h.pools i hi q hq
  vfta _ _ hact := absurd hact (by decide)
  pfBit _ _ hact := absurd hact (by decide)

/-- **One slot rewritten**: what has to be checked. -/
theorem of_slot (h : VisInv pf act t) (i : ℕ) (hshape : SlotShape t') (hvt : t'.VtOn)
    (hsame : ∀ j < 64, j ≠ i → SameSlot t t' j)
    (h0 : i = 0 → t'.vlvf 0 = 0 ∨ t'.vlvf 0 = vlvfWord 0)
    (hfree : i = 0 ∨ t'.vlvf i = 0 → t'.OthersEmpty i pf)
    (hact : ∀ v ≤ 4095, act' v = true → t'.vftaBit v = true ∧
      (t'.vlvf i = vlvfWord v → t'.poolBit i pf = true) ∧
      (act v = true ∨ ∀ j < 64, j ≠ i → t.vlvf j ≠ vlvfWord v))
    (hpf : pf < 64) : VisInv pf act' t' where
  shape := hshape
  vt := hvt
  slot0 := by
    by_cases hi : i = 0
    · exact h0 hi
    · rw [(hsame 0 (by decide) (Ne.symm hi)).vlvf]
      exact h.slot0
  free j hj hcond := by
    by_cases hji : j = i
    · subst hji
      exact hfree hcond
    · intro q hq hqpf
      rw [(hsame j hj hji).vlvf] at hcond
      rw [(hsame j hj hji).pools q hq]
      exact h.free j hj hcond q hq hqpf
  vfta v hv ha := (hact v hv ha).1
  pfBit v hv ha j hj hw := by
    by_cases hji : j = i
    · subst hji
      exact (hact v hv ha).2.1 hw
    · rw [(hsame j hj hji).vlvf] at hw
      rw [(hsame j hj hji).pools pf hpf]
      rcases (hact v hv ha).2.2 with hold | hnone
      · exact h.pfBit v hv hold j hj hw
      · exact absurd hw (hnone j hj hji)

variable {b : Bool} {i p : ℕ}

section

variable (h : VisInv pf act t)

include h

theorem only (hs : SlotFor t v b i) (hv : v ≤ 4095) : ∀ j < 64, j ≠ i → t.vlvf j ≠ vlvfWord v := by
  intro j hj hji hw
  by_cases hj0 : j = 0
  · -- slot 0 holds VLAN 0 only, which is always found there
    subst hj0
    rcases h.slot0 with h0 | h0
    · exact vlvfWord_ne_zero v (hw.symm.trans h0)
    · have hv0 : v = 0 := vlvfWord_inj hv (by decide) (hw.symm.trans h0)
      cases hs with
      | reserved _ => exact hji rfl
      | held _ hv' _ _ _ => exact hv' hv0
      | free _ hv' _ _ _ _ _ _ => exact hv' hv0
  · by_cases hv0 : v = 0
    · obtain h0 | ⟨u, hu1, hu2, hu⟩ := h.shape.word j (by omega) hj
      · exact vlvfWord_ne_zero v (hw.symm.trans h0)
      · have := vlvfWord_inj hv hu2 (hw.symm.trans hu)
        omega
    · exact hji (h.shape.eq_of_slotFor hs (by omega) hj hw hv0)

theorem only_of_noSlot (hn : NoSlot t v b) (hv : v ≤ 4095) : ∀ j < 64, t.vlvf j ≠ vlvfWord v := by
  intro j hj hw
  by_cases hj0 : j = 0
  · subst hj0
    rcases h.slot0 with h0 | h0
    · exact vlvfWord_ne_zero v (hw.symm.trans h0)
    · exact hn.1 (vlvfWord_inj hv (by decide) (hw.symm.trans h0))
  · exact hn.2.1 ⟨j, by omega, hj, hw⟩

theorem join (hpf : pf < 64) (hp : p < 64) (hv : v ≤ 4095)
    (hs : SlotFor t v b i) (hown : p = pf ∨ v ≠ 0)
    (hin : act' v = true → p = pf ∨ t.poolBit i pf = true)
    (hact : ∀ u, u ≠ v → act' u = true → act u = true) :
    VisInv pf act' (((t.setPool i p true).writeVlvf i (vlvfWord v)).setVftaBit v true) := by
  have hi0 : i = 0 → v = 0 := hs.eq_zero_iff.mp
  refine h.of_slot i ((h.shape.writeVlvf_word hv hs).congr rfl) h.vt
    (fun j _ hji => (SameSlot.setPool_writeVlvf hp true _ hji).setVftaBit v true) ?_ ?_ ?_ hpf
  · rintro rfl
    rw [setVftaBit_vlvf, writeVlvf_vlvf_self, hi0 rfl]
    exact .inr rfl
  · intro hcond q hq hqpf
    rw [setVftaBit_vlvf, writeVlvf_vlvf_self] at hcond
    have hiz : i = 0 := hcond.resolve_right (vlvfWord_ne_zero v)
    rw [setVftaBit_poolBit, writeVlvf_poolBit, setPool_poolBit _ hp hq, if_neg (by omega)]
    exact h.free i hs.lt (.inl hiz) q hq hqpf
  · intro u hu ha
    rw [setVftaBit_vftaBit]
    by_cases huv : u = v
    · subst huv
      refine ⟨if_pos rfl, fun _ => ?_, .inr (h.only hs hu)⟩
      rw [setVftaBit_poolBit, writeVlvf_poolBit, setPool_poolBit _ hp hpf]
      by_cases hppf : pf = p
      · rw [if_pos ⟨rfl, hppf⟩]
      · rw [if_neg fun hc => hppf hc.2]
        exact (hin ha).resolve_left (Ne.symm hppf)
    · have hold := hact u huv ha
      refine ⟨by rw [if_neg huv]; exact h.vfta u hu hold, fun hw => ?_, .inl hold⟩
      rw [setVftaBit_vlvf, writeVlvf_vlvf_self] at hw
      exact absurd (vlvfWord_inj hv hu hw).symm huv

theorem leave (hpf : pf < 64) (hp : p < 64) (hv : v ≤ 4095) (hv0 : v ≠ 0) (hs : SlotFor t v b i)
    (hin : act' v = true → p ≠ pf ∧ t.poolBit i pf = true)
    (hact : ∀ u, act' u = true → act u = true) :
    VisInv pf act' ((t.setPool i p false).writeVlvf i (vlvfWord v)) := by
  have hi0 : i ≠ 0 := fun h0 => hv0 (hs.eq_zero_iff.mp h0)
  refine h.of_slot i ((h.shape.writeVlvf_word hv hs).congr rfl) h.vt
    (fun j _ hji => .setPool_writeVlvf hp false _ hji) (fun h0 => absurd h0 hi0)
    (fun hcond => ?_) ?_ hpf
  · rw [writeVlvf_vlvf_self] at hcond
    exact absurd hcond (not_or.mpr ⟨hi0, vlvfWord_ne_zero v⟩)
  · intro u hu ha
    refine ⟨h.vfta u hu (hact u ha), fun hw => ?_, .inl (hact u ha)⟩
    rw [writeVlvf_vlvf_self] at hw
    have huv := vlvfWord_inj hv hu hw
    subst huv
    obtain ⟨hne, hbit⟩ := hin ha
    rw [writeVlvf_poolBit, setPool_poolBit_of_ne _ hp hpf hne, hbit]

theorem release (hpf : pf < 64) (hp : p < 64) (hv0 : v ≠ 0)
    (hs : SlotFor t v b i) (ho : t.OthersEmpty i p) (hin : act' v = false)
    (hact : ∀ u, act' u = true → act u = true) :
    VisInv pf act' (((t.setPool i p false).writeVlvf i 0).setVftaBit v false) := by
  have hi0 : i ≠ 0 := fun h0 => hv0 (hs.eq_zero_iff.mp h0)
  refine h.of_slot i ((h.shape.writeVlvf_zero i).congr rfl) h.vt
    (fun j _ hji => (SameSlot.setPool_writeVlvf hp false 0 hji).setVftaBit v false)
    (fun h0 => absurd h0 hi0) (fun _ q hq _ => noPools_setPool hp ho q hq) ?_ hpf
  · intro u hu ha
    have huv : u ≠ v := fun huv => absurd (huv ▸ ha) (ne_true_of_eq_false hin)
    refine ⟨?_, fun hw => ?_, .inl (hact u ha)⟩
    · rw [setVftaBit_vftaBit, if_neg huv]
      exact h.vfta u hu (hact u ha)
    · rw [setVftaBit_vlvf, writeVlvf_vlvf_self] at hw
      exact absurd hw.symm (vlvfWord_ne_zero u)

theorem vftaOnly (hv : v ≤ 4095) (hn : NoSlot t v b) (on : Bool)
    (hin : act' v = true → on = true) (hact : ∀ u, u ≠ v → act' u = true → act u = true) :
    VisInv pf act' (t.setVftaBit v on) where
  shape := h.shape.congr rfl
  vt := h.vt
  slot0 := h.slot0
  free := h.free
  vfta u hu ha := by
    rw [setVftaBit_vftaBit]
    by_cases huv : u = v
    · rw [if_pos huv]
      exact hin (huv ▸ ha)
    · rw [if_neg huv]
      exact h.vfta u hu (hact u huv ha)
  pfBit u hu ha j hj hw := by
    by_cases huv : u = v
    · exact absurd (huv ▸ hw) (h.only_of_noSlot hn hv j hj)
    · exact h.pfBit u hu (hact u huv ha) j hj hw

theorem pfUpdate (hpf : pf < 64) (hstep : PfUpdate t false pf v t') : VisInv pf act t' := by
  cases hstep with
  | absent _ => exact h
  | keep _ _ _ _ _ _ => exact h
  | free i _ hi _ _ ho =>
    refine h.of_slot i ((h.shape.writeVlvf_zero i).congr rfl) h.vt
      (fun j _ hji => .setPool_writeVlvf hpf false 0 hji) (fun h0 => by omega)
      (fun _ q hq hqpf => ?_) (fun u hu ha => ?_) hpf
    · rw [writeVlvf_poolBit, if_neg (by decide), setPool_poolBit_of_ne _ hpf hq (Ne.symm hqpf)]
      exact ho q hq hqpf
    · refine ⟨h.vfta u hu ha, fun hw => ?_, .inl ha⟩
      rw [writeVlvf_vlvf_self] at hw
      exact absurd hw.symm (vlvfWord_ne_zero u)

theorem clearSlot (hpf : pf < 64) (hvf : vf < 64) (hne : vf ≠ pf)
    (hi : i < 64) (hstep : ClearSlot t false pf vf i t') : VisInv pf act t' := by
  have hshape := h.shape.clearSlot hstep
  have hsame : ∀ j < 64, j ≠ i → SameSlot t t' j := fun j _ hji => hstep.sameSlot hvf hpf hji
  -- taking the VF out of slot `i` leaves the other bits of the slot
  have hpool : ∀ q < 64, (t.setPool i vf false).poolBit i q = true → t.poolBit i q = true := by
    intro q hq hbit
    rw [setPool_poolBit _ hvf hq] at hbit
    split at hbit
    · exact absurd hbit (by decide)
    · exact hbit
  have hleave : VisInv pf act (t.setPool i vf false) := by
    refine h.of_slot i (h.shape.congr rfl) h.vt
      (fun j _ hji => ⟨rfl, fun q hq => setPool_poolBit_of_slot_ne false hvf hq hji⟩)
      (fun h0 => h0 ▸ h.slot0) (fun hcond q hq hqpf => ?_) (fun u hu ha => ?_) hpf
    · by_contra hbit
      have hold := hpool q hq (by simpa using hbit)
      exact absurd hold (ne_true_of_eq_false (h.free i hi hcond q hq hqpf))
    · refine ⟨h.vfta u hu ha, fun hw => ?_, .inl ha⟩
      rw [setPool_poolBit_of_ne _ hvf hpf hne]
      exact h.pfBit u hu ha i hi hw
  cases hstep with
  | absent _ => exact h
  | others _ _ => exact hleave
  | stale _ _ _ => exact hleave
  | onlyPf hbit ho hin =>
    refine h.of_slot i hshape h.vt hsame (fun h0 => .inl ?_) (fun _ q hq hqpf => ?_)
      (fun u hu ha => ?_) hpf
    · rw [writeVlvf_vlvf, if_pos h0.symm]
    · rw [writeVlvf_poolBit, setPool_poolBit_of_ne _ hpf hq (Ne.symm hqpf)]
      exact ho q hq hqpf
    · refine ⟨h.vfta u hu ha, fun hw => ?_, .inl ha⟩
      rw [writeVlvf_vlvf_self] at hw
      exact absurd hw.symm (vlvfWord_ne_zero u)
  | last hbit ho hw =>
    -- the VLAN of an entry without the PF is not one of the PF's
    have hnot : ∀ u ≤ 4095, act u = true → u ≠ vlvfVid (t.vlvf i) := by
      rintro u hu ha huv
      have hwu : t.vlvf i = vlvfWord u := by
        by_cases hi0 : i = 0
        · subst hi0
          have h0 := h.slot0.resolve_left hw
          rw [h0, vlvfVid_vlvfWord (by decide)] at huv
          rw [h0, huv]
        · obtain ⟨w, -, hw2, hww⟩ := (h.shape.word i (by omega) hi).resolve_left hw
          rw [hww, vlvfVid_vlvfWord hw2] at huv
          rw [hww, huv]
      have hpfbit := h.pfBit u hu ha i hi hwu
      exact absurd hpfbit (ne_true_of_eq_false (ho pf hpf (Ne.symm hne)))
    refine h.of_slot i hshape h.vt hsame (fun h0 => .inl ?_) (fun _ q hq hqpf => ?_)
      (fun u hu ha => ?_) hpf
    · rw [setVftaBit_vlvf, writeVlvf_vlvf, if_pos h0.symm]
    · exact noPools_setPool hvf ho q hq
    · refine ⟨?_, fun hwz => ?_, .inl ha⟩
      · rw [setVftaBit_vftaBit, if_neg (hnot u hu ha)]
        exact h.vfta u hu ha
      · rw [setVftaBit_vlvf, writeVlvf_vlvf_self] at hwz
        exact absurd hwz.symm (vlvfWord_ne_zero u)

end

end VisInv

/-- Promiscuous mode is off, and the registers fit the PF's VLANs. -/
structure VisState (cfg : SriovCfg) (s : VlanState) : Prop where
  promisc : s.vlanPromisc = false
  regs : VisInv cfg.pf s.active s.regs

variable {cfg : SriovCfg} {s : VlanState}

theorem VisState.visible (h : VisState cfg s) : Visible cfg s := fun v hv ha =>
  ⟨h.regs.vfta v hv ha, h.regs.pfBit v hv ha⟩

theorem VisState.addVid (hone : cfg.numRxPools = 1) (h : VisState cfg s) (vid : Fin 4096) :
    VisState cfg (vlanRxAddVid cfg.toPoolCfg s vid) := by
  rw [vlanRxAddVid_one hone, if_pos (.inr h.promisc)]
  refine ⟨h.promisc, ?_⟩
  have hact : ∀ t : VlanRegs, active
      { s with activeVlans := setBit s.activeVlans vid true, regs := t } =
        fun u => if u = (vid : ℕ) then true else s.active u :=
    fun t => funext fun u => active_setBit (s := s) vid u true
  rw [hact]
  have hold : ∀ u, u ≠ (vid : ℕ) → (if u = (vid : ℕ) then true else s.active u) = true →
      s.active u = true := fun u hu ha => by rwa [if_neg hu] at ha
  have hstep := setVftaGeneric_step s.regs (by omega : (vid : ℕ) ≤ 4095) cfg.pf_lt true
    (decide ((vid : ℕ) ≠ 0))
  generalize hb : decide ((vid : ℕ) ≠ 0) = b at hstep
  generalize setVftaGeneric s.regs vid cfg.pf true b = r at hstep
  cases hstep with
  | noSpace _ _ hn => exact absurd hn.1 (by simpa using hb)
  | vftaOnly _ _ hc =>
    rcases hc with hoff | ⟨-, hn⟩
    · exact absurd h.regs.vt hoff
    · exact h.regs.vftaOnly (by omega) hn true (fun _ => rfl) hold
  | join _ i _ hs =>
    exact h.regs.join cfg.pf_lt cfg.pf_lt (by omega) hs (.inl rfl) (fun _ => .inl rfl) hold

theorem VisState.killVid (hone : cfg.numRxPools = 1) (h : VisState cfg s) (vid : Fin 4096) :
    VisState cfg (vlanRxKillVid cfg.toPoolCfg s vid) := by
  by_cases hv0 : (vid : ℕ) = 0
  · rw [vlanRxKillVid, if_pos hv0]
    exact h
  rw [vlanRxKillVid_one hone vid hv0, if_pos h.promisc]
  refine ⟨h.promisc, ?_⟩
  have hact : ∀ t : VlanRegs, active
      { s with activeVlans := setBit s.activeVlans vid false, regs := t } =
        fun u => if u = (vid : ℕ) then false else s.active u :=
    fun t => funext fun u => active_setBit (s := s) vid u false
  rw [hact]
  have hself : (if (vid : ℕ) = vid then false else s.active vid) = false := if_pos rfl
  have hold : ∀ u, (if u = (vid : ℕ) then false else s.active u) = true → s.active u = true := by
    intro u ha
    split at ha
    · exact absurd ha (by decide)
    · exact ha
  have hstep := setVftaGeneric_step s.regs (by omega : (vid : ℕ) ≤ 4095) cfg.pf_lt false true
  generalize setVftaGeneric s.regs vid cfg.pf false true = r at hstep
  cases hstep with
  | vftaOnly _ _ hc =>
    rcases hc with hoff | ⟨-, hn⟩
    · exact absurd h.regs.vt hoff
    · exact h.regs.vftaOnly (by omega) hn false (fun ha => absurd ha (ne_true_of_eq_false hself))
        fun u _ => hold u
  | release _ i _ hs ho => exact h.regs.release cfg.pf_lt cfg.pf_lt hv0 hs ho hself hold
  | leave _ i _ hs ho =>
    exact h.regs.leave cfg.pf_lt cfg.pf_lt (by omega) hv0 hs
      (fun ha => absurd ha (ne_true_of_eq_false hself)) hold

section

variable {pf : ℕ} {act : ℕ → Bool} {t t' : VlanRegs}

theorem VisInv.vfJoin {v vf : ℕ}
    (h : VisInv pf act t) (hpf : pf < 64) (hvf : vf < 64) (hv : v ≤ 4095) (hv0 : v ≠ 0)
    (hheld : act v = true → t.Held v) (hstep : VftaStep t v vf true false (success, t')) :
    VisInv pf act t' := by
  obtain ⟨i, hs, rfl⟩ := hstep.join_of_success h.vt
  refine h.join hpf hvf hv hs (.inr hv0) (fun ha => .inr ?_) fun u _ hu => hu
  -- the PF's entry for the VLAN is the slot found
  obtain ⟨j, hj1, hj2, hw⟩ := hheld ha
  rw [← h.shape.eq_of_slotFor hs hj1 hj2 hw hv0]
  exact h.pfBit v hv ha j hj2 hw

theorem VisInv.pfJoin {v : ℕ} (h : VisInv pf act t) (hpf : pf < 64) (hv : v ≤ 4095) (hv0 : v ≠ 0)
    (hstep : VftaStep t v pf true false (success, t')) : VisInv pf act t' ∧ t'.Held v := by
  obtain ⟨i, hs, rfl⟩ := hstep.join_of_success h.vt
  refine ⟨h.join hpf hpf hv hs (.inl rfl) (fun _ => .inl rfl) fun u _ hu => hu, i, ?_, hs.lt, ?_⟩
  · exact hs.pos hv0
  · rw [setVftaBit_vlvf, writeVlvf_vlvf_self]

theorem VisInv.vfRemove {v vf : ℕ} {e : ℤ}
    (h : VisInv pf act t) (hpf : pf < 64) (hvf : vf < 64) (hne : vf ≠ pf) (hv : v ≤ 4095)
    (hv0 : v ≠ 0) (hok : ¬ (act v = true ∧ ¬ t.Held v ∧ ∃ i, 1 ≤ i ∧ i < 64 ∧ t.vlvf i = 0 ∧
      (∀ j, i < j → j < 64 → t.vlvf j ≠ 0) ∧ t.poolBit i pf = false))
    (hstep : VftaStep t v vf false false (e, t')) : VisInv pf act t' := by
  cases hstep with
  | noSpace _ _ _ => exact h
  | vftaOnly _ _ hc =>
    rcases hc with hoff | ⟨hb, -⟩
    · exact absurd h.vt hoff
    · exact absurd hb (by decide)
  | release _ i _ hs ho =>
    refine h.release hpf hvf hv0 hs ho ?_ fun u hu => hu
    by_contra ha
    rw [Bool.not_eq_false] at ha
    have hpfOut := ho pf hpf (Ne.symm hne)
    cases hs with
    | reserved hv0' => exact hv0 hv0'
    | held _ _ hi hi' hw =>
      -- in the PF's own entry the PF would have been listed
      exact absurd (h.pfBit v hv ha i hi' hw) (ne_true_of_eq_false hpfOut)
    | free _ _ _ hn hi hi' hw hmax => exact hok ⟨ha, hn, i, hi, hi', hw, hmax, hpfOut⟩
  | leave _ i _ hs ho =>
    refine h.leave hpf hvf hv hv0 hs (fun ha => ⟨hne, ?_⟩) fun u hu => hu
    cases hs with
    | reserved hv0' => exact absurd hv0' hv0
    | held _ _ hi hi' hw => exact h.pfBit v hv ha i hi' hw
    | free _ _ _ hn hi hi' hw hmax =>
      -- the pool found in the free slot can only be the PF
      by_contra hpfOut
      rw [Bool.not_eq_true] at hpfOut
      refine ho fun q hq _ => ?_
      by_cases hqpf : q = pf
      · rw [hqpf, hpfOut]
      · exact h.free i hi' (.inr hw) q hq hqpf

end

theorem VisState.setVfVlan (h : VisState cfg s) (add : Bool) (vid : Fin 4096)
    (vf : Fin cfg.numVfs) (hv : vid ≠ 0) (hok : ¬ HarmfulRemove cfg s (.setVfVlan add vid vf)) :
    VisState cfg (setVfVlan cfg.toPoolCfg s add vid vf).2 := by
  have hv0 : (vid : ℕ) ≠ 0 := fun h0 => hv (Fin.ext h0)
  have hv' : (vid : ℕ) ≤ 4095 := by omega
  have hvf := cfg.vf_lt vf
  have hne := cfg.vf_ne_pf vf
  obtain ⟨hactive, hpromisc⟩ := setVfVlan_frame cfg.toPoolCfg s add vid vf
  have hstep := setVfVlan_step (s := s) cfg.pf_lt add hv' hvf
  refine ⟨hpromisc.trans h.promisc, ?_⟩
  have hact : active (Ixgbe.setVfVlan cfg.toPoolCfg s add vid vf).2 = s.active := by
    funext u
    rw [active, hactive]
    rfl
  rw [hact]
  generalize (Ixgbe.setVfVlan cfg.toPoolCfg s add vid vf).1 = e at hstep
  -- the cleanup keeps the invariant, whether it is reached or not
  have htail : ∀ t2 t3 : VlanRegs, VisInv cfg.pf s.active t2 →
      ((s.active vid = true ∨ s.vlanPromisc = true) ∧ PfUpdate t2 s.vlanPromisc cfg.pf vid t3 ∨
        ¬ (s.active vid = true ∨ s.vlanPromisc = true) ∧ t3 = t2) →
      VisInv cfg.pf s.active t3 := by
    rintro t2 t3 h2 (⟨-, hup⟩ | ⟨-, rfl⟩)
    · rw [h.promisc] at hup
      exact h2.pfUpdate cfg.pf_lt hup
    · exact h2
  cases hstep with
  | pfFail _ _ _ h1 he => exact (h1.eq_of_error he).1 ▸ h.regs
  | joined t1 _ h1 h2 =>
    rcases h1 with ⟨hact, h1⟩ | ⟨hact, rfl⟩
    · obtain ⟨hinv, hheld⟩ := h.regs.pfJoin cfg.pf_lt hv' hv0 h1
      exact hinv.vfJoin cfg.pf_lt hvf hv' hv0 (fun _ => hheld) h2
    · exact h.regs.vfJoin cfg.pf_lt hvf hv' hv0
        (fun ha => absurd ha (ne_true_of_eq_false hact)) h2
  | joinFail _ t1 t2 _ h1 h2 he h3 =>
    obtain ⟨rfl, hno⟩ := h2.eq_of_error he
    rcases h1 with ⟨hact, h1⟩ | ⟨hact, rfl⟩
    · exact absurd (h.regs.pfJoin cfg.pf_lt hv' hv0 h1).2 hno.2.1
    · exact htail _ _ h.regs h3
  | removed _ t2 _ h2 h3 =>
    exact htail _ _ (h.regs.vfRemove cfg.pf_lt hvf hne hv' hv0 hok h2) h3

theorem VisState.step (hone : cfg.numRxPools = 1) (h : VisState cfg s) (e : VlanEvent cfg.numVfs)
    (hlegal : VfVidNonzero e) (hok : ¬ HarmfulRemove cfg s e) :
    VisState cfg (vlanStep cfg s e) := by
  cases e with
  | addVid vid => exact h.addVid hone vid
  | killVid vid => exact h.killVid hone vid
  | setVfVlan add vid vf => exact h.setVfVlan add vid vf hlegal hok
  | clearVfVlans vf =>
    refine ⟨h.promisc, ?_⟩
    refine clearVfVlans_inv (P := VisInv cfg.pf s.active) vf ?_ h.regs
    intro t t' i hi hstep ht
    rw [h.promisc] at hstep
    exact ht.clearSlot cfg.pf_lt (cfg.vf_lt vf) (cfg.vf_ne_pf vf) hi hstep

theorem HarmfulRemove.not_visible (h : VisState cfg s) {e : VlanEvent cfg.numVfs}
    (hlegal : VfVidNonzero e) (hbad : HarmfulRemove cfg s e) :
    ¬ Visible cfg (vlanStep cfg s e) := by
  match e, hbad with
  | .setVfVlan false vid vf, ⟨ha, hn, i, hi, hi', hw, hmax, hpfOut⟩ =>
    have hv0 : (vid : ℕ) ≠ 0 := fun h0 => hlegal (Fin.ext h0)
    obtain ⟨hactive, -⟩ := setVfVlan_frame cfg.toPoolCfg s false vid vf
    have hstep := setVfVlan_step (s := s) cfg.pf_lt false (by omega : (vid : ℕ) ≤ 4095)
      (cfg.vf_lt vf)
    -- the VFTA bit is cleared with the free slot
    have hlost : (vlanStep cfg s (.setVfVlan false vid vf)).regs.vftaBit vid = false := by
      change (Ixgbe.setVfVlan cfg.toPoolCfg s false vid vf).2.regs.vftaBit vid = false
      generalize (Ixgbe.setVfVlan cfg.toPoolCfg s false vid vf).1 = e at hstep
      generalize (Ixgbe.setVfVlan cfg.toPoolCfg s false vid vf).2.regs = t' at hstep
      cases hstep with
      | removed _ t2 _ h2 h3 =>
        have hkeep : t'.vftaBit vid = t2.vftaBit vid := by
          rcases h3 with ⟨-, hup⟩ | ⟨-, rfl⟩
          · exact hup.vftaBit vid
          · rfl
        rw [hkeep]
        cases h2 with
        | noSpace _ _ hno => exact absurd hw (hno.2.2 rfl i hi hi')
        | vftaOnly _ _ _ => rw [setVftaBit_vftaBit, if_pos rfl]
        | release _ _ _ _ _ => rw [setVftaBit_vftaBit, if_pos rfl]
        | leave _ k _ hs ho =>
          -- the slot found is `i`, which lists nobody
          exfalso
          have hki : k = i := by
            cases hs with
            | reserved h0 => exact absurd h0 hv0
            | held _ _ hk hk' hwk => exact absurd ⟨k, hk, hk', hwk⟩ hn
            | free _ _ _ _ hk hk' hwk hmaxk =>
              rcases Nat.lt_trichotomy k i with hlt | heq | hgt
              · exact absurd hw (hmaxk i hlt hi')
              · exact heq
              · exact absurd hwk (hmax k hgt hk')
          refine ho fun q hq _ => ?_
          rw [hki]
          by_cases hqpf : q = cfg.pf
          · rw [hqpf, hpfOut]
          · exact h.regs.free i hi' (.inr hw) q hq hqpf
    intro hvis
    have ha' : (vlanStep cfg s (.setVfVlan false vid vf)).active vid = true := by
      change bit (Ixgbe.setVfVlan cfg.toPoolCfg s false vid vf).2.activeVlans vid = true
      rw [hactive]
      exact ha
    exact absurd (hvis vid (by omega) ha').1 (ne_true_of_eq_false hlost)

theorem clearedState_visState (cfg : SriovCfg) {t0 : VlanRegs} (hvt : t0.VtOn) (vlnctrl : U32) :
    VisState cfg (clearedState t0 vlnctrl) := by
  refine ⟨rfl, ?_⟩
  have hact : active (clearedState t0 vlnctrl) = fun _ => false := by
    funext u
    simp [active, bit, clearedState]
  rw [hact]
  exact .of_cleared (clearVftaGeneric_cleared t0) ((clearVftaGeneric_vtOn t0).mpr hvt)

/-- **PF visibility**: the PF keeps all its VLANs visible in a run from the cleared table iff no
step is a harmful removal. -/
theorem visible_iff_no_harmfulRemove (cfg : SriovCfg) (hone : cfg.numRxPools = 1) (t₀ : VlanRegs)
    (hvt : t₀.VtOn) (vlnctrl : U32) (es : List (VlanEvent cfg.numVfs))
    (hes : ∀ e ∈ es, VfVidNonzero e) :
    After (vlanStep cfg) (Visible cfg) (clearedState t₀ vlnctrl) es ↔
      Along (vlanStep cfg) (fun s e => ¬ HarmfulRemove cfg s e) (clearedState t₀ vlnctrl) es :=
  after_iff_along (fun _ e => VfVidNonzero e) (fun _ e h hl hok => h.step hone e hl hok)
    (fun _ h => h.visible) (fun _ _ h hl hbad => (not_not.mp hbad).not_visible h hl)
    (clearedState_visState cfg hvt vlnctrl) (along_of_forall _ es hes)

theorem visible_iff_no_harmfulRemove_join_clear :
    After (vlanStep oneVfCfg) (Visible oneVfCfg) (clearedState vtOnlyRegs 0)
      [.addVid 5, .setVfVlan true 5 oneVf, .clearVfVlans oneVf] :=
  (visible_iff_no_harmfulRemove oneVfCfg rfl vtOnlyRegs (by decide) 0 _
    (by simp [VfVidNonzero])).mpr ⟨id, id, id, trivial⟩

/-- A VF that never joined VLAN 5 of the PF removes it. -/
theorem not_visible_of_foreign_remove :
    ¬ After (vlanStep oneVfCfg) (Visible oneVfCfg) (clearedState vtOnlyRegs 0)
      [.addVid 5, .setVfVlan false 5 oneVf] := by
  rintro ⟨-, hvis, -⟩
  have h := (hvis 5 (by decide) (by decide +kernel)).1
  exact absurd h (by decide +kernel)

end Ixgbe
