import Ixgbe.Vlan.Ops

/-! # Free VLVF entries list no pools

The VF reset loop zeroes one word of the pool list and may leave the PF's bit behind (`StrandsPf`).
-/

namespace Ixgbe

open VlanRegs EventRun

def Hygienic (t : VlanRegs) : Prop :=
  ∀ i < 64, t.vlvf i = 0 → t.vlvfb (i * 2) = 0 ∧ t.vlvfb (i * 2 + 1) = 0

/-- It starts with the VF and, if it is one of the PF's VLANs, the PF. -/
def PlacesExactly (cfg : SriovCfg) (s : VlanState) : Prop :=
  ∀ (vid : Fin 4096) (vf : Fin cfg.numVfs), (∀ i < 64, s.regs.vlvf i ≠ vlvfWord vid) →
    ∀ i < 64, (vlanStep cfg s (.setVfVlan true vid vf)).regs.vlvf i = vlvfWord vid →
      ∀ p < 64, (vlanStep cfg s (.setVfVlan true vid vf)).regs.poolBit i p = true ↔
        p = vf ∨ p = cfg.pf ∧ s.active vid = true

/-- A VF whose pool is not in the PF's word is reset, while some slot lists exactly the VF and the
PF. -/
def StrandsPf (cfg : SriovCfg) (s : VlanState) : VlanEvent cfg.numVfs → Prop
  | .clearVfVlans vf =>
      (vf : ℕ) / 32 ≠ cfg.pf / 32 ∧
        ∃ i < 64, ∀ p < 64, s.regs.poolBit i p = true ↔ p = vf ∨ p = cfg.pf
  | _ => False

/-- Free entries list no pools, and slot 0 is for VLAN 0. -/
structure HygRegs (t : VlanRegs) : Prop where
  free : ∀ i < 64, t.vlvf i = 0 → t.NoPools i
  slot0 : t.vlvf 0 = 0 ∨ t.vlvf 0 = vlvfWord 0

namespace HygRegs

variable {t t' : VlanRegs} {v p pf vf : ℕ}

theorem hygienic (h : HygRegs t) : Hygienic t := fun i hi h0 => (noPools_iff i).mpr (h.free i hi h0)

theorem of_cleared (h : t.Cleared) : HygRegs t :=
  ⟨fun i hi _ => h.pools i hi, .inl (h.vlvf 0 (by decide))⟩

theorem of_slot (h : HygRegs t) (i : ℕ) (hsame : ∀ j < 64, j ≠ i → SameSlot t t' j)
    (hfree : t'.vlvf i = 0 → t'.NoPools i) (h0 : i = 0 → t'.vlvf 0 = 0 ∨ t'.vlvf 0 = vlvfWord 0) :
    HygRegs t' := by
  constructor
  · intro j hj hz
    by_cases hji : j = i
    · subst hji
      exact hfree hz
    · rw [(hsame j hj hji).vlvf] at hz
      intro q hq
      rw [(hsame j hj hji).pools q hq]
      exact h.free j hj hz q hq
  · by_cases hi : i = 0
    · exact h0 hi
    · rw [(hsame 0 (by decide) (Ne.symm hi)).vlvf]
      exact h.slot0

theorem vftaStep (h : HygRegs t) (hp : p < 64) {on b : Bool} {r : ℤ × VlanRegs}
    (hstep : VftaStep t v p on b r) : HygRegs r.2 := by
  -- an entry written with a VLAN is not free; in slot 0 it is VLAN 0
  have hentry : ∀ {i : ℕ} {bit : Bool}, SlotFor t v b i →
      HygRegs ((t.setPool i p bit).writeVlvf i (vlvfWord v)) := by
    intro i bit hs
    refine h.of_slot i (fun j _ hji => .setPool_writeVlvf hp bit _ hji) (fun hz => ?_)
      fun h0 => .inr ?_
    · rw [writeVlvf_vlvf_self] at hz
      exact absurd hz (vlvfWord_ne_zero v)
    · rw [writeVlvf_vlvf, if_pos h0.symm, hs.eq_zero_iff.mp h0]
  cases hstep with
  | noSpace _ _ _ => exact h
  | vftaOnly _ _ _ => exact ⟨h.free, h.slot0⟩
  | join _ i _ hs => exact ⟨(hentry hs).free, (hentry hs).slot0⟩
  | release _ i _ hs ho =>
    refine h.of_slot i
      (fun j _ hji => (SameSlot.setPool_writeVlvf hp false 0 hji).setVftaBit v false)
      (fun _ => noPools_setPool hp ho) fun h0 => .inl ?_
    rw [setVftaBit_vlvf, writeVlvf_vlvf, if_pos h0.symm]
  | leave _ i _ hs _ => exact hentry hs

theorem setVftaGeneric (h : HygRegs t) (hv : v ≤ 4095) (p : ℕ) (on b : Bool) :
    HygRegs (setVftaGeneric t v p on b).2 := by
  by_cases hp : p < 64
  · exact h.vftaStep hp (setVftaGeneric_step t hv hp on b)
  · rw [Ixgbe.setVftaGeneric, if_pos (by omega)]
    exact h

theorem pfUpdate (h : HygRegs t) (hpf : pf < 64) (hstep : PfUpdate t false pf v t') :
    HygRegs t' := by
  cases hstep with
  | absent _ => exact h
  | keep _ _ _ _ _ _ => exact h
  | free i _ hi _ _ ho =>
    exact h.of_slot i (fun j _ hji => .setPool_writeVlvf hpf false 0 hji)
      (fun _ => noPools_setPool hpf ho) fun h0 => by omega

end HygRegs

variable {cfg : SriovCfg} {s : VlanState}

structure HygState (s : VlanState) : Prop where
  promisc : s.vlanPromisc = false
  regs : HygRegs s.regs

theorem HygRegs.setVftaRxPools {t : VlanRegs} (h : HygRegs t) {v : ℕ} (hv : v ≤ 4095) (on : Bool) :
    HygRegs (setVftaRxPools cfg.toPoolCfg t v on) := by
  unfold Ixgbe.setVftaRxPools
  induction List.range' 1 (cfg.numRxPools - 1) generalizing t with
  | nil => exact h
  | cons i l ih => exact ih (h.setVftaGeneric hv _ on true)

section

variable (h : HygState s)

include h

theorem HygState.addVid (vid : Fin 4096) : HygState (vlanRxAddVid cfg.toPoolCfg s vid) := by
  have hv : (vid : ℕ) ≤ 4095 := by omega
  unfold vlanRxAddVid
  simp only [vid.isLt, if_true, cfg.vmdq, h.promisc, or_true]
  exact ⟨rfl, (h.regs.setVftaGeneric hv _ _ _).setVftaRxPools hv true⟩

theorem HygState.killVid (vid : Fin 4096) : HygState (vlanRxKillVid cfg.toPoolCfg s vid) := by
  have hv : (vid : ℕ) ≤ 4095 := by omega
  unfold vlanRxKillVid
  by_cases hv0 : (vid : ℕ) = 0
  · rw [if_pos hv0]
    exact h
  · simp only [hv0, if_false, cfg.vmdq, h.promisc, if_true]
    exact ⟨rfl, (h.regs.setVftaGeneric hv _ _ _).setVftaRxPools hv false⟩

theorem HygState.setVfVlan (add : Bool) (vid : Fin 4096) (vf : Fin cfg.numVfs) :
    HygState (setVfVlan cfg.toPoolCfg s add vid vf).2 := by
  have hvf := cfg.vf_lt vf
  obtain ⟨-, hpromisc⟩ := setVfVlan_frame cfg.toPoolCfg s add vid vf
  have hstep := setVfVlan_step (s := s) cfg.pf_lt add (by omega : (vid : ℕ) ≤ 4095) hvf
  refine ⟨hpromisc.trans h.promisc, ?_⟩
  refine hstep.inv (P := HygRegs) (fun _ _ _ h1 ht => ht.vftaStep cfg.pf_lt h1)
    (fun _ _ _ h2 ht => ht.vftaStep hvf h2) (fun _ _ hup ht => ?_) h.regs
  rw [h.promisc] at hup
  exact ht.pfUpdate cfg.pf_lt hup

theorem HygState.clearVfVlans (vf : Fin cfg.numVfs) (hok : ¬ StrandsPf cfg s (.clearVfVlans vf)) :
    HygState (clearVfVlans cfg.toPoolCfg s vf) := by
  have hvf := cfg.vf_lt vf
  refine ⟨h.promisc, ?_, ?_⟩
  · intro j hj hz q hq
    obtain ⟨t1, t2, h1, hc, h2⟩ := clearVfVlans_slot (s := s) vf hj
    rw [h2.vlvf] at hz
    rw [h2.pools q hq]
    -- the loop body started from what the slot held
    have hold : t1.vlvf j = 0 → t1.NoPools j := by
      intro hz1 q hq
      rw [h1.pools q hq]
      exact h.regs.free j hj (h1.vlvf.symm.trans hz1) q hq
    rw [h.promisc] at hc
    cases hc with
    | absent _ => exact hold hz q hq
    | others hbit _ => exact absurd hbit (ne_true_of_eq_false (hold hz vf hvf))
    | stale hbit _ hw => exact absurd hbit (ne_true_of_eq_false (hold hw vf hvf))
    | last hbit ho _ => exact noPools_setPool hvf ho q hq
    | onlyPf hbit ho hin =>
      -- the slot lists exactly the VF and the PF, so their words are the same
      have hword : (vf : ℕ) / 32 = cfg.pf / 32 := by
        by_contra hword
        refine hok ⟨hword, j, hj, fun p hp => ?_⟩
        rw [← h1.pools p hp]
        constructor
        · intro hbitp
          by_contra hcon
          rw [not_or] at hcon
          have := ho p hp hcon.2
          rw [setPool_poolBit_of_ne _ hvf hp (Ne.symm hcon.1)] at this
          exact absurd hbitp (ne_true_of_eq_false this)
        · rintro (rfl | rfl)
          · exact hbit
          · exact hin
      rw [Bool.false_or, decide_eq_false (not_not.mpr hword)]
      exact noPools_setPool cfg.pf_lt ho q hq
  · obtain ⟨t1, t2, h1, hc, h2⟩ := clearVfVlans_slot (s := s) vf (by decide : 0 < 64)
    rw [h2.vlvf]
    have hold : t1.vlvf 0 = 0 ∨ t1.vlvf 0 = vlvfWord 0 := by
      rw [h1.vlvf]
      exact h.regs.slot0
    cases hc with
    | absent _ => exact hold
    | others _ _ => exact hold
    | stale _ _ _ => exact hold
    | last _ _ _ => exact .inl (by rw [setVftaBit_vlvf, writeVlvf_vlvf_self])
    | onlyPf _ _ _ => exact .inl (by rw [writeVlvf_vlvf_self])

theorem HygState.step (e : VlanEvent cfg.numVfs) (hok : ¬ StrandsPf cfg s e) :
    HygState (vlanStep cfg s e) := by
  cases e with
  | addVid vid => exact h.addVid vid
  | killVid vid => exact h.killVid vid
  | setVfVlan add vid vf => exact h.setVfVlan add vid vf
  | clearVfVlans vf => exact h.clearVfVlans vf hok

theorem StrandsPf.not_hygienic {e : VlanEvent cfg.numVfs}
    (hbad : StrandsPf cfg s e) : ¬ Hygienic (vlanStep cfg s e).regs := by
  match e, hbad with
  | .clearVfVlans vf, ⟨hword, i, hi, hpools⟩ =>
    have hvf := cfg.vf_lt vf
    have hne := cfg.vf_ne_pf vf
    obtain ⟨t1, t2, h1, hc, h2⟩ := clearVfVlans_slot (s := s) vf hi
    rw [h.promisc] at hc
    have hpools1 : ∀ p < 64, t1.poolBit i p = true ↔ p = vf ∨ p = cfg.pf := by
      intro p hp
      rw [h1.pools p hp]
      exact hpools p hp
    have hvfIn := (hpools1 vf hvf).mpr (.inl rfl)
    have hpfIn := (hpools1 cfg.pf cfg.pf_lt).mpr (.inr rfl)
    -- so the loop body takes the branch "only the PF is left"
    have hlast : ¬ t1.OthersEmpty i vf := fun ho =>
      absurd hpfIn (ne_true_of_eq_false (ho cfg.pf cfg.pf_lt (Ne.symm hne)))
    intro hyg
    have hnone := fun hz => (noPools_iff i).mp (hyg i hi hz) cfg.pf cfg.pf_lt
    change (clearVfVlans cfg.toPoolCfg s vf).regs.vlvf i = 0 →
      (clearVfVlans cfg.toPoolCfg s vf).regs.poolBit i cfg.pf = false at hnone
    rw [h2.vlvf, h2.pools _ cfg.pf_lt] at hnone
    cases hc with
    | absent hbit => exact absurd hvfIn (ne_true_of_eq_false hbit)
    | others _ ho =>
      refine ho fun q hq hqpf => ?_
      rw [setPool_poolBit _ hvf hq]
      by_cases hqvf : q = vf
      · rw [if_pos ⟨rfl, hqvf⟩]
      · rw [if_neg fun hcon => hqvf hcon.2, ← Bool.not_eq_true, hpools1 q hq]
        exact not_or.mpr ⟨hqvf, hqpf⟩
    | stale _ ho _ => exact hlast ho
    | last _ ho _ => exact hlast ho
    | onlyPf _ _ _ =>
      rw [writeVlvf_vlvf_self, writeVlvf_poolBit, setPool_poolBit _ cfg.pf_lt cfg.pf_lt,
        if_pos ⟨rfl, rfl⟩, Bool.false_or, decide_eq_true hword] at hnone
      exact absurd (hnone rfl) (by decide)

end

theorem HygRegs.placed {t : VlanRegs} (h : HygRegs t) {v p k : ℕ} (hp : p < 64)
    (hnew : ∀ j < 64, t.vlvf j ≠ vlvfWord v) (hs : SlotFor t v false k) {t' : VlanRegs}
    (ht' : t' = ((t.setPool k p true).writeVlvf k (vlvfWord v)).setVftaBit v true) :
    (∀ j < 64, t'.vlvf j = vlvfWord v ↔ j = k) ∧ ∀ q < 64, t'.poolBit k q = true ↔ q = p := by
  have hempty : t.NoPools k := by
    cases hs with
    | reserved hv =>
      refine h.free 0 (by decide) (h.slot0.resolve_right fun hw => hnew 0 (by decide) ?_)
      rw [hw, hv]
    | held _ _ _ hk hw => exact absurd hw (hnew k hk)
    | free _ _ _ _ _ hk hw _ => exact h.free k hk hw
  subst ht'
  constructor
  · intro j hj
    rw [setVftaBit_vlvf, writeVlvf_vlvf]
    by_cases hjk : j = k
    · rw [if_pos hjk]
      exact ⟨fun _ => hjk, fun _ => rfl⟩
    · rw [if_neg hjk]
      exact ⟨fun hw => absurd hw (hnew j hj), fun hw => absurd hw hjk⟩
  · intro q hq
    rw [setVftaBit_poolBit, writeVlvf_poolBit, setPool_poolBit _ hp hq]
    by_cases hqp : q = p
    · rw [if_pos ⟨rfl, hqp⟩]
      exact ⟨fun _ => hqp, fun _ => rfl⟩
    · rw [if_neg fun hc => hqp hc.2, hempty q hq]
      exact ⟨fun hf => absurd hf (by decide), fun hf => absurd hf hqp⟩

theorem VftaStep.vlvf_of_not_vtOn {t : VlanRegs} {v p : ℕ} {on b : Bool} {r : ℤ × VlanRegs}
    (h : VftaStep t v p on b r) (hvt : ¬ t.VtOn) : r.2.vlvf = t.vlvf ∧ ¬ r.2.VtOn := by
  cases h with
  | noSpace _ hon _ => exact absurd hon hvt
  | vftaOnly _ _ _ => exact ⟨rfl, hvt⟩
  | join _ _ hon _ => exact absurd hon hvt
  | release _ _ hon _ _ => exact absurd hon hvt
  | leave _ _ hon _ _ => exact absurd hon hvt

theorem PfUpdate.vlvf_eq_word {t t' : VlanRegs} {promisc : Bool} {pf vid : ℕ}
    (h : PfUpdate t promisc pf vid t') {v j : ℕ} (hw : t'.vlvf j = vlvfWord v) :
    t.vlvf j = vlvfWord v := by
  cases h with
  | absent _ => exact hw
  | keep _ _ _ _ _ _ => exact hw
  | free i _ _ _ _ _ =>
    rw [writeVlvf_vlvf] at hw
    split at hw
    · exact absurd hw.symm (vlvfWord_ne_zero v)
    · cases promisc <;> exact hw

theorem HygState.placesExactly (h : HygState s) : PlacesExactly cfg s := by
  intro vid vf hnew i hi
  have hvf := cfg.vf_lt vf
  have hstep := setVfVlan_step (s := s) cfg.pf_lt true (by omega : (vid : ℕ) ≤ 4095) hvf
  change (Ixgbe.setVfVlan cfg.toPoolCfg s true vid vf).2.regs.vlvf i = _ →
    ∀ p < 64, (Ixgbe.setVfVlan cfg.toPoolCfg s true vid vf).2.regs.poolBit i p = true ↔ _
  generalize (Ixgbe.setVfVlan cfg.toPoolCfg s true vid vf).1 = e at hstep
  generalize (Ixgbe.setVfVlan cfg.toPoolCfg s true vid vf).2.regs = t' at hstep
  intro hw p hp
  cases hstep with
  | pfFail _ _ _ h1 he => exact absurd ((h1.eq_of_error he).1 ▸ hw) (hnew i hi)
  | joinFail _ t1 t2 _ h1 h2 he h3 =>
    -- the VLAN got no slot: nothing was placed
    exfalso
    obtain ⟨rfl, hno⟩ := h2.eq_of_error he
    have hw2 : t2.vlvf i = vlvfWord vid := by
      rcases h3 with ⟨-, hup⟩ | ⟨-, rfl⟩
      · exact hup.vlvf_eq_word hw
      · exact hw
    rcases h1 with ⟨-, h1⟩ | ⟨-, rfl⟩
    · by_cases hvt : s.regs.VtOn
      · obtain ⟨k, hs, ht1⟩ := h1.join_of_success hvt
        obtain ⟨hwk, -⟩ := h.regs.placed cfg.pf_lt hnew hs ht1
        refine hno.2.1 ⟨k, hs.pos hno.1, hs.lt, ?_⟩
        exact (hwk k hs.lt).mpr rfl
      · rw [(h1.vlvf_of_not_vtOn hvt).1] at hw2
        exact hnew i hi hw2
    · exact hnew i hi hw2
  | joined t1 _ h1 h2 =>
    by_cases hvt : s.regs.VtOn
    swap
    · exfalso
      rcases h1 with ⟨-, h1⟩ | ⟨-, rfl⟩
      · obtain ⟨hv1, hvt1⟩ := h1.vlvf_of_not_vtOn hvt
        rw [(h2.vlvf_of_not_vtOn hvt1).1, hv1] at hw
        exact hnew i hi hw
      · rw [(h2.vlvf_of_not_vtOn hvt).1] at hw
        exact hnew i hi hw
    rcases h1 with ⟨hact, h1⟩ | ⟨hact, rfl⟩
    · -- the PF is placed first, and the VF joins it in the same slot
      obtain ⟨k, hs, ht1⟩ := h1.join_of_success hvt
      obtain ⟨hwk, hpools⟩ := h.regs.placed cfg.pf_lt hnew hs ht1
      obtain ⟨k', hs', rfl⟩ := h2.join_of_success (by subst ht1; exact hvt)
      have hkk : k' = k := by
        cases hs' with
        | reserved hv => exact (hs.eq_zero_iff.mpr hv).symm
        | held _ _ _ hk' hwk' => exact (hwk k' hk').mp hwk'
        | free _ hv _ hn _ _ _ _ =>
          exact absurd ⟨k, hs.pos hv, hs.lt,
            (hwk k hs.lt).mpr rfl⟩ hn
      subst hkk
      have hik : i = k' := by
        by_contra hik
        rw [setVftaBit_vlvf, writeVlvf_vlvf_of_ne _ hik] at hw
        exact hik ((hwk i hi).mp hw)
      rw [hik, setVftaBit_poolBit, writeVlvf_poolBit, setPool_poolBit _ hvf hp]
      by_cases hpvf : p = vf
      · simp [hpvf]
      · rw [if_neg fun hc => hpvf hc.2, hpools p hp]
        simp [hpvf, hact]
    · obtain ⟨k, hs, ht'⟩ := h2.join_of_success hvt
      obtain ⟨hwk, hpools⟩ := h.regs.placed hvf hnew hs ht'
      rw [(hwk i hi).mp hw, hpools p hp]
      simp [hact]

/-- **Slot hygiene**: free entries list no pools and new VLANs start with exactly the pools that
requested them, iff no VF reset strands the PF's bit. -/
theorem hygienic_iff_no_strandsPf (cfg : SriovCfg) (t₀ : VlanRegs) (vlnctrl : U32)
    (es : List (VlanEvent cfg.numVfs)) :
    After (vlanStep cfg) (fun s => Hygienic s.regs ∧ PlacesExactly cfg s) (clearedState t₀ vlnctrl)
        es ↔
      Along (vlanStep cfg) (fun s e => ¬ StrandsPf cfg s e) (clearedState t₀ vlnctrl) es :=
  after_iff_along (fun _ _ => True) (fun _ e h _ hok => h.step e hok)
    (fun _ h => ⟨h.regs.hygienic, h.placesExactly⟩)
    (fun _ _ h _ hbad hgood => (not_not.mp hbad).not_hygienic h hgood.1)
    (⟨rfl, .of_cleared (clearVftaGeneric_cleared t₀)⟩ : HygState (clearedState t₀ vlnctrl))
    (along_of_forall _ es fun _ _ => trivial)

def fortyVfsCfg : SriovCfg where
  vmdqEnabled := true
  offset := 40
  numRxPools := 1
  vmdq := rfl
  offset_pos := by decide
  offset_lt := by decide

/-- VF 3 joins a VLAN of the PF and is reset: the PF's bit stays. -/
theorem not_hygienic_of_vf_reset :
    ¬ After (vlanStep fortyVfsCfg) (fun s => Hygienic s.regs ∧ PlacesExactly fortyVfsCfg s)
      (clearedState vtOnlyRegs 0)
      [.addVid 5, .setVfVlan true 5 ⟨3, by decide⟩, .clearVfVlans ⟨3, by decide⟩] := by
  rintro ⟨-, -, ⟨hyg, -⟩, -⟩
  have h := (hyg 63 (by decide) (by decide +kernel)).2
  exact absurd h (by decide +kernel)

end Ixgbe
