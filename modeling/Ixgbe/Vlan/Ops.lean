import Mathlib.Data.Nat.Bitwise
import Ixgbe.Library.EventRun
import Ixgbe.Vlan.Driver

/-! # The driver's VLAN operations, step by step

The cleanup of a PF-only entry (`PfUpdate`) and one slot of the VF reset loop (`ClearSlot`), on
single bits. -/

namespace Ixgbe

open WordArray VlanRegs List

theorem slotWord_xor_one (i : ℕ) {h : ℕ} (hh : h < 2) : (i * 2 + h) ^^^ 1 = i * 2 + (1 - h) := by
  rcases (by omega : h = 0 ∨ h = 1) with rfl | rfl
  · rw [Nat.xor_one_of_even (by simp)]
  · rw [Nat.xor_one_of_odd ⟨i, by omega⟩]
    omega

theorem half_xor_one {h : ℕ} (hh : h < 2) : h ^^^ 1 = 1 - h := by
  simpa using slotWord_xor_one 0 hh

theorem findVlvfEntryFrom_cases (vlvf : ℕ → U32) (v k : ℕ) :
    (findVlvfEntryFrom vlvf v k = 0 ∧ ∀ i, 1 ≤ i → i ≤ k → vlvfVid (vlvf i) ≠ v) ∨
      ∃ i, 1 ≤ i ∧ i ≤ k ∧ findVlvfEntryFrom vlvf v k = i ∧ vlvfVid (vlvf i) = v := by
  induction k with
  | zero => exact .inl ⟨rfl, fun i h1 h2 => by omega⟩
  | succ k ih =>
    rw [findVlvfEntryFrom]
    by_cases hk : vlvfVid (vlvf (k + 1)) = v
    · exact .inr ⟨k + 1, by omega, le_rfl, if_pos hk, hk⟩
    · rw [if_neg hk]
      obtain ⟨hr, hn⟩ | ⟨i, h1, h2, hr, hi⟩ := ih
      · refine .inl ⟨hr, fun i h1 h2 => ?_⟩
        rcases Nat.lt_or_ge k i with hki | hki
        · rwa [show i = k + 1 by omega]
        · exact hn i h1 hki
      · exact .inr ⟨i, h1, by omega, hr, hi⟩

/-- What `ixgbe_update_pf_promisc_vlvf` does to the registers; `pf` is the PF's pool. -/
inductive PfUpdate (t : VlanRegs) (promisc : Bool) (pf vid : ℕ) : VlanRegs → Prop
  /-- No entry of `1..63` carries the VLAN. -/
  | absent (h : vid = 0 ∨ ∀ i, 1 ≤ i → i < 64 → vlvfVid (t.vlvf i) ≠ vid) :
      PfUpdate t promisc pf vid t
  | keep (i : ℕ) (hv : vid ≠ 0) (hi : 1 ≤ i) (hi' : i < 64) (hw : vlvfVid (t.vlvf i) = vid)
      (ho : ¬ t.OthersEmpty i pf) : PfUpdate t promisc pf vid t
  /-- No pool but the PF uses the entry: it is freed, the PF taken out unless promiscuous. -/
  | free (i : ℕ) (hv : vid ≠ 0) (hi : 1 ≤ i) (hi' : i < 64) (hw : vlvfVid (t.vlvf i) = vid)
      (ho : t.OthersEmpty i pf) :
      PfUpdate t promisc pf vid ((if promisc then t else t.setPool i pf false).writeVlvf i 0)

theorem PfUpdate.vftaBit {t t' : VlanRegs} {promisc : Bool} {pf vid : ℕ}
    (h : PfUpdate t promisc pf vid t') (u : ℕ) : t'.vftaBit u = t.vftaBit u := by
  cases h with
  | absent _ => rfl
  | keep _ _ _ _ _ _ => rfl
  | free i _ _ _ _ _ => cases promisc <;> rfl

section

variable {cfg : PoolCfg} {s : VlanState}

theorem updatePfPromiscVlvf_step (hpf : cfg.vmdqP 0 < 64) (vid : ℕ) :
    PfUpdate s.regs s.vlanPromisc (cfg.vmdqP 0) vid (updatePfPromiscVlvf cfg s vid).regs := by
  unfold updatePfPromiscVlvf
  by_cases hv : vid = 0
  · rw [findVlvfEntry, if_pos hv]
    exact .absent (.inl hv)
  rw [findVlvfEntry, if_neg hv]
  obtain ⟨hr, hn⟩ | ⟨i, h1, h2, hr, hi⟩ := findVlvfEntryFrom_cases s.regs.vlvf vid 63
  · simp only [vlvfEntries, hr, if_true]
    exact .absent (.inr fun i h1 h2 => hn i h1 (by omega))
  have hother := slotWord_xor_one i (by omega : cfg.vmdqP 0 / 32 < 2)
  simp only [vlvfEntries, Nat.add_one_sub_one, hr, if_neg (by omega : i ≠ 0), hother,
    BitVec.and_comm (~~~shl1 _), othersEmpty_iff i hpf]
  split
  case isTrue ho =>
    cases s.vlanPromisc with
    | true => exact .free i hv h1 (by omega) hi ho
    | false =>
      rw [if_pos rfl, writeVlvfb_zero s.regs hpf ho]
      exact .free i hv h1 (by omega) hi ho
  case isFalse ho =>
    exact .keep i hv h1 (by omega) hi ho

@[simp] theorem updatePfPromiscVlvf_activeVlans (vid : ℕ) :
    (updatePfPromiscVlvf cfg s vid).activeVlans = s.activeVlans := by
  unfold updatePfPromiscVlvf
  dsimp only
  split_ifs <;> rfl

@[simp] theorem updatePfPromiscVlvf_vlanPromisc (vid : ℕ) :
    (updatePfPromiscVlvf cfg s vid).vlanPromisc = s.vlanPromisc := by
  unfold updatePfPromiscVlvf
  dsimp only
  split_ifs <;> rfl

end

inductive ClearSlot (t : VlanRegs) (promisc : Bool) (pf vf i : ℕ) : VlanRegs → Prop
  | absent (h : t.poolBit i vf = false) : ClearSlot t promisc pf vf i t
  /-- Other pools are in the slot: only the VF leaves. -/
  | others (h : t.poolBit i vf = true) (ho : ¬ (t.setPool i vf false).OthersEmpty i pf) :
      ClearSlot t promisc pf vf i (t.setPool i vf false)
  /-- Only the PF is left: the entry is freed, the VFTA kept, and the VF's word zeroed. -/
  | onlyPf (h : t.poolBit i vf = true) (ho : (t.setPool i vf false).OthersEmpty i pf)
      (hpf : t.poolBit i pf = true) :
      ClearSlot t promisc pf vf i
        (((t.setPool i vf false).setPool i pf
          (promisc || decide (vf / 32 ≠ pf / 32))).writeVlvf i 0)
  /-- No pool is left in a free entry. -/
  | stale (h : t.poolBit i vf = true) (ho : t.OthersEmpty i vf) (hw : t.vlvf i = 0) :
      ClearSlot t promisc pf vf i (t.setPool i vf false)
  /-- No pool is left: the entry is freed and its VLAN's VFTA bit cleared. -/
  | last (h : t.poolBit i vf = true) (ho : t.OthersEmpty i vf) (hw : t.vlvf i ≠ 0) :
      ClearSlot t promisc pf vf i
        (((t.setPool i vf false).writeVlvf i 0).setVftaBit (vlvfVid (t.vlvf i)) false)

section

variable {t : VlanRegs} {i vf pf : ℕ}

theorem and_shl1_eq_zero_iff :
    t.vlvfb (i * 2 + vf / 32) &&& shl1 (vf % 32) = 0 ↔ t.poolBit i vf = false := by
  have h := and_mask_eq_zero_iff (t.vlvfb (i * 2 + vf / 32)) (by omega : vf % 32 < 32)
  rw [getLsbD_vlvfb i _ (by omega), Nat.div_add_mod] at h
  exact h

theorem setPool_vlvfb_half (hvf : vf < 64) (hbit : t.poolBit i vf = true) {h : ℕ} (hh : h < 2) :
    (if h = (i * 2 + vf / 32) % 2 then t.vlvfb (i * 2 + vf / 32) ^^^ shl1 (vf % 32)
      else t.vlvfb ((i * 2 + vf / 32) ^^^ 1)) = (t.setPool i vf false).vlvfb (i * 2 + h) := by
  have hset : (t.vlvfb (i * 2 + vf / 32)).getLsbD (vf % 32) = true := by
    rw [getLsbD_vlvfb i _ (by omega), Nat.div_add_mod]
    exact hbit
  rw [← writeVlvfb_putBit, slotWord_xor_one i (by omega), xor_mask_of_bit hset]
  by_cases hw : h = vf / 32
  · rw [if_pos (by omega), hw]
    exact (Function.update_self (i * 2 + vf / 32) _ t.vlvfb).symm
  · rw [if_neg (by omega), show 1 - vf / 32 = h by omega]
    exact (Function.update_of_ne (by omega : i * 2 + h ≠ i * 2 + vf / 32) _ t.vlvfb).symm

theorem writeVlvfb_vfWord_zero (hvf : vf < 64) (hpf : pf < 64) (hbit : t.poolBit i pf = true)
    (ho : (t.setPool i vf false).OthersEmpty i pf) :
    t.writeVlvfb (i * 2 + vf / 32) 0 =
      (t.setPool i vf false).setPool i pf (decide (vf / 32 ≠ pf / 32)) := by
  have hzero : t.writeVlvfb (i * 2 + vf / 32) 0 =
      (t.setPool i vf false).writeVlvfb (i * 2 + vf / 32) 0 := by
    rw [← writeVlvfb_putBit]
    simp [writeVlvfb]
  rw [hzero]
  by_cases hword : vf / 32 = pf / 32
  · rw [hword, writeVlvfb_zero _ hpf ho]
    simp
  · -- the VF's word is empty already, and the PF's bit is set already
    have hempty := ((othersEmpty_iff i hpf).mpr ho).2
    rw [show 1 - pf / 32 = vf / 32 by omega] at hempty
    have hpfbit : (t.setPool i vf false).poolBit i pf = true := by
      rw [setPool_poolBit _ hvf hpf, if_neg (by omega), hbit]
    have hsame : (t.setPool i vf false).setPool i pf true = t.setPool i vf false := by
      rw [setPool, setBit_self _ _ hpfbit]
    rw [decide_eq_true hword, hsame, ← hempty, writeVlvfb, Function.update_eq_self]

theorem writeVfta_toggle (t : VlanRegs) (v : ℕ) :
    (if t.vfta (v / 32) &&& shl1 (v % 32) ≠ 0 then
        t.writeVfta (v / 32) (t.vfta (v / 32) ^^^ shl1 (v % 32)) else t) =
      t.setVftaBit v false := by
  have htest := and_mask_eq_zero_iff (t.vfta (v / 32)) (by omega : v % 32 < 32)
  by_cases hz : t.vfta (v / 32) &&& shl1 (v % 32) = 0
  · rw [if_neg (not_not.mpr hz), setVftaBit, setBit_self _ _ (htest.mp hz)]
  · have hset : (t.vfta (v / 32)).getLsbD (v % 32) = true := by
      rw [← Bool.not_eq_false]
      exact fun hf => hz (htest.mpr hf)
    rw [if_pos hz, xor_mask_of_bit hset]
    rfl

theorem setPool_true_of_poolBit {p : ℕ} (h : t.poolBit i p = true) : t.setPool i p true = t := by
  rw [setPool, setBit_self _ _ h]

theorem setPool_poolBit_of_ne {p q : ℕ} (b : Bool) (hp : p < 64) (hq : q < 64) (hpq : p ≠ q)
    (j : ℕ) :
    (t.setPool i p b).poolBit j q = t.poolBit j q := by
  rw [setPool_poolBit b hp hq, if_neg fun h => hpq h.2.symm]

theorem clearVfVlansSlot_step {cfg : PoolCfg} (promisc : Bool) (hvf : vf < 64)
    (hpf : cfg.vmdqP 0 < 64) (hne : vf ≠ cfg.vmdqP 0) :
    ClearSlot t promisc (cfg.vmdqP 0) vf i (clearVfVlansSlot cfg promisc vf t i) := by
  unfold clearVfVlansSlot
  generalize cfg.vmdqP 0 = pf at hpf hne
  simp only [and_shl1_eq_zero_iff]
  split
  case isTrue hbit =>
    exact .absent hbit
  rename_i hbit
  rw [Bool.not_eq_false] at hbit
  -- the tests are made on the table without the VF
  have hpfbit := setPool_poolBit_of_ne (t := t) (i := i) false hvf hpf hne i
  have hothers : ((t.setPool i vf false).vlvfb (i * 2 + (1 - pf / 32)) ≠ 0 ∨
      (t.setPool i vf false).vlvfb (i * 2 + pf / 32) &&& ~~~(shl1 (pf % 32)) ≠ 0) ↔
      ¬ (t.setPool i vf false).OthersEmpty i pf := by
    rw [← othersEmpty_iff i hpf, not_and_or, or_comm]
  have hpools : ((t.setPool i vf false).vlvfb (i * 2 + 0) ≠ 0 ∨
      (t.setPool i vf false).vlvfb (i * 2 + 1) ≠ 0) ↔ ¬ (t.setPool i vf false).NoPools i := by
    rw [← noPools_iff, not_and_or, Nat.add_zero]
  -- and writing the VF's word back takes out the VF
  have htoggle : t.vlvfb (i * 2 + vf / 32) ^^^ shl1 (vf % 32) =
      t.vlvfb (i * 2 + vf / 32) &&& ~~~(shl1 (vf % 32)) := by
    apply xor_mask_of_bit
    rw [getLsbD_vlvfb i _ (by omega), Nat.div_add_mod]
    exact hbit
  have hleave : ∀ t' : VlanRegs, t'.vlvfb = t.vlvfb →
      t'.writeVlvfb (i * 2 + vf / 32) (t.vlvfb (i * 2 + vf / 32) ^^^ shl1 (vf % 32)) =
        t'.setPool i vf false := by
    intro t' h
    rw [htoggle, ← h, ← writeVlvfb_putBit]
    rfl
  simp only [setPool_vlvfb_half hvf hbit (by omega : pf / 32 < 2),
    half_xor_one (by omega : pf / 32 < 2), setPool_vlvfb_half hvf hbit (by omega : 1 - pf / 32 < 2),
    setPool_vlvfb_half hvf hbit (by omega : 0 < 2),
    setPool_vlvfb_half hvf hbit (by omega : 1 < 2), hothers, hpools]
  by_cases ho : (t.setPool i vf false).OthersEmpty i pf
  swap
  · rw [if_pos ho, hleave t rfl]
    exact .others hbit ho
  rw [if_neg (not_not.mpr ho)]
  by_cases hin : t.poolBit i pf = true
  · -- the PF is left
    have hleft : ¬ (t.setPool i vf false).NoPools i := by
      intro hno
      have := hpfbit.symm.trans (hno pf hpf)
      exact absurd hin (ne_true_of_eq_false this)
    rw [if_pos hleft]
    have hstep : ClearSlot t promisc pf vf i _ := .onlyPf hbit ho hin
    cases promisc with
    | true =>
      rw [Bool.true_or, setPool_true_of_poolBit (hpfbit.trans hin)] at hstep
      rw [if_pos rfl, hleave (t.writeVlvf i 0) rfl]
      exact hstep
    | false =>
      rw [Bool.false_or, ← writeVlvfb_vfWord_zero hvf hpf hin ho] at hstep
      exact hstep
  · -- nobody is left
    rw [Bool.not_eq_true] at hin
    have hclear : (t.setPool i vf false).NoPools i := by
      intro q hq
      by_cases hqpf : q = pf
      · rw [hqpf, hpfbit, hin]
      · exact ho q hq hqpf
    have hvfOnly : t.OthersEmpty i vf := by
      intro q hq hqvf
      rw [← setPool_poolBit_of_ne false hvf hq (Ne.symm hqvf) i]
      exact hclear q hq
    rw [if_neg (not_not.mpr hclear)]
    by_cases hw : t.vlvf i = 0
    · rw [if_pos hw, hleave t rfl]
      exact .stale hbit hvfOnly hw
    · rw [if_neg hw, writeVfta_toggle]
      -- the word written is zero with or without promiscuous mode
      have hzero := htoggle.trans ((othersEmpty_iff i hvf).mpr hvfOnly).1
      have hfree := hleave ((t.setVftaBit (vlvfVid (t.vlvf i)) false).writeVlvf i 0) rfl
      rw [hzero] at hfree
      rw [hzero, ite_self, hfree]
      exact .last hbit hvfOnly hw

end

/-- The calls it makes are given by their outcomes. -/
inductive VfVlanStep (s : VlanState) (pf vid vf : ℕ) : Bool → ℤ × VlanRegs → Prop
  /-- The PF monitors the VLAN and gets no entry for it. -/
  | pfFail (e : ℤ) (t₁ : VlanRegs) (hact : s.active vid = true)
      (h₁ : VftaStep s.regs vid pf true false (e, t₁)) (he : e ≠ success) :
      VfVlanStep s pf vid vf true (e, t₁)
  /-- The VF joins, after the PF if it monitors the VLAN. -/
  | joined (t₁ t₂ : VlanRegs)
      (h₁ : s.active vid = true ∧ VftaStep s.regs vid pf true false (success, t₁) ∨
        s.active vid = false ∧ t₁ = s.regs)
      (h₂ : VftaStep t₁ vid vf true false (success, t₂)) :
      VfVlanStep s pf vid vf true (success, t₂)
  | joinFail (e : ℤ) (t₁ t₂ t₃ : VlanRegs)
      (h₁ : s.active vid = true ∧ VftaStep s.regs vid pf true false (success, t₁) ∨
        s.active vid = false ∧ t₁ = s.regs)
      (h₂ : VftaStep t₁ vid vf true false (e, t₂)) (he : e ≠ success)
      (h₃ : (s.active vid = true ∨ s.vlanPromisc = true) ∧ PfUpdate t₂ s.vlanPromisc pf vid t₃ ∨
        ¬ (s.active vid = true ∨ s.vlanPromisc = true) ∧ t₃ = t₂) :
      VfVlanStep s pf vid vf true (e, t₃)
  /-- The VF leaves, and an entry left to the PF alone is freed. -/
  | removed (e : ℤ) (t₂ t₃ : VlanRegs) (h₂ : VftaStep s.regs vid vf false false (e, t₂))
      (h₃ : (s.active vid = true ∨ s.vlanPromisc = true) ∧ PfUpdate t₂ s.vlanPromisc pf vid t₃ ∨
        ¬ (s.active vid = true ∨ s.vlanPromisc = true) ∧ t₃ = t₂) :
      VfVlanStep s pf vid vf false (e, t₃)

/-- **Invariant rule** for `ixgbe_set_vf_vlan`, from the filter calls and the cleanup. -/
theorem VfVlanStep.inv {P : VlanRegs → Prop} {s : VlanState} {pf vid vf : ℕ} {add : Bool} {e : ℤ}
    {t' : VlanRegs} (h : VfVlanStep s pf vid vf add (e, t'))
    (hpf : ∀ t t1 e, VftaStep t vid pf true false (e, t1) → P t → P t1)
    (hvf : ∀ t t1 e, VftaStep t vid vf add false (e, t1) → P t → P t1)
    (hup : ∀ t t1, PfUpdate t s.vlanPromisc pf vid t1 → P t → P t1) (hs : P s.regs) : P t' := by
  -- the PF's own call before that of the VF, made or not
  have hhead : ∀ t1 : VlanRegs,
      (s.active vid = true ∧ VftaStep s.regs vid pf true false (success, t1) ∨
        s.active vid = false ∧ t1 = s.regs) → P t1 := by
    rintro t1 (⟨-, h1⟩ | ⟨-, rfl⟩)
    · exact hpf _ _ _ h1 hs
    · exact hs
  -- the cleanup at the end, reached or not
  have htail : ∀ t2 t3 : VlanRegs,
      ((s.active vid = true ∨ s.vlanPromisc = true) ∧ PfUpdate t2 s.vlanPromisc pf vid t3 ∨
        ¬ (s.active vid = true ∨ s.vlanPromisc = true) ∧ t3 = t2) → P t2 → P t3 := by
    rintro t2 t3 (⟨-, h3⟩ | ⟨-, rfl⟩) h2
    · exact hup _ _ h3 h2
    · exact h2
  cases h with
  | pfFail _ _ _ h1 _ => exact hpf _ _ _ h1 hs
  | joined t1 _ h1 h2 => exact hvf _ _ _ h2 (hhead t1 h1)
  | joinFail _ t1 t2 _ h1 h2 _ h3 => exact htail t2 _ h3 (hvf _ _ _ h2 (hhead t1 h1))
  | removed _ t2 _ h2 h3 => exact htail t2 _ h3 (hvf _ _ _ h2 hs)

theorem VfVlanStep.vtOn {s : VlanState} {pf vid vf : ℕ} {add : Bool} {e : ℤ} {t' : VlanRegs}
    (h : VfVlanStep s pf vid vf add (e, t')) : t'.VtOn ↔ s.regs.VtOn := by
  refine h.inv (P := fun t => t.VtOn ↔ s.regs.VtOn) (fun _ _ _ h1 ht => h1.vtOn.trans ht)
    (fun _ _ _ h2 ht => h2.vtOn.trans ht) (fun _ _ hup ht => ?_) Iff.rfl
  cases hup with
  | absent _ => exact ht
  | keep _ _ _ _ _ _ => exact ht
  | free _ _ _ _ _ _ =>
    rw [← ht]
    cases s.vlanPromisc <;> exact Iff.rfl

theorem VfVlanStep.success_iff {s : VlanState} {pf vid vf : ℕ} {add : Bool} {e : ℤ} {t' : VlanRegs}
    (h : VfVlanStep s pf vid vf add (e, t')) :
    e = success ↔ ¬ s.regs.VtOn ∨ ¬ NoSlot s.regs vid false := by
  cases h with
  | pfFail _ _ _ h1 _ => exact h1.success_iff
  | removed _ _ _ h2 _ => exact h2.success_iff
  | joined t1 _ h1 h2 =>
    refine ⟨fun _ => ?_, fun _ => rfl⟩
    rcases h1 with ⟨-, h1⟩ | ⟨-, rfl⟩
    · exact h1.success_iff.mp rfl
    · exact h2.success_iff.mp rfl
  | joinFail _ t1 _ _ h1 h2 he _ =>
    refine ⟨fun hc => absurd hc he, fun hslot => ?_⟩
    rcases h1 with ⟨-, h1⟩ | ⟨-, rfl⟩
    · refine h2.success_iff.mpr ?_
      by_cases hvt : s.regs.VtOn
      · obtain ⟨i, hs, rfl⟩ := h1.join_of_success hvt
        refine .inr fun hno => hno.2.1 ⟨i, hs.pos hno.1, hs.lt, ?_⟩
        rw [setVftaBit_vlvf, writeVlvf_vlvf_self]
      · exact .inl fun hc => hvt (h1.vtOn.mp hc)
    · exact h2.success_iff.mpr hslot

section

variable {cfg : PoolCfg} {s : VlanState}

@[simp] theorem active_regs (t : VlanRegs) (vid : ℕ) :
    VlanState.active { s with regs := t } vid = s.active vid := rfl

theorem setVfVlan_step (hpf : cfg.vmdqP 0 < 64) (add : Bool) {vid vf : ℕ} (hv : vid ≤ 4095)
    (hvf : vf < 64) :
    VfVlanStep s (cfg.vmdqP 0) vid vf add
      ((setVfVlan cfg s add vid vf).1, (setVfVlan cfg s add vid vf).2.regs) := by
  have hcall : ∀ (t : VlanRegs) {p : ℕ}, p < 64 → ∀ on : Bool,
      VftaStep t vid p on false ((setVftaGeneric t vid p on false).1,
        (setVftaGeneric t vid p on false).2) :=
    fun t p hp on => setVftaGeneric_step t hv hp on false
  unfold setVfVlan
  cases add with
  | false =>
    simp only [Bool.false_eq_true, false_and, if_false, ne_eq, not_true, active_regs]
    split
    case isTrue h =>
      exact .removed _ _ _ (hcall s.regs hvf false)
        (.inl ⟨h, updatePfPromiscVlvf_step (s := { s with regs := _ }) hpf vid⟩)
    case isFalse h =>
      exact .removed _ _ _ (hcall s.regs hvf false) (.inr ⟨h, rfl⟩)
  | true =>
    simp only [true_and, active_regs]
    -- the PF's own call, if it monitors the VLAN
    generalize hr1 : (if s.active vid = true then
      setVftaGeneric s.regs vid (cfg.vmdqP 0) true false else (success, s.regs)) = r1
    obtain ⟨e1, t1⟩ := r1
    split
    case isTrue he1 =>
      by_cases hact : s.active vid = true
      · rw [if_pos hact] at hr1
        have h1 := setVftaGeneric_step s.regs hv hpf true false
        rw [hr1] at h1
        exact .pfFail e1 t1 hact h1 he1
      · rw [if_neg hact, Prod.mk.injEq] at hr1
        exact absurd hr1.1.symm he1
    case isFalse he1 =>
      rw [not_not] at he1
      subst he1
      have h1 : s.active vid = true ∧
          VftaStep s.regs vid (cfg.vmdqP 0) true false (success, t1) ∨
          s.active vid = false ∧ t1 = s.regs := by
        by_cases hact : s.active vid = true
        · rw [if_pos hact] at hr1
          have h1 := setVftaGeneric_step s.regs hv hpf true false
          rw [hr1] at h1
          exact .inl ⟨hact, h1⟩
        · rw [if_neg hact, Prod.mk.injEq] at hr1
          exact .inr ⟨by simpa using hact, hr1.2.symm⟩
      split
      case isTrue he2 =>
        have h2 := hcall t1 hvf true
        rw [he2] at h2 ⊢
        exact .joined t1 _ h1 h2
      case isFalse he2 =>
        split
        case isTrue h =>
          exact .joinFail _ t1 _ _ h1 (hcall t1 hvf true) he2
            (.inl ⟨h, updatePfPromiscVlvf_step (s := { s with regs := _ }) hpf vid⟩)
        case isFalse h =>
          exact .joinFail _ t1 _ _ h1 (hcall t1 hvf true) he2 (.inr ⟨h, rfl⟩)

theorem setVfVlan_frame (cfg : PoolCfg) (s : VlanState) (add : Bool) (vid vf : ℕ) :
    (setVfVlan cfg s add vid vf).2.activeVlans = s.activeVlans ∧
      (setVfVlan cfg s add vid vf).2.vlanPromisc = s.vlanPromisc := by
  unfold setVfVlan
  dsimp only
  split_ifs <;> simp

end

/-- The slots `1..63` are free or hold distinct VLANs of `1..4095`. -/
structure SlotShape (t : VlanRegs) : Prop where
  word : ∀ i, 1 ≤ i → i < 64 → t.vlvf i = 0 ∨ ∃ v, 1 ≤ v ∧ v ≤ 4095 ∧ t.vlvf i = vlvfWord v
  inj : ∀ i, 1 ≤ i → i < 64 → ∀ j, 1 ≤ j → j < 64 → t.vlvf i = t.vlvf j → t.vlvf i ≠ 0 → i = j

namespace SlotShape

variable {t t' : VlanRegs} {i v : ℕ}

section

variable (h : SlotShape t)

include h

theorem congr (hv : t'.vlvf = t.vlvf) : SlotShape t' := by
  obtain ⟨hword, hinj⟩ := h
  rw [← hv] at hword hinj
  exact ⟨hword, hinj⟩

theorem writeVlvf_zero (i : ℕ) : SlotShape (t.writeVlvf i 0) := by
  constructor
  · intro j h1 h2
    rw [writeVlvf_vlvf]
    by_cases hji : j = i
    · exact .inl (if_pos hji)
    · rw [if_neg hji]
      exact h.word j h1 h2
  · intro j h1 h2 k h3 h4
    rw [writeVlvf_vlvf, writeVlvf_vlvf]
    split
    · exact fun _ hne => absurd rfl hne
    · split
      · exact fun heq hne => absurd heq hne
      · exact h.inj j h1 h2 k h3 h4

theorem eq_of_slotFor {b : Bool} (hs : SlotFor t v b i) {j : ℕ} (h1 : 1 ≤ j)
    (h2 : j < 64) (hw : t.vlvf j = vlvfWord v) (hv : v ≠ 0) : j = i := by
  cases hs with
  | reserved hv0 => exact absurd hv0 hv
  | held _ _ hi hi' hwi =>
    exact h.inj j h1 h2 i hi hi' (hw.trans hwi.symm) (hw ▸ vlvfWord_ne_zero v)
  | free _ _ _ hn _ _ _ _ => exact absurd ⟨j, h1, h2, hw⟩ hn

theorem writeVlvf_word (hv : v ≤ 4095) {b : Bool} (hs : SlotFor t v b i) :
    SlotShape (t.writeVlvf i (vlvfWord v)) := by
  by_cases hv0 : v = 0
  · -- slot 0 is outside the range
    have hi0 : i = 0 := by cases hs <;> first | rfl | exact absurd hv0 ‹_›
    refine ⟨fun j h1 h2 => ?_, fun j h1 h2 k h3 h4 => ?_⟩
    · rw [writeVlvf_vlvf, if_neg (by omega)]
      exact h.word j h1 h2
    · rw [writeVlvf_vlvf, if_neg (by omega), writeVlvf_vlvf, if_neg (by omega)]
      exact h.inj j h1 h2 k h3 h4
  constructor
  · intro j h1 h2
    rw [writeVlvf_vlvf]
    by_cases hji : j = i
    · exact .inr ⟨v, by omega, hv, if_pos hji⟩
    · rw [if_neg hji]
      exact h.word j h1 h2
  · intro j h1 h2 k h3 h4
    rw [writeVlvf_vlvf, writeVlvf_vlvf]
    split
    case isTrue hji =>
      by_cases hki : k = i
      · exact fun _ _ => hji.trans hki.symm
      · rw [if_neg hki]
        exact fun heq _ => absurd (h.eq_of_slotFor hs h3 h4 heq.symm hv0) hki
    case isFalse hji =>
      split
      · exact fun heq _ => absurd (h.eq_of_slotFor hs h1 h2 heq hv0) hji
      · exact h.inj j h1 h2 k h3 h4

theorem vlvfVid_eq_iff (h1 : 1 ≤ i) (h2 : i < 64) (hv : v ≠ 0) (hv' : v ≤ 4095) :
    vlvfVid (t.vlvf i) = v ↔ t.vlvf i = vlvfWord v := by
  constructor
  · intro hvid
    obtain h0 | ⟨u, hu1, hu2, hu⟩ := h.word i h1 h2
    · rw [h0, vlvfVid_zero] at hvid
      exact absurd hvid.symm hv
    · rw [hu, vlvfVid_vlvfWord hu2] at hvid
      rw [hu, hvid]
  · intro hw
    rw [hw, vlvfVid_vlvfWord hv']

theorem clearSlot {promisc : Bool} {pf vf : ℕ}
    (hstep : ClearSlot t promisc pf vf i t') : SlotShape t' := by
  cases hstep with
  | absent _ => exact h
  | others _ _ => exact h.congr rfl
  | onlyPf _ _ _ => exact (h.writeVlvf_zero i).congr rfl
  | stale _ _ _ => exact h.congr rfl
  | last _ _ _ => exact (h.writeVlvf_zero i).congr rfl

end

end SlotShape

structure SameSlot (t t' : VlanRegs) (j : ℕ) : Prop where
  vlvf : t'.vlvf j = t.vlvf j
  pools : ∀ q < 64, t'.poolBit j q = t.poolBit j q

theorem SameSlot.refl (t : VlanRegs) (j : ℕ) : SameSlot t t j := ⟨rfl, fun _ _ => rfl⟩

theorem SameSlot.trans {t t' t'' : VlanRegs} {j : ℕ} (h : SameSlot t t' j)
    (h' : SameSlot t' t'' j) :
    SameSlot t t'' j :=
  ⟨h'.vlvf.trans h.vlvf, fun q hq => (h'.pools q hq).trans (h.pools q hq)⟩

section

variable {t t' : VlanRegs} {promisc : Bool} {pf vf i j : ℕ}

theorem setPool_poolBit_of_slot_ne {p q : ℕ} (b : Bool) (hp : p < 64) (hq : q < 64) (hji : j ≠ i) :
    (t.setPool i p b).poolBit j q = t.poolBit j q := by
  rw [setPool_poolBit b hp hq, if_neg fun h => hji h.1]

theorem writeVlvf_vlvf_of_ne (x : U32) (hji : j ≠ i) : (t.writeVlvf i x).vlvf j = t.vlvf j := by
  rw [writeVlvf_vlvf, if_neg hji]

theorem SameSlot.setPool_writeVlvf {p : ℕ} (hp : p < 64) (b : Bool) (x : U32) (hji : j ≠ i) :
    SameSlot t ((t.setPool i p b).writeVlvf i x) j :=
  ⟨writeVlvf_vlvf_of_ne x hji, fun _ hq => setPool_poolBit_of_slot_ne b hp hq hji⟩

theorem SameSlot.setVftaBit (h : SameSlot t t' j) (v : ℕ) (b : Bool) :
    SameSlot t (t'.setVftaBit v b) j :=
  ⟨h.vlvf, h.pools⟩

theorem ClearSlot.sameSlot (hvf : vf < 64) (hpf : pf < 64)
    (h : ClearSlot t promisc pf vf i t') (hji : j ≠ i) : SameSlot t t' j := by
  have hone : ∀ q < 64, (t.setPool i vf false).poolBit j q = t.poolBit j q :=
    fun q hq => setPool_poolBit_of_slot_ne false hvf hq hji
  cases h with
  | absent _ => exact .refl t j
  | others _ _ => exact ⟨rfl, hone⟩
  | onlyPf _ _ _ =>
    refine ⟨writeVlvf_vlvf_of_ne 0 hji, fun q hq => ?_⟩
    rw [writeVlvf_poolBit, setPool_poolBit_of_slot_ne _ hpf hq hji, hone q hq]
  | stale _ _ _ => exact ⟨rfl, hone⟩
  | last _ _ _ => exact ⟨writeVlvf_vlvf_of_ne 0 hji, hone⟩

theorem foldl_clearVfVlansSlot_of_notMem {cfg : PoolCfg} (hvf : vf < 64) (hpf : cfg.vmdqP 0 < 64)
    (hne : vf ≠ cfg.vmdqP 0) (l : List ℕ) (hj : j ∉ l) :
    SameSlot t (l.foldl (clearVfVlansSlot cfg promisc vf) t) j := by
  induction l generalizing t with
  | nil => exact .refl t j
  | cons i l ih =>
    rw [mem_cons, not_or] at hj
    exact ((clearVfVlansSlot_step promisc hvf hpf hne).sameSlot hvf hpf hj.1).trans (ih hj.2)

theorem foldl_clearVfVlansSlot_of_mem {cfg : PoolCfg} (hvf : vf < 64) (hpf : cfg.vmdqP 0 < 64)
    (hne : vf ≠ cfg.vmdqP 0) (l : List ℕ) (hl : l.Nodup) (hj : j ∈ l) :
    ∃ t1 t2, SameSlot t t1 j ∧ ClearSlot t1 promisc (cfg.vmdqP 0) vf j t2 ∧
      SameSlot t2 (l.foldl (clearVfVlansSlot cfg promisc vf) t) j := by
  induction l generalizing t with
  | nil => exact absurd hj not_mem_nil
  | cons i l ih =>
    rw [nodup_cons] at hl
    have hstep := clearVfVlansSlot_step (t := t) (i := i) promisc hvf hpf hne
    by_cases hji : j = i
    · subst hji
      exact ⟨t, _, .refl t j, hstep, foldl_clearVfVlansSlot_of_notMem hvf hpf hne l hl.1⟩
    · obtain ⟨t1, t2, h1, hc, h2⟩ := ih hl.2 ((mem_cons.mp hj).resolve_left hji)
      exact ⟨t1, t2, (hstep.sameSlot hvf hpf hji).trans h1, hc, h2⟩

end

/-- The VFs have the pools below `offset`, the PF those from there on. -/
structure SriovCfg extends PoolCfg where
  vmdq : vmdqEnabled = true
  offset_pos : 0 < offset
  offset_lt : offset < 64

/-- `offset` is set to `num_vfs`. -/
abbrev SriovCfg.numVfs (cfg : SriovCfg) : ℕ := cfg.offset

/-- The PF's first pool, `VMDQ_P(0)`. -/
abbrev SriovCfg.pf (cfg : SriovCfg) : ℕ := cfg.vmdqP 0

theorem SriovCfg.pf_lt (cfg : SriovCfg) : cfg.pf < 64 := by
  have := cfg.offset_lt
  rw [pf, PoolCfg.vmdqP]
  omega

theorem SriovCfg.vf_lt (cfg : SriovCfg) (vf : Fin cfg.numVfs) : (vf : ℕ) < 64 :=
  vf.isLt.trans cfg.offset_lt

theorem SriovCfg.vf_ne_pf (cfg : SriovCfg) (vf : Fin cfg.numVfs) : (vf : ℕ) ≠ cfg.pf := by
  have : (vf : ℕ) < cfg.offset := vf.isLt
  rw [pf, PoolCfg.vmdqP]
  omega

inductive VlanEvent (numVfs : ℕ)
  | addVid (vid : Fin 4096)
  | killVid (vid : Fin 4096)
  | setVfVlan (add : Bool) (vid : Fin 4096) (vf : Fin numVfs)
  /-- `ixgbe_clear_vf_vlans`, on a VF reset. -/
  | clearVfVlans (vf : Fin numVfs)
  deriving DecidableEq

def vlanStep (cfg : SriovCfg) (s : VlanState) : VlanEvent cfg.numVfs → VlanState
  | .addVid vid => vlanRxAddVid cfg.toPoolCfg s vid
  | .killVid vid => vlanRxKillVid cfg.toPoolCfg s vid
  | .setVfVlan add vid vf => (setVfVlan cfg.toPoolCfg s add vid vf).2
  | .clearVfVlans vf => clearVfVlans cfg.toPoolCfg s vf

section

variable {cfg : SriovCfg} {s : VlanState}

theorem clearVfVlans_inv {P : VlanRegs → Prop} (vf : Fin cfg.numVfs)
    (hstep : ∀ t t' i, i < 64 → ClearSlot t s.vlanPromisc cfg.pf vf i t' → P t → P t')
    (h : P s.regs) : P (clearVfVlans cfg.toPoolCfg s vf).regs := by
  have hloop : ∀ (l : List ℕ) (t : VlanRegs), (∀ i ∈ l, i < 64) → P t →
      P (l.foldl (clearVfVlansSlot cfg.toPoolCfg s.vlanPromisc vf) t) := by
    intro l
    induction l with
    | nil => exact fun t _ ht => ht
    | cons i l ih =>
      intro t hl ht
      have hc := clearVfVlansSlot_step (t := t) (i := i) s.vlanPromisc (cfg.vf_lt vf) cfg.pf_lt
        (cfg.vf_ne_pf vf)
      exact ih _ (fun k hk => hl k (mem_cons_of_mem _ hk))
        (hstep t _ i (hl i (mem_cons_self ..)) hc ht)
  refine hloop _ s.regs (fun i hi => ?_) h
  rwa [mem_reverse, mem_range] at hi

theorem clearVfVlans_slot (vf : Fin cfg.numVfs) {j : ℕ} (hj : j < 64) :
    ∃ t1 t2, SameSlot s.regs t1 j ∧ ClearSlot t1 s.vlanPromisc cfg.pf vf j t2 ∧
      SameSlot t2 (clearVfVlans cfg.toPoolCfg s vf).regs j :=
  foldl_clearVfVlansSlot_of_mem (cfg.vf_lt vf) cfg.pf_lt (cfg.vf_ne_pf vf) _
    (nodup_reverse.mpr nodup_range) (by simpa [vlvfEntries] using hj)

theorem active_setBit (v u : ℕ) (b : Bool) :
    VlanState.active { s with activeVlans := setBit s.activeVlans v b } u =
      if u = v then b else s.active u :=
  bit_setBit (by decide) s.activeVlans v u b

theorem setVftaRxPools_one (h : cfg.numRxPools = 1) (t : VlanRegs) (vid : ℕ) (on : Bool) :
    setVftaRxPools cfg.toPoolCfg t vid on = t := by
  simp [setVftaRxPools, h]

theorem vlanRxAddVid_one (h : cfg.numRxPools = 1) (vid : Fin 4096) :
    vlanRxAddVid cfg.toPoolCfg s vid =
      { s with
        activeVlans := setBit s.activeVlans vid true
        regs := if (vid : ℕ) = 0 ∨ s.vlanPromisc = false then
            (setVftaGeneric s.regs vid cfg.pf true (decide ((vid : ℕ) ≠ 0))).2 else s.regs } := by
  unfold vlanRxAddVid
  simp only [vid.isLt, if_true, setVftaRxPools_one h, cfg.vmdq]
  split_ifs <;> rfl

theorem vlanRxKillVid_one (h : cfg.numRxPools = 1) (vid : Fin 4096) (hv : (vid : ℕ) ≠ 0) :
    vlanRxKillVid cfg.toPoolCfg s vid =
      { s with
        activeVlans := setBit s.activeVlans vid false
        regs := if s.vlanPromisc = false then
            (setVftaGeneric s.regs vid cfg.pf false true).2 else s.regs } := by
  unfold vlanRxKillVid
  simp only [hv, if_false, setVftaRxPools_one h, cfg.vmdq, if_true]
  split_ifs <;> rfl

end

def clearedState (t₀ : VlanRegs) (vlnctrl : U32) : VlanState where
  regs := clearVftaGeneric t₀
  vlnctrl := vlnctrl
  activeVlans _ := 0
  vlanPromisc := false

def oneVfCfg : SriovCfg where
  vmdqEnabled := true
  offset := 1
  numRxPools := 1
  vmdq := rfl
  offset_pos := by decide
  offset_lt := by decide

def oneVf : Fin oneVfCfg.numVfs := ⟨0, by decide⟩

end Ixgbe
