import Ixgbe.Vlan.Ops

/-! # Entering and leaving VLAN promiscuous mode

Entering lists the PF in every slot of `1..63`; leaving rebuilds from the VLVF table and
`active_vlans`. -/

namespace Ixgbe

open WordArray VlanRegs

@[simp] theorem mem_vlvfSlots {i : ℕ} : i ∈ vlvfSlots ↔ 1 ≤ i ∧ i < 64 := by
  rw [vlvfSlots, List.mem_reverse, List.mem_range'_1, vlvfEntries]

theorem vlvfVid_le (x : U32) : vlvfVid x ≤ 4095 := by
  rw [vlvfVid, BitVec.toNat_and]
  exact Nat.and_le_right

structure PromiscEntered (pf : ℕ) (s s' : VlanState) : Prop where
  promisc : s'.vlanPromisc = true
  active : s'.activeVlans = s.activeVlans
  vlvf : s'.regs.vlvf = s.regs.vlvf
  vtCtl : s'.regs.vtCtl = s.regs.vtCtl
  pools : ∀ i < 64, ∀ q < 64,
    s'.regs.poolBit i q = if 1 ≤ i ∧ q = pf then true else s.regs.poolBit i q
  vfta : ∀ v ≤ 4095, s'.regs.vftaBit v = true

theorem foldl_setPool_pf {pf : ℕ} (hpf : pf < 64) (l : List ℕ) {t t' : VlanRegs}
    (ht' : l.foldl (fun t i => t.setPool i pf true) t = t') :
    t'.vlvf = t.vlvf ∧ t'.vtCtl = t.vtCtl ∧ ∀ i < 64, ∀ q < 64,
      t'.poolBit i q = if i ∈ l ∧ q = pf then true else t.poolBit i q := by
  induction l generalizing t with
  | nil =>
    subst ht'
    simp
  | cons k l ih =>
    obtain ⟨hvlvf, hvt, hpools⟩ := ih ht'
    refine ⟨hvlvf, hvt, fun i hi q hq => ?_⟩
    rw [hpools i hi q hq, setPool_poolBit _ hpf hq]
    split
    case isTrue hl =>
      rw [if_pos ⟨List.mem_cons_of_mem _ hl.1, hl.2⟩]
    case isFalse hl =>
      by_cases hk : i = k ∧ q = pf
      · rw [if_pos hk, if_pos ⟨hk.1 ▸ List.mem_cons_self .., hk.2⟩]
      · rw [if_neg hk, if_neg]
        rintro ⟨hmem, hqpf⟩
        rcases List.mem_cons.mp hmem with hik | hil
        · exact hk ⟨hik, hqpf⟩
        · exact hl ⟨hil, hqpf⟩

/-- For arbitrary registers `t`, so that the loops are never evaluated. -/
theorem PromiscEntered.of_regs {pf : ℕ} {s : VlanState} {t : VlanRegs} (c : U32)
    (hregs : t.vlvf = s.regs.vlvf ∧ t.vtCtl = s.regs.vtCtl ∧ ∀ i < 64, ∀ q < 64,
      t.poolBit i q = if i ∈ vlvfSlots ∧ q = pf then true else s.regs.poolBit i q) :
    PromiscEntered pf s
      { s with
        regs := (List.range vftSize).reverse.foldl (fun t i => t.writeVfta i (~~~0)) t
        vlnctrl := c
        vlanPromisc := true } := by
  obtain ⟨hvlvf, hvt, hpools⟩ := hregs
  rw [foldl_writeVfta]
  refine ⟨rfl, rfl, hvlvf, hvt, fun i hi q hq => ?_, fun v hv => ?_⟩
  · have hbit := hpools i hi q hq
    simp only [mem_vlvfSlots, hi, and_true] at hbit
    exact hbit
  · have hmem : v / 32 ∈ (List.range vftSize).reverse := by
      rw [List.mem_reverse, List.mem_range, vftSize]
      omega
    change BitVec.getLsbD (if v / 32 ∈ (List.range vftSize).reverse then ~~~0 else t.vfta (v / 32))
      (v % 32) = true
    rw [if_pos hmem, BitVec.getLsbD_not, decide_eq_true (by omega), BitVec.ofNat_eq_ofNat,
      BitVec.getLsbD_zero]
    rfl

theorem vlanPromiscEnable_effect (cfg : SriovCfg) {s : VlanState} (hoff : s.vlanPromisc = false) :
    PromiscEntered cfg.pf s (vlanPromiscEnable cfg.toPoolCfg s) := by
  -- or-ing the PF's mask in is listing the PF
  have hbody : (fun (t : VlanRegs) i => t.writeVlvfb (i * 2 + cfg.vmdqP 0 / 32)
      (t.vlvfb (i * 2 + cfg.vmdqP 0 / 32) ||| shl1 (cfg.vmdqP 0 % 32))) =
        fun t i => t.setPool i cfg.pf true :=
    funext fun t => funext fun i => writeVlvfb_putBit (t := t) i cfg.pf true
  unfold vlanPromiscEnable
  simp only [cfg.vmdq, Bool.true_eq_false, if_false, hoff, Bool.false_eq_true, hbody]
  exact .of_regs _ (foldl_setPool_pf cfg.pf_lt vlvfSlots rfl)

/-- Visited in the block at `off`. -/
def InBlock (off : ℕ) (x : U32) : Prop := off * 32 ≤ vlvfVid x ∧ vlvfVid x < off * 32 + 256

/-- The entry is in use, for one of the PF's VLANs. -/
def PfStays (s : VlanState) (x : U32) : Prop := x ≠ 0 ∧ s.active (vlvfVid x) = true

instance (off : ℕ) (x : U32) : Decidable (InBlock off x) := inferInstanceAs (Decidable (_ ∧ _))

instance (s : VlanState) (x : U32) : Decidable (PfStays s x) := inferInstanceAs (Decidable (_ ∧ _))

section

variable (cfg : SriovCfg) (s : VlanState)

theorem scrubVftaSlot_eq (off : ℕ) (b : ℕ → U32) (t : VlanRegs) (i : ℕ) :
    scrubVftaSlot cfg.toPoolCfg s off (b, t) i =
      if InBlock off (t.vlvf i) then
        (if t.vlvf i ≠ 0 then setBit b (vlvfVid (t.vlvf i) - off * 32) true else b,
          if PfStays s (t.vlvf i) then t else t.setPool i cfg.pf false)
      else (b, t) := by
  unfold scrubVftaSlot vftaBlockSize
  by_cases hin : InBlock off (t.vlvf i)
  · have hmod : vlvfVid (t.vlvf i) % 32 = (vlvfVid (t.vlvf i) - off * 32) % 32 := by
      obtain ⟨h1, -⟩ := hin
      omega
    have hout : ¬ (vlvfVid (t.vlvf i) < off * 32 ∨ off * 32 + 8 * 32 ≤ vlvfVid (t.vlvf i)) := by
      obtain ⟨h1, h2⟩ := hin
      omega
    have hpool : t.writeVlvfb (i * 2 + cfg.vmdqP 0 / 32)
        (~~~(shl1 (cfg.vmdqP 0 % 32)) &&& t.vlvfb (i * 2 + cfg.vmdqP 0 / 32)) =
          t.setPool i cfg.pf false := by
      rw [BitVec.and_comm]
      exact writeVlvfb_putBit i cfg.pf false
    rw [if_pos hin]
    simp only [hout, if_false, hmod, hpool]
    split
    case isTrue hst =>
      rw [if_pos (show PfStays s (t.vlvf i) from hst)]
      rfl
    case isFalse hst =>
      rw [if_neg (show ¬ PfStays s (t.vlvf i) from hst)]
      rfl
  · have hout : vlvfVid (t.vlvf i) < off * 32 ∨ off * 32 + 8 * 32 ≤ vlvfVid (t.vlvf i) := by
      unfold InBlock at hin
      omega
    rw [if_neg hin]
    simp only [hout, if_true]

theorem foldl_scrubVftaSlot (off : ℕ) (l : List ℕ) (b : ℕ → U32) (t : VlanRegs) :
    let st := l.foldl (scrubVftaSlot cfg.toPoolCfg s off) (b, t)
    st.2.vlvf = t.vlvf ∧ st.2.vtCtl = t.vtCtl ∧ st.2.vfta = t.vfta ∧
      (∀ j < 64, ∀ q < 64, st.2.poolBit j q =
        if j ∈ l ∧ q = cfg.pf ∧ InBlock off (t.vlvf j) ∧ ¬ PfStays s (t.vlvf j) then false
        else t.poolBit j q) ∧
      ∀ n < 256, bit st.1 n = true ↔
        bit b n = true ∨ ∃ j ∈ l, t.vlvf j ≠ 0 ∧ vlvfVid (t.vlvf j) = off * 32 + n := by
  induction l generalizing b t with
  | nil => simp
  | cons i l ih =>
    rw [List.foldl_cons, scrubVftaSlot_eq]
    by_cases hin : InBlock off (t.vlvf i)
    swap
    · -- another block's slot: nothing happens
      rw [if_neg hin]
      obtain ⟨hvlvf, hvt, hvfta, hpools, hblock⟩ := ih b t
      refine ⟨hvlvf, hvt, hvfta, fun j hj q hq => ?_, fun n hn => ?_⟩
      · rw [hpools j hj q hq]
        by_cases hji : j = i
        · subst hji
          rw [if_neg (fun h => hin h.2.2.1), if_neg (fun h => hin h.2.2.1)]
        · simp [hji]
      · rw [hblock n hn]
        have hnot : ¬ vlvfVid (t.vlvf i) = off * 32 + n := by
          unfold InBlock at hin
          omega
        simp [hnot]
    rw [if_pos hin]
    generalize hb' :
      (if t.vlvf i ≠ 0 then setBit b (vlvfVid (t.vlvf i) - off * 32) true else b) = b'
    generalize ht' : (if PfStays s (t.vlvf i) then t else t.setPool i cfg.pf false) = t'
    have hv' : t'.vlvf = t.vlvf := by
      rw [← ht']
      split <;> rfl
    have hvt' : t'.vtCtl = t.vtCtl := by
      rw [← ht']
      split <;> rfl
    have hf' : t'.vfta = t.vfta := by
      rw [← ht']
      split <;> rfl
    obtain ⟨hvlvf, hvt, hvfta, hpools, hblock⟩ := ih b' t'
    refine ⟨hvlvf.trans hv', hvt.trans hvt', hvfta.trans hf', fun j hj q hq => ?_, fun n hn => ?_⟩
    · rw [hpools j hj q hq, hv', ← ht']
      by_cases hst : PfStays s (t.vlvf i)
      · rw [if_pos hst]
        by_cases hji : j = i
        · subst hji
          rw [if_neg fun h => h.2.2.2 hst, if_neg fun h => h.2.2.2 hst]
        · simp [hji]
      · rw [if_neg hst, setPool_poolBit _ cfg.pf_lt hq]
        by_cases hji : j = i
        · subst hji
          by_cases hq' : q = cfg.pf
          · simp [hq', hin, hst]
          · simp [hq']
        · simp [hji]
    · rw [hblock n hn, hv', ← hb']
      obtain ⟨h1, h2⟩ := hin
      by_cases hz : t.vlvf i ≠ 0
      · rw [if_pos hz, bit_setBit (by decide)]
        by_cases hni : n = vlvfVid (t.vlvf i) - off * 32
        · have hvid : vlvfVid (t.vlvf i) = off * 32 + n := by omega
          rw [if_pos hni]
          exact ⟨fun _ => .inr ⟨i, List.mem_cons_self .., hz, hvid⟩, fun _ => .inl rfl⟩
        · have hvid : ¬ vlvfVid (t.vlvf i) = off * 32 + n := by omega
          simp [hni, hvid]
      · rw [if_neg hz]
        simp [not_not.mp hz]

theorem foldl_writeVfta_block (off : ℕ) (x : ℕ → U32) (l : List ℕ) (t : VlanRegs) :
    l.foldl (fun t i => t.writeVfta (off + i) (x i)) t =
      { t with vfta := fun k => if off ≤ k ∧ k - off ∈ l then x (k - off) else t.vfta k } := by
  induction l generalizing t with
  | nil => simp
  | cons i l ih =>
    rw [List.foldl_cons, ih]
    congr 1
    funext k
    split
    case isTrue hl =>
      rw [if_pos ⟨hl.1, List.mem_cons_of_mem _ hl.2⟩]
    case isFalse hl =>
      by_cases hk : k = off + i
      · subst hk
        simp [VlanRegs.writeVfta]
      · have hki : ¬ (off ≤ k ∧ k - off ∈ i :: l) := by
          rintro ⟨h1, h2⟩
          rcases List.mem_cons.mp h2 with h | h
          · omega
          · exact hl ⟨h1, h⟩
        rw [if_neg hki]
        exact Function.update_of_ne hk ..

theorem getLsbD_activeWord (s : VlanState) (n : ℕ) {j : ℕ} (hj : j < 32) :
    (((s.activeVlans (n * 32 / 64)) >>> (n * 32 % 64)).setWidth 32).getLsbD j =
      s.active (n * 32 + j) := by
  have hdiv : (n * 32 + j) / 64 = n * 32 / 64 := by omega
  have hmod : (n * 32 + j) % 64 = n * 32 % 64 + j := by omega
  rw [BitVec.getLsbD_setWidth, BitVec.getLsbD_ushiftRight, decide_eq_true hj, Bool.true_and,
    VlanState.active, bit, hdiv, hmod]

def InSlots (t : VlanRegs) (v : ℕ) : Prop :=
  ∃ j, 1 ≤ j ∧ j < 64 ∧ t.vlvf j ≠ 0 ∧ vlvfVid (t.vlvf j) = v

structure Scrubbed (pf lo hi : ℕ) (s s' : VlanState) : Prop where
  promisc : s'.vlanPromisc = s.vlanPromisc
  active : s'.activeVlans = s.activeVlans
  vlvf : s'.regs.vlvf = s.regs.vlvf
  vtCtl : s'.regs.vtCtl = s.regs.vtCtl
  pools : ∀ j < 64, ∀ q < 64, s'.regs.poolBit j q =
    if 1 ≤ j ∧ q = pf ∧ (lo ≤ vlvfVid (s.regs.vlvf j) ∧ vlvfVid (s.regs.vlvf j) < hi) ∧
      ¬ PfStays s (s.regs.vlvf j) then false else s.regs.poolBit j q
  vfta : ∀ v ≤ 4095, s'.regs.vftaBit v = true ↔
    if lo ≤ v ∧ v < hi then s.active v = true ∨ InSlots s.regs v else s.regs.vftaBit v = true

theorem Scrubbed.of_block {pf off : ℕ} {s : VlanState} {b : ℕ → U32} {t : VlanRegs}
    (h : t.vlvf = s.regs.vlvf ∧ t.vtCtl = s.regs.vtCtl ∧ t.vfta = s.regs.vfta ∧
      (∀ j < 64, ∀ q < 64, t.poolBit j q =
        if j ∈ vlvfSlots ∧ q = pf ∧ InBlock off (s.regs.vlvf j) ∧ ¬ PfStays s (s.regs.vlvf j) then
          false else s.regs.poolBit j q) ∧
      ∀ n < 256, bit b n = true ↔ bit (fun _ => (0 : U32)) n = true ∨
        ∃ j ∈ vlvfSlots, s.regs.vlvf j ≠ 0 ∧ vlvfVid (s.regs.vlvf j) = off * 32 + n) :
    Scrubbed pf (off * 32) (off * 32 + 256) s
      { s with
        regs := (List.range vftaBlockSize).reverse.foldl
          (fun t i => t.writeVfta (off + i)
            (b i ||| ((s.activeVlans ((off + i) * 32 / 64)) >>>
              ((off + i) * 32 % 64)).setWidth 32)) t } := by
  obtain ⟨hvlvf, hvt, hvfta, hpools, hblock⟩ := h
  rw [foldl_writeVfta_block]
  refine ⟨rfl, rfl, hvlvf, hvt, fun j hj q hq => ?_, fun v hv => ?_⟩
  · have hbit := hpools j hj q hq
    simp only [mem_vlvfSlots, hj, and_true] at hbit
    exact hbit
  · -- the word of `v` is in the block iff `v` is
    have hmem : (off ≤ v / 32 ∧ v / 32 - off ∈ (List.range vftaBlockSize).reverse) ↔
        off * 32 ≤ v ∧ v < off * 32 + 256 := by
      rw [List.mem_reverse, List.mem_range, vftaBlockSize]
      omega
    change BitVec.getLsbD (if off ≤ v / 32 ∧ v / 32 - off ∈ (List.range vftaBlockSize).reverse then
      _ else t.vfta (v / 32)) (v % 32) = true ↔ _
    by_cases hin : off * 32 ≤ v ∧ v < off * 32 + 256
    · rw [if_pos (hmem.mpr hin), if_pos hin, BitVec.getLsbD_or,
        getLsbD_activeWord s _ (by omega : v % 32 < 32)]
      have hword : (off + (v / 32 - off)) * 32 + v % 32 = v := by omega
      have hdiv : (v - off * 32) / 32 = v / 32 - off := by omega
      have hmod : (v - off * 32) % 32 = v % 32 := by omega
      have hrec := hblock (v - off * 32) (by omega)
      rw [bit, hdiv, hmod, show off * 32 + (v - off * 32) = v by omega] at hrec
      rw [hword, Bool.or_eq_true, hrec]
      simp [bit, InSlots, or_comm, and_assoc]
    · rw [if_neg fun h => hin (hmem.mp h), if_neg hin, hvfta]
      rfl

theorem scrubVfta_effect (off : ℕ) :
    Scrubbed cfg.pf (off * 32) (off * 32 + 256) s (scrubVfta cfg.toPoolCfg s off) :=
  .of_block (foldl_scrubVftaSlot cfg s off vlvfSlots (fun _ => 0) s.regs)

theorem Scrubbed.trans {pf lo mid hi : ℕ} {s s' s'' : VlanState} (hlo : lo ≤ mid) (hhi : mid ≤ hi)
    (h : Scrubbed pf lo mid s s') (h' : Scrubbed pf mid hi s' s'') : Scrubbed pf lo hi s s'' := by
  have hact : ∀ v, s'.active v = s.active v := fun v => by
    rw [VlanState.active, h.active]
    rfl
  have hstays : ∀ x, PfStays s' x ↔ PfStays s x := fun x => by
    rw [PfStays, PfStays, hact]
  have hslots : ∀ v, InSlots s'.regs v ↔ InSlots s.regs v := fun v => by
    rw [InSlots, InSlots, h.vlvf]
  refine ⟨h'.promisc.trans h.promisc, h'.active.trans h.active, h'.vlvf.trans h.vlvf,
    h'.vtCtl.trans h.vtCtl, fun j hj q hq => ?_, fun v hv => ?_⟩
  · rw [h'.pools j hj q hq, h.pools j hj q hq, h.vlvf]
    simp only [hstays]
    -- a slot is visited in at most one of the two ranges
    by_cases h1 : 1 ≤ j ∧ q = pf ∧ ¬ PfStays s (s.regs.vlvf j)
    · obtain ⟨hj1, hqpf, hst⟩ := h1
      simp only [hj1, hqpf, hst, true_and, not_false_eq_true, and_true]
      split_ifs <;> first | rfl | omega
    · rw [if_neg (fun hc => h1 ⟨hc.1, hc.2.1, hc.2.2.2⟩),
        if_neg (fun hc => h1 ⟨hc.1, hc.2.1, hc.2.2.2⟩),
        if_neg (fun hc => h1 ⟨hc.1, hc.2.1, hc.2.2.2⟩)]
  · rw [h'.vfta v hv]
    split
    case isTrue hin' =>
      rw [if_pos ⟨by omega, hin'.2⟩, hact, hslots]
    · rw [h.vfta v hv]
      split
      case isTrue hin =>
        rw [if_pos ⟨hin.1, by omega⟩]
      · rw [if_neg (by omega)]

theorem foldl_scrubVfta (n : ℕ) :
    Scrubbed cfg.pf 0 (n * 256) s
      ((List.range n).foldl (fun s k => scrubVfta cfg.toPoolCfg s (k * vftaBlockSize)) s) := by
  induction n with
  | zero =>
    refine ⟨rfl, rfl, rfl, rfl, fun j _ q _ => ?_, fun v _ => ?_⟩
    · rw [if_neg (by omega)]
      rfl
    · rw [if_neg (by omega)]
      rfl
  | succ n ih =>
    rw [List.range_succ, List.foldl_concat]
    have hblock := scrubVfta_effect cfg
      ((List.range n).foldl (fun s k => scrubVfta cfg.toPoolCfg s (k * vftaBlockSize)) s)
      (n * vftaBlockSize)
    rw [show n * vftaBlockSize * 32 = n * 256 by rw [vftaBlockSize]; omega,
      show n * 256 + 256 = (n + 1) * 256 by omega] at hblock
    exact ih.trans (by omega) (by omega) hblock

end

structure PromiscLeft (pf : ℕ) (s s' : VlanState) : Prop where
  promisc : s'.vlanPromisc = false
  active : s'.activeVlans = s.activeVlans
  vlvf : s'.regs.vlvf = s.regs.vlvf
  vtCtl : s'.regs.vtCtl = s.regs.vtCtl
  pools : ∀ j < 64, ∀ q < 64, s'.regs.poolBit j q =
    if 1 ≤ j ∧ q = pf ∧ ¬ PfStays s (s.regs.vlvf j) then false else s.regs.poolBit j q
  vfta : ∀ v ≤ 4095, s'.regs.vftaBit v = true ↔ s.active v = true ∨ InSlots s.regs v

theorem vlanPromiscDisable_effect (cfg : SriovCfg) {s : VlanState} (hon : s.vlanPromisc = true) :
    PromiscLeft cfg.pf s (vlanPromiscDisable cfg.toPoolCfg s) := by
  unfold vlanPromiscDisable
  simp only [cfg.vmdq, Bool.true_eq_false, if_false, hon]
  obtain ⟨hp, ha, hv, hvt, hpools, hvfta⟩ := foldl_scrubVfta cfg
    { s with vlnctrl := s.vlnctrl ||| vlnctrlVfe, vlanPromisc := false } (vftSize / vftaBlockSize)
  refine ⟨hp, ha, hv, hvt, fun j hj q hq => ?_, fun v hv => ?_⟩
  · rw [hpools j hj q hq]
    have hvid := vlvfVid_le (s.regs.vlvf j)
    have hrange : 0 ≤ vlvfVid (s.regs.vlvf j) ∧
        vlvfVid (s.regs.vlvf j) < vftSize / vftaBlockSize * 256 := by
      rw [vftSize, vftaBlockSize]
      omega
    simp only [hrange, true_and]
    rfl
  · rw [hvfta v hv, if_pos (by rw [vftSize, vftaBlockSize]; omega)]
    rfl

end Ixgbe
