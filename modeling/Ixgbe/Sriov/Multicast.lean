import Ixgbe.Sriov.Admin

/-! # The multicast table

`ixgbe_restore_vf_multicasts` enters the VFs' hashes, `ixgbe_update_mc_addr_list_generic` adds the
PF's and turns the filter on by a counter. -/

namespace Ixgbe

open WordArray

/-- The multicast part, with `n` VFs; `mc` is the PF's list. -/
def writeMcTable (mcFilterType n : ℕ) (vfinfo : ℕ → VfDataStorage) (vmolr : ℕ → U32) (m : McState)
    (mc : List MacAddr) : McState :=
  updateMcAddrListGeneric mcFilterType
    ((List.range n).foldl (restoreVf vfinfo) ({ m with mtaShadow := fun _ => 0 }, vmolr)).1 mc

theorem writeMcAddrList_mcast (cfg : AdapterCfg) (a : Adapter) (hrun : a.netdev.running = true) :
    (writeMcAddrList cfg a).2.mcast =
      writeMcTable cfg.mcFilterType cfg.numVfs a.vfinfo a.vmolr a.mcast a.netdev.mc := by
  rw [writeMcAddrList, if_neg (by rw [hrun]; decide)]
  rfl

def VfHash (n : ℕ) (vfinfo : ℕ → VfDataStorage) (h : ℕ) : Prop :=
  ∃ i < n, ∃ j < (vfinfo i).numVfMcHashes, ((vfinfo i).vfMcHashes j).toNat % 4096 = h

/-- The bits are those of the hashes and the PF's addresses, and a table that is not empty is in
use. -/
structure McAgreement (mcFilterType n : ℕ) (vfinfo : ℕ → VfDataStorage) (mc : List MacAddr)
    (m : McState) : Prop where
  mta : ∀ h < 4096, bit m.mta h = true ↔
    VfHash n vfinfo h ∨ ∃ addr ∈ mc, (mtaVector mcFilterType addr).toNat = h
  mfe : (∃ h < 4096, bit m.mta h = true) → m.mcstctrl &&& mcstctrlMfe ≠ 0

theorem vectorReg_eq (v : U32) : ((v >>> 5) &&& 0x7F).toNat = v.toNat % 4096 / 32 := by
  rw [BitVec.toNat_and, BitVec.toNat_ushiftRight, Nat.shiftRight_eq_div_pow]
  change v.toNat / 32 &&& 2 ^ 7 - 1 = _
  rw [Nat.and_two_pow_sub_one_eq_mod]
  omega

theorem vectorBit_eq (v : U32) : (v &&& 0x1F).toNat = v.toNat % 4096 % 32 := by
  change v.toNat &&& 2 ^ 5 - 1 = _
  rw [Nat.and_two_pow_sub_one_eq_mod]
  omega

theorem setMtaShadow_shadow (m : McState) (v : U32) :
    (setMtaShadow m v).mtaShadow = setBit m.mtaShadow (v.toNat % 4096) true := by
  rw [setBit, putBit, if_pos rfl, setMtaShadow]
  rw [vectorReg_eq, vectorBit_eq]

theorem foldl_setMtaShadow {α : Type*} (v : α → U32) (l : List α) (m : McState) :
    (l.foldl (fun m x => setMtaShadow m (v x)) m).mtaShadow =
      l.foldl (fun f x => setBit f ((v x).toNat % 4096) true) m.mtaShadow := by
  induction l generalizing m with
  | nil => rfl
  | cons x l ih => rw [List.foldl_cons, List.foldl_cons, ih, setMtaShadow_shadow]

theorem bit_restoreVf (vfinfo : ℕ → VfDataStorage) (s : McState × (ℕ → U32)) (i h : ℕ) :
    bit (restoreVf vfinfo s i).1.mtaShadow h = true ↔ bit s.1.mtaShadow h = true ∨
      ∃ j < (vfinfo i).numVfMcHashes, ((vfinfo i).vfMcHashes j).toNat % 4096 = h := by
  rw [restoreVf]
  rw [foldl_setMtaShadow fun j => ((vfinfo i).vfMcHashes j).setWidth 32,
    bit_foldl_setBit (by decide)]
  have hwidth : ∀ j, (((vfinfo i).vfMcHashes j).setWidth 32).toNat =
      ((vfinfo i).vfMcHashes j).toNat := fun j => BitVec.toNat_setWidth_of_le (by decide)
  simp only [List.mem_range, hwidth]

theorem bit_foldl_restoreVf (vfinfo : ℕ → VfDataStorage) (s : McState × (ℕ → U32)) (n h : ℕ) :
    bit ((List.range n).foldl (restoreVf vfinfo) s).1.mtaShadow h = true ↔
      bit s.1.mtaShadow h = true ∨ VfHash n vfinfo h := by
  induction n with
  | zero => simp [VfHash]
  | succ n ih =>
    rw [List.range_succ, List.foldl_append, List.foldl_cons, List.foldl_nil, bit_restoreVf, ih,
      or_assoc]
    refine or_congr_right ⟨?_, ?_⟩
    · rintro (⟨i, hi, hj⟩ | hj)
      · exact ⟨i, Nat.lt_succ_of_lt hi, hj⟩
      · exact ⟨n, Nat.lt_succ_self n, hj⟩
    · rintro ⟨i, hi, hj⟩
      rcases Nat.lt_succ_iff_lt_or_eq.mp hi with hlt | rfl
      · exact .inl ⟨i, hlt, hj⟩
      · exact .inr hj

section

variable (mcFilterType : ℕ)

theorem mtaVector_lt (addr : MacAddr) : (mtaVector mcFilterType addr).toNat < 4096 := by
  unfold mtaVector
  exact lt_of_le_of_lt Nat.and_le_right (by decide)

theorem foldl_setMta_inUse (mc : List MacAddr) (m : McState) :
    (mc.foldl (setMta mcFilterType) m).mtaInUse = m.mtaInUse + mc.length := by
  induction mc generalizing m with
  | nil => rfl
  | cons addr mc ih =>
    rw [List.foldl_cons, ih, List.length_cons]
    change m.mtaInUse + 1 + mc.length = _
    omega

theorem foldl_setMta_mcstctrl (mc : List MacAddr) (m : McState) :
    (mc.foldl (setMta mcFilterType) m).mcstctrl = m.mcstctrl := by
  induction mc generalizing m with
  | nil => rfl
  | cons addr mc ih => rw [List.foldl_cons, ih]; rfl

theorem bit_updateMcAddrListGeneric (m : McState) (mc : List MacAddr) {h : ℕ}
    (hh : h < 4096) : bit (updateMcAddrListGeneric mcFilterType m mc).mta h = true ↔
      bit m.mtaShadow h = true ∨ ∃ addr ∈ mc, (mtaVector mcFilterType addr).toNat = h := by
  have hmta : bit (updateMcAddrListGeneric mcFilterType m mc).mta h =
      bit (mc.foldl (setMta mcFilterType) { m with mtaInUse := 0 }).mtaShadow h := by
    have hword : h / 32 < mcftSize := by rw [mcftSize]; omega
    unfold updateMcAddrListGeneric
    dsimp only
    split_ifs
    · simp only [bit, if_pos hword]
    · simp only [bit, if_pos hword]
  have hfold := foldl_setMtaShadow (mtaVector mcFilterType) mc { m with mtaInUse := 0 }
  rw [hmta]
  change bit (mc.foldl (fun m x => setMtaShadow m (mtaVector mcFilterType x))
    { m with mtaInUse := 0 }).mtaShadow h = true ↔ _
  rw [hfold, bit_foldl_setBit (by decide)]
  simp only [Nat.mod_eq_of_lt (mtaVector_lt mcFilterType _)]

theorem updateMcAddrListGeneric_mcstctrl (m : McState) (mc : List MacAddr) :
    (updateMcAddrListGeneric mcFilterType m mc).mcstctrl =
      if mc = [] then m.mcstctrl else mcstctrlMfe ||| BitVec.ofNat 32 mcFilterType := by
  have huse := foldl_setMta_inUse mcFilterType mc { m with mtaInUse := 0 }
  have hctrl := foldl_setMta_mcstctrl mcFilterType mc { m with mtaInUse := 0 }
  unfold updateMcAddrListGeneric
  dsimp only at huse ⊢
  rw [huse]
  cases mc with
  | nil => rw [if_neg (by simp), if_pos rfl]; exact hctrl
  | cons addr mc => rw [if_pos (by simp), if_neg (by simp)]

end

theorem mfe_or_and_ne_zero (x : U32) : (mcstctrlMfe ||| x) &&& mcstctrlMfe ≠ 0 := by
  intro h
  have hbit := congrArg (fun y => BitVec.getLsbD y 2) h
  simp [mcstctrlMfe] at hbit

section

variable {mcFilterType n : ℕ} {vfinfo : ℕ → VfDataStorage} {vmolr : ℕ → U32} {m : McState}
  {mc : List MacAddr}

theorem bit_writeMcTable {h : ℕ} (hh : h < 4096) :
    bit (writeMcTable mcFilterType n vfinfo vmolr m mc).mta h = true ↔
      VfHash n vfinfo h ∨ ∃ addr ∈ mc, (mtaVector mcFilterType addr).toNat = h := by
  rw [writeMcTable, bit_updateMcAddrListGeneric mcFilterType _ mc hh, bit_foldl_restoreVf]
  simp [bit]

theorem foldl_restoreVf_mcstctrl (s : McState × (ℕ → U32)) :
    ((List.range n).foldl (restoreVf vfinfo) s).1.mcstctrl = s.1.mcstctrl := by
  have hone : ∀ (l : List ℕ) (v : ℕ → U32) (m : McState),
      (l.foldl (fun m j => setMtaShadow m (v j)) m).mcstctrl = m.mcstctrl := fun l v m => by
    induction l generalizing m with
    | nil => rfl
    | cons j l ih => rw [List.foldl_cons, ih]; rfl
  induction n with
  | zero => rfl
  | succ n ih =>
    rw [List.range_succ, List.foldl_append, List.foldl_cons, List.foldl_nil, restoreVf]
    exact (hone _ _ _).trans ih

theorem writeMcTable_mcstctrl :
    (writeMcTable mcFilterType n vfinfo vmolr m mc).mcstctrl =
      if mc = [] then m.mcstctrl else mcstctrlMfe ||| BitVec.ofNat 32 mcFilterType := by
  rw [writeMcTable, updateMcAddrListGeneric_mcstctrl, foldl_restoreVf_mcstctrl]

theorem exists_vfHash_iff :
    (∃ h < 4096, VfHash n vfinfo h) ↔ ∃ i < n, (vfinfo i).numVfMcHashes ≠ 0 := by
  constructor
  · rintro ⟨h, -, i, hi, j, hj, -⟩
    exact ⟨i, hi, Nat.ne_of_gt (Nat.zero_lt_of_lt hj)⟩
  · rintro ⟨i, hi, hne⟩
    exact ⟨_, Nat.mod_lt _ (by decide), i, hi, 0, Nat.pos_of_ne_zero hne, rfl⟩

end

/-- **The multicast table.** The bits are always right. The filter is on only if the PF has an
address, so the table is in use exactly if the PF's list is not empty or no VF has a hash. -/
theorem mcAgreement_iff (mcFilterType n : ℕ) (vfinfo : ℕ → VfDataStorage) (vmolr : ℕ → U32)
    (m : McState) (mc : List MacAddr) (hmfe : m.mcstctrl &&& mcstctrlMfe = 0) :
    McAgreement mcFilterType n vfinfo mc (writeMcTable mcFilterType n vfinfo vmolr m mc) ↔
      mc ≠ [] ∨ ∀ i < n, (vfinfo i).numVfMcHashes = 0 := by
  constructor
  · intro hagree
    by_contra hc
    rw [not_or, not_not] at hc
    obtain ⟨hmc, hhash⟩ := hc
    push Not at hhash
    obtain ⟨h, hh, hvf⟩ := exists_vfHash_iff.mpr hhash
    refine hagree.mfe ⟨h, hh, (bit_writeMcTable hh).mpr (.inl hvf)⟩ ?_
    rw [writeMcTable_mcstctrl, if_pos hmc, hmfe]
  · intro hok
    refine ⟨fun h hh => bit_writeMcTable hh, ?_⟩
    rintro ⟨h, hh, hbit⟩
    rw [bit_writeMcTable hh] at hbit
    have hmc : mc ≠ [] := by
      rcases hbit with hvf | ⟨addr, haddr, -⟩
      · refine hok.resolve_right fun hall => ?_
        obtain ⟨i, hi, hne⟩ := exists_vfHash_iff.mp ⟨h, hh, hvf⟩
        exact hne (hall i hi)
      · exact List.ne_nil_of_mem haddr
    rw [writeMcTable_mcstctrl, if_neg hmc]
    exact mfe_or_and_ne_zero _

def oneHashVf : VfDataStorage := { enableSriovVf with numVfMcHashes := 1, vfMcHashes := fun _ => 5 }

def clearMc : McState := ⟨fun _ => 0, fun _ => 0, 0, 0⟩

theorem mcAgreement_pf_and_vf :
    clearMc.mcstctrl &&& mcstctrlMfe = 0 ∧
      McAgreement 0 1 (fun _ => oneHashVf) [0x010000000000]
        (writeMcTable 0 1 (fun _ => oneHashVf) (fun _ => 0) clearMc [0x010000000000]) :=
  ⟨by decide, (mcAgreement_iff 0 1 (fun _ => oneHashVf) (fun _ => 0) clearMc
    [0x010000000000] (by decide)).mpr (.inl (by decide))⟩

/-- Bit 5 of the table is set, and the filter is off. -/
theorem mfe_clear_with_vf_hash :
    bit (writeMcTable 0 1 (fun _ => oneHashVf) (fun _ => 0) clearMc []).mta 5 = true ∧
      (writeMcTable 0 1 (fun _ => oneHashVf) (fun _ => 0) clearMc []).mcstctrl &&&
        mcstctrlMfe = 0 ∧
      ¬ McAgreement 0 1 (fun _ => oneHashVf) []
        (writeMcTable 0 1 (fun _ => oneHashVf) (fun _ => 0) clearMc []) := by
  have hbit : bit (writeMcTable 0 1 (fun _ => oneHashVf) (fun _ => 0) clearMc []).mta 5 = true := by
    decide
  have hoff : (writeMcTable 0 1 (fun _ => oneHashVf) (fun _ => 0) clearMc []).mcstctrl &&&
      mcstctrlMfe = 0 := by decide
  exact ⟨hbit, hoff, fun hagree => hagree.mfe ⟨5, by decide, hbit⟩ hoff⟩

end Ixgbe
