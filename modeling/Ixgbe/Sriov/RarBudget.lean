import Ixgbe.Sriov.MacEffects

/-! # The VFs cannot exhaust the filter table

`ixgbe_alloc_vf_macvlans` sizes the macvlan list for the table. A reset loses filters, so the
argument is about multisets. -/

namespace Ixgbe

open EventRun IndexedTable Multiset Option Function

def addrFilter (x : MacAddr × ℕ) : Option (MacAddr × ℕ) := if x.1 = 0 then none else some x

def vfAddrs (vfinfo : ℕ → VfDataStorage) : ℕ → MacAddr × ℕ :=
  fun i => ((vfinfo i).vfMacAddresses, i)

def VfMacvlans.filter (e : VfMacvlans) : Option (MacAddr × ℕ) :=
  if e.free = true ∨ e.vfMacvlan = 0 then none else e.vf.map (e.vfMacvlan, ·)

def bookedFilters (cfg : AdapterCfg) (vfinfo : ℕ → VfDataStorage) (mvs : ℕ → VfMacvlans) :
    Multiset (MacAddr × ℕ) :=
  contents cfg.numVfs addrFilter (vfAddrs vfinfo) +
    contents cfg.numVfMacvlans VfMacvlans.filter mvs

abbrev OfVf (cfg : AdapterCfg) (x : MacAddr × ℕ) : Prop := x.2 < cfg.numVfs

def pfShare (cfg : AdapterCfg) (t : MacFilter) : ℕ :=
  (t.filters cfg.toRarCfg).countP (¬ OfVf cfg ·)

def unsynced (uc : List HwAddr) : ℕ := uc.countP fun ha => ha.syncCnt = 0

/-- **The budget.** The VFs' filters are booked, and the PF has its default entry and at most
`IXGBE_MAX_PF_MACVLANS` others. -/
structure RarBudget (cfg : AdapterCfg) (a : Adapter) : Prop where
  vf : CoveredOn (OfVf cfg) (a.mac.filters cfg.toRarCfg) (bookedFilters cfg a.vfinfo a.mvs)
  pf : pfShare cfg a.mac + unsynced a.netdev.uc ≤ maxPfMacvlans + 1
  uc : a.netdev.uc.length ≤ maxPfMacvlans

section

variable {cfg : AdapterCfg} {a b : Adapter}

theorem RarBudget.congr (h : RarBudget cfg a)
    (hmac : b.mac.filters cfg.toRarCfg = a.mac.filters cfg.toRarCfg)
    (haddr : ∀ i < cfg.numVfs, (b.vfinfo i).vfMacAddresses = (a.vfinfo i).vfMacAddresses)
    (hmvs : b.mvs = a.mvs) (huc : b.netdev.uc = a.netdev.uc) : RarBudget cfg b := by
  have hbook : bookedFilters cfg b.vfinfo b.mvs = bookedFilters cfg a.vfinfo a.mvs := by
    rw [bookedFilters, bookedFilters, hmvs]
    congr 1
    exact contents_congr fun i hi => by rw [vfAddrs, vfAddrs, haddr i hi]
  exact ⟨by rw [hmac, hbook]; exact h.vf, by rw [pfShare, hmac, huc]; exact h.pf,
    by rw [huc]; exact h.uc⟩

theorem modifyVf_vfMacAddresses {f : VfDataStorage → VfDataStorage} (vf i : ℕ)
    (hf : ∀ v, (f v).vfMacAddresses = v.vfMacAddresses) :
    ((a.modifyVf vf f).vfinfo i).vfMacAddresses = (a.vfinfo i).vfMacAddresses := by
  by_cases hi : i = vf
  · rw [hi, Adapter.modifyVf_self, hf]
  · rw [Adapter.modifyVf_of_ne a hi]

theorem MacSteps.pfShare_eq {P : ℕ → Prop} {t t' : MacFilter} (h : MacSteps cfg.toRarCfg P t t')
    (hP : ∀ p, P p → p < cfg.numVfs) : pfShare cfg t' = pfShare cfg t := by
  rw [pfShare, pfShare, countP_eq_card_filter, countP_eq_card_filter]
  congr 1
  ext ⟨addr, w⟩
  rw [Multiset.count_filter, Multiset.count_filter]
  split_ifs with hw
  · rfl
  · exact h.count_filters (fun hp => hw (hP w hp)) addr

theorem vfAddrs_update (f : ℕ → VfDataStorage) (vf : ℕ) (v : VfDataStorage) :
    vfAddrs (update f vf v) =
      update (vfAddrs f) vf (v.vfMacAddresses, vf) := by
  funext i
  by_cases hi : i = vf
  · subst hi
    simp [vfAddrs]
  · simp [vfAddrs, hi]

theorem RarBudget.room {t : MacFilter} {rest : Multiset (MacAddr × ℕ)}
    (hvf : CoveredOn (OfVf cfg) (t.filters cfg.toRarCfg)
      (rest + contents cfg.numVfMacvlans VfMacvlans.filter a.mvs))
    (hrest : Multiset.card rest < cfg.numVfs) (hpf : pfShare cfg t ≤ maxPfMacvlans + 1) :
    Multiset.card (t.filters cfg.toRarCfg) < cfg.numRarEntries := by
  have hcov := hvf.countP_le
  have hmvs : Multiset.card (contents cfg.numVfMacvlans VfMacvlans.filter a.mvs) ≤
      cfg.numVfMacvlans := card_contents_le
  have hsize : cfg.numVfMacvlans = cfg.numRarEntries - (maxPfMacvlans + 1 + cfg.numVfs) := rfl
  have hpfs : maxPfMacvlans = 15 := rfl
  have hge := cfg.num_ge
  have hlt : cfg.numVfs < 64 := cfg.offset_lt
  rw [card_add] at hcov
  rw [card_eq_countP_add_countP (OfVf cfg)]
  rw [pfShare] at hpf
  omega

variable {booked : Multiset (MacAddr × ℕ)} {vf : ℕ}

theorem coveredOn_delMacFilter {t : MacFilter}
    (h : CoveredOn (OfVf cfg) (t.filters cfg.toRarCfg) booked) (addr : MacAddr) (pool : ℕ) :
    CoveredOn (OfVf cfg) ((delMacFilter cfg.toRarCfg t addr pool).2.filters cfg.toRarCfg)
      booked := by
  by_cases h0 : addr = 0
  · rw [h0, delMacFilter_zero]
    exact h
  · rw [delMacFilter_filters h0]
    exact h.erase_left _

theorem RarBudget.coveredOn_rest (h : RarBudget cfg a) {rest : Multiset (MacAddr × ℕ)}
    (hold : contents cfg.numVfs addrFilter (vfAddrs a.vfinfo) =
      (addrFilter (vfAddrs a.vfinfo vf)).elim 0 (fun b => {b}) + rest) :
    CoveredOn (OfVf cfg)
      ((delMacFilter cfg.toRarCfg a.mac (a.vfinfo vf).vfMacAddresses vf).2.filters cfg.toRarCfg)
      (rest + contents cfg.numVfMacvlans VfMacvlans.filter a.mvs) := by
  have hcov := h.vf
  rw [bookedFilters, hold] at hcov
  by_cases h0 : (a.vfinfo vf).vfMacAddresses = 0
  · have hkey : addrFilter (vfAddrs a.vfinfo vf) = none := if_pos h0
    rw [hkey, elim_none, zero_add] at hcov
    exact coveredOn_delMacFilter hcov _ _
  · have hkey : addrFilter (vfAddrs a.vfinfo vf) = some ((a.vfinfo vf).vfMacAddresses, vf) :=
      if_neg h0
    rw [hkey, elim_some, add_assoc, singleton_add] at hcov
    rw [delMacFilter_filters h0]
    exact hcov.erase

theorem RarBudget.setVfMac (h : RarBudget cfg a) (vf : Fin cfg.numVfs) {addr : MacAddr}
    (haddr : addr ≠ 0) :
    0 ≤ (setVfMac cfg a vf addr).1 ∧ RarBudget cfg (setVfMac cfg a vf addr).2 := by
  let t := (delMacFilter cfg.toRarCfg a.mac (a.vfinfo vf).vfMacAddresses vf).2
  obtain ⟨rest, hold, hnew⟩ := contents_update (k := addrFilter) (f := vfAddrs a.vfinfo) vf.isLt
    (addr, (vf : ℕ))
  rw [addrFilter, if_neg haddr] at hnew
  have hrest : Multiset.card rest < cfg.numVfs := by
    have hle : Multiset.card (contents cfg.numVfs addrFilter
        (update (vfAddrs a.vfinfo) vf (addr, (vf : ℕ)))) ≤ cfg.numVfs := card_contents_le
    rw [hnew] at hle
    simp at hle
    omega
  have hdel := h.coveredOn_rest hold
  have hpf : pfShare cfg t ≤ maxPfMacvlans + 1 := by
    have hsteps : MacSteps cfg.toRarCfg (· = (vf : ℕ)) a.mac t := .single (.del _ _ rfl)
    have hle := h.pf
    rw [hsteps.pfShare_eq fun p hp => hp ▸ vf.isLt]
    omega
  obtain ⟨hok, hF⟩ := addMacFilter_filters haddr (RarBudget.room hdel hrest hpf) vf
  have hinfo : vfAddrs (Ixgbe.setVfMac cfg a vf addr).2.vfinfo =
      update (vfAddrs a.vfinfo) vf (addr, (vf : ℕ)) := by
    have hok' : (Ixgbe.setVfMac cfg a vf addr).1 ≥ 0 := hok
    rw [setVfMac_vfinfo, vfAddrs_update]
    rw [if_pos hok']
  refine ⟨hok, ?_, ?_, h.uc⟩
  · rw [bookedFilters, hinfo, hnew, elim_some, add_assoc, singleton_add]
    change CoveredOn _ ((addMacFilter cfg.toRarCfg t addr vf).2.filters cfg.toRarCfg) _
    rw [hF]
    exact hdel.cons _
  · rw [(setVfMac_steps addr).pfShare_eq fun p hp => hp ▸ vf.isLt]
    exact h.pf

@[simp] theorem VfMacvlans.filter_released (e : VfMacvlans) : e.released.filter = none := rfl

theorem coveredOn_releaseMacvlan
    {s : (ℕ → VfMacvlans) × MacFilter} {i : ℕ} (hi : i < cfg.numVfMacvlans)
    (h : CoveredOn (OfVf cfg) (s.2.filters cfg.toRarCfg)
      (booked + contents cfg.numVfMacvlans VfMacvlans.filter s.1)) :
    CoveredOn (OfVf cfg) ((releaseMacvlan cfg vf s i).2.filters cfg.toRarCfg)
      (booked + contents cfg.numVfMacvlans VfMacvlans.filter (releaseMacvlan cfg vf s i).1) := by
  rw [releaseMacvlan]
  split
  case isTrue hvf =>
    obtain ⟨rest, hold, hnew⟩ := contents_update (k := VfMacvlans.filter) (f := s.1) hi
      (s.1 i).released
    rw [VfMacvlans.filter_released, elim_none, zero_add] at hnew
    change CoveredOn _ _ (booked + contents _ _ (update s.1 i (s.1 i).released))
    rw [hold] at h
    rw [hnew]
    by_cases h0 : (s.1 i).vfMacvlan = 0
    · have hkey : (s.1 i).filter = none := if_pos (.inr h0)
      rw [hkey, elim_none, zero_add] at h
      rw [h0, delMacFilter_zero]
      exact h
    · rw [delMacFilter_filters h0]
      by_cases hfree : (s.1 i).free = true
      · have hkey : (s.1 i).filter = none := if_pos (.inl hfree)
        rw [hkey, elim_none, zero_add] at h
        exact h.erase_left _
      · have hkey : (s.1 i).filter = some ((s.1 i).vfMacvlan, vf) := by
          rw [VfMacvlans.filter, if_neg (not_or.mpr ⟨hfree, h0⟩), hvf, map_some]
        rw [hkey, elim_some, add_left_comm, singleton_add] at h
        exact h.erase
  · exact h

theorem coveredOn_foldl_releaseMacvlan (l : List ℕ)
    (hl : ∀ i ∈ l, i < cfg.numVfMacvlans) (s : (ℕ → VfMacvlans) × MacFilter)
    (h : CoveredOn (OfVf cfg) (s.2.filters cfg.toRarCfg)
      (booked + contents cfg.numVfMacvlans VfMacvlans.filter s.1)) :
    CoveredOn (OfVf cfg) ((l.foldl (releaseMacvlan cfg vf) s).2.filters cfg.toRarCfg)
      (booked + contents cfg.numVfMacvlans VfMacvlans.filter
        (l.foldl (releaseMacvlan cfg vf) s).1) := by
  induction l generalizing s with
  | nil => exact h
  | cons i l ih =>
    exact ih (fun j hj => hl j (List.mem_cons_of_mem _ hj)) _
      (coveredOn_releaseMacvlan (hl i (List.mem_cons_self ..)) h)

theorem RarBudget.releaseMacvlans (h : RarBudget cfg a) (vf : Fin cfg.numVfs) :
    RarBudget cfg (releaseMacvlans cfg a vf) := by
  refine ⟨?_, ?_, h.uc⟩
  · exact coveredOn_foldl_releaseMacvlan (List.range cfg.numVfMacvlans)
      (fun i hi => List.mem_range.mp hi) (a.mvs, a.mac) h.vf
  · rw [releaseMacvlans_steps.pfShare_eq fun p hp => hp ▸ vf.isLt]
    exact h.pf

theorem RarBudget.setVfMacvlan (h : RarBudget cfg a) (vf : Fin cfg.numVfs) (index : ℕ)
    (addr : MacAddr) : RarBudget cfg (setVfMacvlan cfg a vf index addr).2 := by
  obtain ⟨b, hb, hstep⟩ := setVfMacvlan_step cfg a vf index addr
  have hrel : RarBudget cfg b := by
    rcases hb with rfl | rfl
    · exact h.releaseMacvlans vf
    · exact h
  generalize (Ixgbe.setVfMacvlan cfg a vf index addr).2 = a' at hstep ⊢
  cases hstep with
  | same => exact hrel
  | refused hneg => exact hrel.congr (addMacFilter_filters_of_neg hneg) (fun _ _ => rfl) rfl rfl
  | @entered i hi hfree hok =>
    obtain ⟨haddr, hF⟩ := addMacFilter_filters_of_nonneg hok
    have hsteps : MacSteps cfg.toRarCfg (· = (vf : ℕ)) b.mac
        (addMacFilter cfg.toRarCfg b.mac addr vf).2 := .single (.add _ _ rfl)
    have hpf := hsteps.pfShare_eq fun p hp => hp ▸ vf.isLt
    refine ⟨?_, by rw [hpf]; exact hrel.pf, hrel.uc⟩
    have hkey : VfMacvlans.filter ⟨some vf, false, true, addr⟩ = some (addr, (vf : ℕ)) :=
      if_neg (not_or.mpr ⟨Bool.false_ne_true, haddr⟩)
    have hold : (b.mvs i).filter = none := if_pos (.inl hfree)
    rw [hF, bookedFilters]
    rw [contents_fill hi hold hkey, add_cons]
    exact hrel.vf.cons _

theorem pfShare_delMacFilter (t : MacFilter) (addr : MacAddr) (pool : ℕ) :
    pfShare cfg (delMacFilter cfg.toRarCfg t addr pool).2 ≤ pfShare cfg t := by
  rw [pfShare, pfShare]
  by_cases h0 : addr = 0
  · rw [h0, delMacFilter_zero]
  · rw [delMacFilter_filters h0]
    exact countP_le_of_le _ (erase_le _ _)

section

variable (cfg : AdapterCfg) (t : MacFilter) (uc : List HwAddr)

theorem flushStaleUc_share :
    pfShare cfg (flushStaleUc cfg t uc).1 + unsynced (flushStaleUc cfg t uc).2 ≤
        pfShare cfg t + unsynced uc ∧
      (flushStaleUc cfg t uc).2.length ≤ uc.length := by
  induction uc generalizing t with
  | nil => exact ⟨le_rfl, le_rfl⟩
  | cons ha l ih =>
    rw [flushStaleUc]
    split
    · obtain ⟨h1, h2⟩ := ih (ucUnsync cfg t ha.addr)
      have hdel : pfShare cfg (ucUnsync cfg t ha.addr) ≤ pfShare cfg t := pfShare_delMacFilter t _ _
      simp only [unsynced, List.countP_cons, List.length_cons] at h1 ⊢
      omega
    · obtain ⟨h1, h2⟩ := ih t
      simp only [unsynced, List.countP_cons, List.length_cons] at h1 ⊢
      omega

theorem syncNewUc_share :
    pfShare cfg (syncNewUc cfg t uc).2.1 + unsynced (syncNewUc cfg t uc).2.2 ≤
        pfShare cfg t + unsynced uc ∧
      (syncNewUc cfg t uc).2.2.length = uc.length := by
  induction uc generalizing t with
  | nil => exact ⟨le_rfl, rfl⟩
  | cons ha l ih =>
    have hadd : pfShare cfg (ucSync cfg t ha.addr).2 ≤ pfShare cfg t + 1 := by
      change pfShare cfg (addMacFilter cfg.toRarCfg t ha.addr cfg.pf).2 ≤ _
      rw [pfShare, pfShare]
      rcases addMacFilter_cases cfg.toRarCfg t ha.addr cfg.pf with ⟨-, hF, -⟩ | ⟨-, -, -, hF⟩
      · rw [hF]
        omega
      · rw [hF, Multiset.countP_cons]
        split_ifs <;> omega
    rw [syncNewUc]
    split
    · obtain ⟨h1, h2⟩ := ih t
      simp only [unsynced, List.countP_cons, List.length_cons] at h1 ⊢
      omega
    case isFalse hsync =>
      by_cases hfail : (ucSync cfg t ha.addr).1 ≠ 0
      · rw [if_pos hfail]
        have hF : (ucSync cfg t ha.addr).2.filters cfg.toRarCfg = t.filters cfg.toRarCfg := by
          rcases addMacFilter_cases cfg.toRarCfg t ha.addr cfg.pf with ⟨-, hF, -⟩ | ⟨hok, -, -, -⟩
          · exact hF
          · exact absurd (min_eq_right hok) hfail
        exact ⟨by rw [pfShare, hF]; rfl, rfl⟩
      · rw [if_neg hfail]
        obtain ⟨h1, h2⟩ := ih (ucSync cfg t ha.addr).2
        rw [not_not] at hsync
        simp only [unsynced, List.countP_cons, List.length_cons, hsync] at h1 ⊢
        simp at h1 ⊢
        omega

theorem devUcSync_share :
    pfShare cfg (devUcSync cfg t uc).2.1 + unsynced (devUcSync cfg t uc).2.2 ≤
        pfShare cfg t + unsynced uc ∧
      (devUcSync cfg t uc).2.2.length ≤ uc.length := by
  obtain ⟨h1, h2⟩ := flushStaleUc_share cfg t uc
  obtain ⟨h3, h4⟩ := syncNewUc_share cfg (flushStaleUc cfg t uc).1 (flushStaleUc cfg t uc).2
  exact ⟨h3.trans h1, h4.trans_le h2⟩

end

theorem RarBudget.vfResetEvent (h : RarBudget cfg a) (vf : Fin cfg.numVfs) :
    RarBudget cfg (vfResetEvent cfg a vf) := by
  obtain ⟨hmvs, hmac⟩ := Prod.mk.inj (vfResetEvent_filters cfg a vf)
  obtain ⟨hshare, hlen⟩ := devUcSync_share cfg a.mac a.netdev.uc
  have hsync : CoveredOn (OfVf cfg)
      ((devUcSync cfg a.mac a.netdev.uc).2.1.filters cfg.toRarCfg)
      (bookedFilters cfg a.vfinfo a.mvs) := by
    rintro ⟨addr, w⟩ hw
    rw [(devUcSync_steps cfg a.mac a.netdev.uc).count_filters (cfg.vf_ne_pf ⟨w, hw⟩)]
    exact h.vf _ hw
  have hreset : CoveredOn (OfVf cfg) ((resetMac cfg a vf).filters cfg.toRarCfg)
      (bookedFilters cfg a.vfinfo a.mvs) := by
    refine coveredOn_delMacFilter ?_ _ _
    split_ifs
    · rwa [fullSyncMacTable_filters]
    · exact hsync
  have hsteps : MacSteps cfg.toRarCfg (· = (vf : ℕ)) (devUcSync cfg a.mac a.netdev.uc).2.1
      (Ixgbe.vfResetEvent cfg a vf).mac := by
    rw [hmac]
    refine .trans ?_ (foldl_releaseMacvlan_steps _ (a.mvs, resetMac cfg a vf))
    rw [resetMac]
    split_ifs
    · exact .tail (.single .sync) (.del _ _ rfl)
    · exact .single (.del _ _ rfl)
  have haddrs : vfAddrs (Ixgbe.vfResetEvent cfg a vf).vfinfo = vfAddrs a.vfinfo := by
    rw [vfResetEvent_vfinfo, vfAddrs_update]
    exact Function.update_eq_self _ _
  refine ⟨?_, ?_, ?_⟩
  · rw [bookedFilters, haddrs, hmvs, hmac]
    exact coveredOn_foldl_releaseMacvlan (List.range cfg.numVfMacvlans)
      (fun i hi => List.mem_range.mp hi) (a.mvs, resetMac cfg a vf) hreset
  · rw [hsteps.pfShare_eq fun p hp => hp ▸ vf.isLt, vfResetEvent_netdev]
    exact hshare.trans h.pf
  · rw [vfResetEvent_netdev]
    exact hlen.trans h.uc

theorem RarBudget.restoreVfMac (h : RarBudget cfg a) (vf : Fin cfg.numVfs) :
    RarBudget cfg (restoreVfMac cfg a vf) := by
  rw [Ixgbe.restoreVfMac]
  split_ifs with h0
  · exact (h.setVfMac vf h0).2
  · exact h

theorem RarBudget.handled (h : RarBudget cfg a) {vf : Fin cfg.numVfs} {msg : MsgBuf}
    (hb : Handled cfg a vf msg b) : RarBudget cfg b := by
  cases hb with
  | same => exact h
  | reset _ =>
    obtain ⟨r, m, hs⟩ := vfResetMsg_eq cfg a vf
    rw [hs]
    have hr : RarBudget cfg ((Ixgbe.restoreVfMac cfg (Ixgbe.vfResetEvent cfg a vf) vf).modifyVf vf
        fun v => { v with clearToSend := true }) :=
      ((h.vfResetEvent vf).restoreVfMac vf).congr rfl
        (fun i _ => modifyVf_vfMacAddresses vf i fun _ => rfl) rfl rfl
    exact hr.congr rfl (fun _ _ => rfl) rfl rfl
  | mac _ _ hvalid _ => exact (h.setVfMac vf (ne_zero_of_isValidEtherAddr hvalid)).2
  | multicast _ _ =>
    rw [setVfMulticasts]
    refine h.congr ?_ (fun i _ => ?_) (by rw [writeMcAddrList_mvs]; rfl)
      (by rw [writeMcAddrList_netdev]; rfl)
    case refine_2 =>
      rw [writeMcAddrList_vfinfo, Adapter.writeVmolr_vfinfo]
      exact modifyVf_vfMacAddresses vf i fun _ => rfl
    rw [writeMcAddrList_mac]
    split_ifs
    · exact fullSyncMacTable_filters
    · rfl
  | vlan _ _ _ _ => exact h.congr rfl (fun _ _ => rfl) rfl rfl
  | frameSize _ => exact h.congr rfl (fun _ _ => rfl) rfl rfl
  | macvlan r _ =>
    have hr : RarBudget cfg { a with regs := r } := h.congr rfl (fun _ _ => rfl) rfl rfl
    exact hr.setVfMacvlan vf _ _
  | api _ => exact h.congr rfl (fun i _ => modifyVf_vfMacAddresses vf i fun _ => rfl) rfl rfl
  | xcast _ _ => exact h.congr rfl (fun i _ => modifyVf_vfMacAddresses vf i fun _ => rfl) rfl rfl

theorem RarBudget.ndoSetVfMac (h : RarBudget cfg a) (vf : ℤ) (mac : MacAddr) :
    RarBudget cfg (ndoSetVfMac cfg a vf mac).2 := by
  rcases ndoSetVfMac_cases cfg a vf mac with hs | ⟨v, hv, -, ⟨hvalid, hs⟩ | hs⟩ <;> rw [hs]
  · exact h
  · have hset := (h.setVfMac ⟨v, hv⟩ (ne_zero_of_isValidEtherAddr hvalid)).2
    split_ifs
    · exact hset.congr rfl (fun i _ => modifyVf_vfMacAddresses v i fun _ => rfl) rfl rfl
    · exact hset
  · have hsteps : MacSteps cfg.toRarCfg (· = v) a.mac
        (delMacFilter cfg.toRarCfg a.mac (a.vfinfo v).vfMacAddresses v).2 := .single (.del _ _ rfl)
    have hpf := hsteps.pfShare_eq fun p hp => hp ▸ hv
    split_ifs
    · -- the address is forgotten with its filter
      obtain ⟨rest, hold, hnew⟩ := contents_update (k := addrFilter) (f := vfAddrs a.vfinfo) hv
        ((0 : MacAddr), v)
      refine ⟨?_, hpf.symm ▸ h.pf, h.uc⟩
      rw [bookedFilters, Adapter.modifyVf, vfAddrs_update]
      rw [hnew, addrFilter, if_pos rfl, elim_none, zero_add]
      exact h.coveredOn_rest hold
    · exact ⟨coveredOn_delMacFilter h.vf _ _, hpf.symm ▸ h.pf, h.uc⟩

theorem ixgbeReset_filters (hw : HwImage) :
    (ixgbeReset cfg a hw).mac.filters cfg.toRarCfg = {(hw.hwAddr, cfg.pf)} := by
  have hn : 0 < cfg.numRarEntries := Nat.lt_of_lt_of_le (by decide) cfg.num_ge
  have hdefault : ∀ t : MacFilter, (macSetDefaultFilter cfg.toRarCfg
      (flushSwMacTable cfg.toRarCfg t) hw.hwAddr cfg.pf).filters cfg.toRarCfg =
        {(hw.hwAddr, cfg.pf)} := by
    intro t
    have hflush : (flushSwMacTable cfg.toRarCfg t).filters cfg.toRarCfg = 0 :=
      flushSwMacTable_filters
    have hfree : ((flushSwMacTable cfg.toRarCfg t).entries 0).filter = none := by
      simp [flushSwMacTable, syncMacTable_entries, hn, MacEntry.filter_eq_none_iff]
    have hfill := contents_fill (k := MacEntry.filter)
      (x := ⟨hw.hwAddr, cfg.pf, true, false, true⟩) hn hfree rfl
    rw [MacFilter.filters] at hflush
    rw [hflush] at hfill
    exact hfill
  unfold ixgbeReset
  split_ifs
  · exact hdefault _
  · exact hdefault _

theorem RarBudget.ixgbeReset (h : RarBudget cfg a) (hw : HwImage) :
    RarBudget cfg (ixgbeReset cfg a hw) := by
  have huc : (Ixgbe.ixgbeReset cfg a hw).netdev.uc = devUcUnsync a.netdev.uc := rfl
  have hlen : (devUcUnsync a.netdev.uc).length ≤ maxPfMacvlans :=
    (List.length_filterMap_le _ _).trans h.uc
  have hpf : ¬ cfg.pf < cfg.numVfs := by
    rw [SriovCfg.pf, PoolCfg.vmdqP, SriovCfg.numVfs]
    omega
  refine ⟨fun x hx => ?_, ?_, by rw [huc]; exact hlen⟩
  · rw [ixgbeReset_filters, Multiset.count_singleton, if_neg]
    · exact Nat.zero_le _
    · rintro rfl
      exact hpf hx
  · have hcount : unsynced (devUcUnsync a.netdev.uc) ≤ maxPfMacvlans :=
      List.countP_le_length.trans hlen
    have hshare : pfShare cfg (Ixgbe.ixgbeReset cfg a hw).mac ≤ 1 := by
      rw [pfShare, ixgbeReset_filters]
      exact countP_le_card _ _
    rw [huc]
    omega

def NoPfUnicast {n : ℕ} : Event n → Prop
  | .rxMode _ => False
  | .ucSync _ => False
  | .ucUnsync _ => False
  | _ => True

theorem RarBudget.step (h : RarBudget cfg a) {e : Event cfg.numVfs} (he : NoPfUnicast e) :
    RarBudget cfg (step cfg a e) := by
  cases e with
  | msg vf read =>
    obtain ⟨b, m, hb, hs⟩ := rcvMsgFromVf_handled cfg a vf read
    rw [Ixgbe.step, hs]
    exact (h.handled hb).congr rfl (fun _ _ => rfl) rfl rfl
  | vfReset vf => exact h.vfResetEvent vf
  | addVid _ => exact h.congr rfl (fun _ _ => rfl) rfl rfl
  | killVid _ => exact h.congr rfl (fun _ _ => rfl) rfl rfl
  | rxMode _ => exact absurd he id
  | ucSync _ => exact absurd he id
  | ucUnsync _ => exact absurd he id
  | setVfTrust vf setting =>
    rw [Ixgbe.step]
    rcases ndoSetVfTrust_cases cfg a vf setting with hs | ⟨v, m, -, -, -, hs⟩
    · rwa [hs]
    · refine h.congr (by rw [hs]; rfl) (fun i _ => ?_) (by rw [hs]; rfl) (by rw [hs]; rfl)
      obtain ⟨_, _, hi⟩ := ndoSetVfTrust_vfinfo cfg a vf setting i
      rw [hi]
  | setVfMac vf mac => exact h.ndoSetVfMac vf mac
  | setVfVlan vf vlan qos proto =>
    obtain ⟨hmac, hmvs, hdev⟩ := ndoSetVfVlan_frame cfg a vf vlan qos proto
    refine h.congr (by rw [Ixgbe.step, hmac]) (fun i _ => ?_) hmvs (by rw [Ixgbe.step, hdev])
    obtain ⟨_, _, hi⟩ := ndoSetVfVlan_vfinfo cfg a vf vlan qos proto i
    rw [Ixgbe.step, hi]
  | reset hw => exact h.ixgbeReset hw

end

def vfEntries (cfg : AdapterCfg) (t : MacFilter) : ℕ :=
  (List.range cfg.numRarEntries).countP fun i =>
    (t.entries i).inUse && decide ((t.entries i).pool < cfg.numVfs)

def usedMacvlans (cfg : AdapterCfg) (mvs : ℕ → VfMacvlans) : ℕ :=
  (List.range cfg.numVfMacvlans).countP fun i => !(mvs i).free

/-- The VFs' entries are within what is booked, and `ixgbe_set_vf_mac` finds room, also inside a
reset request. -/
def RarRoom (cfg : AdapterCfg) (a : Adapter) : Prop :=
  vfEntries cfg a.mac ≤ cfg.numVfs + usedMacvlans cfg a.mvs ∧
    ∀ (vf : Fin cfg.numVfs) (addr : MacAddr), addr ≠ 0 →
      0 ≤ (setVfMac cfg a vf addr).1 ∧ 0 ≤ (setVfMac cfg (vfResetEvent cfg a vf) vf addr).1

section

variable {cfg : AdapterCfg} {a : Adapter}

theorem RarBudget.room_for_vfs (h : RarBudget cfg a) : RarRoom cfg a := by
  refine ⟨?_, fun vf addr haddr =>
    ⟨(h.setVfMac vf haddr).1, ((h.vfResetEvent vf).setVfMac vf haddr).1⟩⟩
  have hcount : vfEntries cfg a.mac = (a.mac.filters cfg.toRarCfg).countP (OfVf cfg) := by
    have hkeys := countP_contents (n := cfg.numRarEntries) (k := MacEntry.filter)
      (f := a.mac.entries) fun x : MacAddr × ℕ => decide (x.2 < cfg.numVfs)
    simp only [decide_eq_true_eq] at hkeys
    rw [vfEntries, MacFilter.filters, hkeys]
    refine List.countP_congr fun i _ => ?_
    cases huse : (a.mac.entries i).inUse <;> simp [MacEntry.filter, huse]
  have haddrs : Multiset.card (contents cfg.numVfs addrFilter (vfAddrs a.vfinfo)) ≤ cfg.numVfs :=
    card_contents_le
  have hmvs : Multiset.card (contents cfg.numVfMacvlans VfMacvlans.filter a.mvs) ≤
      usedMacvlans cfg a.mvs := by
    refine card_contents_le_countP (p := fun e : VfMacvlans => !e.free) fun i _ hfree => ?_
    exact if_pos (.inl (by simpa using hfree))
  have hle := h.vf.countP_le
  rw [bookedFilters, card_add] at hle
  omega

theorem rarBudget_start
    (hown : ∀ i < cfg.numRarEntries, (a.mac.entries i).inUse = true →
      (a.mac.entries i).pool = cfg.pf)
    (hpf : (List.range cfg.numRarEntries).countP (fun i => (a.mac.entries i).inUse) +
      unsynced a.netdev.uc ≤ maxPfMacvlans + 1)
    (huc : a.netdev.uc.length ≤ maxPfMacvlans) : RarBudget cfg a := by
  refine ⟨fun x hx => ?_, ?_, huc⟩
  · have hno : x ∉ a.mac.filters cfg.toRarCfg := fun hmem => by
      obtain ⟨i, hi, huse, -, hpool⟩ := mem_filters.mp hmem
      exact cfg.vf_ne_pf ⟨x.2, hx⟩ (hpool.symm.trans (hown i hi huse))
    rw [count_eq_zero_of_notMem hno]
    exact Nat.zero_le _
  · have hcard : Multiset.card (a.mac.filters cfg.toRarCfg) ≤
        (List.range cfg.numRarEntries).countP fun i => (a.mac.entries i).inUse :=
      card_contents_le_countP fun i _ huse => MacEntry.filter_eq_none_iff.mpr huse
    have hshare : pfShare cfg a.mac ≤ Multiset.card (a.mac.filters cfg.toRarCfg) :=
      countP_le_card _ _
    omega

end

/-- **The VFs cannot exhaust the table**: their entries stay within one per VF and one per used
entry of the macvlan list, and `ixgbe_set_vf_mac` never lacks room. -/
theorem rar_budget (cfg : AdapterCfg) (a : Adapter)
    (hown : ∀ i < cfg.numRarEntries, (a.mac.entries i).inUse = true →
      (a.mac.entries i).pool = cfg.pf)
    (hpf : (List.range cfg.numRarEntries).countP (fun i => (a.mac.entries i).inUse) +
      unsynced a.netdev.uc ≤ maxPfMacvlans + 1)
    (huc : a.netdev.uc.length ≤ maxPfMacvlans) (es : List (Event cfg.numVfs))
    (hes : ∀ e ∈ es, NoPfUnicast e) :
    RarRoom cfg a ∧ After (step cfg) (RarRoom cfg) a es := by
  have hstart := rarBudget_start hown hpf huc
  have hstep : ∀ s e, RarBudget cfg s → NoPfUnicast e → RarBudget cfg (step cfg s e) :=
    fun s e hs he => hs.step he
  exact ⟨hstart.room_for_vfs, after_of_inv hstep (fun s hs => hs.room_for_vfs) hstart
    (along_of_forall a es hes)⟩

theorem rar_budget_one_vf :
    let cfg := oneVfAdapterCfg
    After (step cfg) (RarRoom cfg) (enabledAdapter cfg 0x0250)
      [.setVfMac 0 0x0252, .reset ⟨vtOnlyRegs, 0, ⟨fun _ => 0, fun _ => 0, fun _ => 0, fun _ => 0⟩,
        fun _ => 0, fun _ => 0, 0, (enabledAdapter cfg 0x0250).regs, 0x0250⟩,
        .msg oneVf (0, fun _ => vfReset)] := by
  intro cfg
  refine (rar_budget cfg (enabledAdapter cfg 0x0250) (fun i _ huse => ?_) (by decide +kernel)
    (by decide) _ (by simp [NoPfUnicast])).2
  by_cases hi : i = 0
  · rw [hi]
    rfl
  · simp [enabledAdapter, macSetDefaultFilter, hi] at huse

end Ixgbe
