import Ixgbe.Sriov.MacEffects
import Ixgbe.Sriov.Trust

/-! # The address the administrator gave to a VF

The filter goes when the VF is reset and comes back on request; without room `ixgbe_set_vf_mac`
forgets the address. -/

namespace Ixgbe

open EventRun IndexedTable Function Multiset Adapter

def MacFilter.Full (cfg : RarCfg) (t : MacFilter) : Prop :=
  Multiset.card (t.filters cfg) = cfg.numRarEntries

section

variable {cfg : AdapterCfg} {a : Adapter} {vf : ℕ}

theorem filters_card_le {cfg : RarCfg} {t : MacFilter} :
    Multiset.card (t.filters cfg) ≤ cfg.numRarEntries := card_contents_le

theorem setVfMac_fails_iff {addr : MacAddr} (h : addr ≠ 0)
    (hold : (a.vfinfo vf).vfMacAddresses = addr) : (setVfMac cfg a vf addr).1 < 0 ↔
      (addr, vf) ∉ a.mac.filters cfg.toRarCfg ∧ a.mac.Full cfg.toRarCfg := by
  change (addMacFilter cfg.toRarCfg
    (delMacFilter cfg.toRarCfg a.mac (a.vfinfo vf).vfMacAddresses vf).2 addr vf).1 < 0 ↔ _
  rw [hold, addMacFilter_neg_iff h, delMacFilter_filters h, card_erase_eq_iff filters_card_le]
  rfl

section

variable (cfg : AdapterCfg) (vf : ℕ) (s : (ℕ → VfMacvlans) × MacFilter)

theorem releaseMacvlan_filters
    (i : ℕ) :
    (releaseMacvlan cfg vf s i).2.filters cfg.toRarCfg ≤ s.2.filters cfg.toRarCfg ∧
      ((releaseMacvlan cfg vf s i).2.filters cfg.toRarCfg = s.2.filters cfg.toRarCfg ↔
        ((s.1 i).vf = some vf → (s.1 i).vfMacvlan ≠ 0 →
          ((s.1 i).vfMacvlan, vf) ∉ s.2.filters cfg.toRarCfg)) := by
  rw [releaseMacvlan]
  by_cases hvf : (s.1 i).vf = some vf
  · rw [if_pos hvf]
    by_cases h0 : (s.1 i).vfMacvlan = 0
    · rw [h0, delMacFilter_zero]
      exact ⟨le_rfl, iff_of_true rfl fun _ hc => absurd rfl hc⟩
    · rw [delMacFilter_filters h0]
      refine ⟨erase_le _ _, fun heq _ _ hmem => ?_, fun hno => ?_⟩
      · exact absurd heq (erase_lt.mpr hmem).ne
      · exact erase_of_notMem (hno hvf h0)
  · rw [if_neg hvf]
    exact ⟨le_rfl, iff_of_true rfl fun hc => absurd hc hvf⟩

theorem releaseMacvlan_mvs
    (i j : ℕ) :
    (releaseMacvlan cfg vf s i).1 j = s.1 j ∨
      j = i ∧ ((releaseMacvlan cfg vf s i).1 j).vf = none := by
  rw [releaseMacvlan]
  split_ifs
  · by_cases hj : j = i
    · subst hj
      exact .inr ⟨rfl, by simp⟩
    · exact .inl (update_of_ne hj _ _)
  · exact .inl rfl

end

theorem foldl_releaseMacvlan_filters (cfg : AdapterCfg) (vf : ℕ) (l : List ℕ)
    (s : (ℕ → VfMacvlans) × MacFilter) :
    (l.foldl (releaseMacvlan cfg vf) s).2.filters cfg.toRarCfg ≤ s.2.filters cfg.toRarCfg ∧
      ((l.foldl (releaseMacvlan cfg vf) s).2.filters cfg.toRarCfg = s.2.filters cfg.toRarCfg ↔
        ∀ i ∈ l, (s.1 i).vf = some vf → (s.1 i).vfMacvlan ≠ 0 →
          ((s.1 i).vfMacvlan, vf) ∉ s.2.filters cfg.toRarCfg) := by
  induction l generalizing s with
  | nil => simp
  | cons i l ih =>
    obtain ⟨hle, heq⟩ := releaseMacvlan_filters cfg vf s i
    obtain ⟨hle', heq'⟩ := ih (releaseMacvlan cfg vf s i)
    refine ⟨hle'.trans hle, fun hall j hj => ?_, fun hno => ?_⟩
    · -- nothing was taken out at any entry
      have h1 := le_antisymm hle (hall ▸ hle')
      rcases List.mem_cons.mp hj with rfl | hj
      · exact heq.mp h1
      · have hrest := heq'.mp (hall.trans h1.symm) j hj
        rw [h1] at hrest
        rcases releaseMacvlan_mvs cfg vf s i j with hsame | ⟨rfl, -⟩
        · rwa [hsame] at hrest
        · exact heq.mp h1
    · have h1 := heq.mpr (hno i (List.mem_cons_self ..))
      refine (heq'.mpr fun j hj hown => ?_).trans h1
      rw [h1]
      rcases releaseMacvlan_mvs cfg vf s i j with hsame | ⟨-, hnone⟩
      · rw [hsame] at hown ⊢
        exact hno j (List.mem_cons_of_mem _ hj) hown
      · exact absurd (hnone.symm.trans hown) (by simp)

theorem vfResetEvent_no_room_iff {M : MacAddr} (hM : M ≠ 0) (hvf : vf < cfg.numVfs)
    (hmac : (a.vfinfo vf).vfMacAddresses = M) :
    ((M, vf) ∉ (vfResetEvent cfg a vf).mac.filters cfg.toRarCfg ∧
        (vfResetEvent cfg a vf).mac.Full cfg.toRarCfg) ↔
      (devUcSync cfg a.mac a.netdev.uc).2.1.Full cfg.toRarCfg ∧
        (M, vf) ∉ a.mac.filters cfg.toRarCfg ∧
        ∀ i < cfg.numVfMacvlans, (a.mvs i).vf = some vf → (a.mvs i).vfMacvlan ≠ 0 →
          ((a.mvs i).vfMacvlan, vf) ∉ a.mac.filters cfg.toRarCfg := by
  have hpf : ¬ vf = cfg.pf := cfg.vf_ne_pf ⟨vf, hvf⟩
  have hmem := (devUcSync_steps cfg a.mac a.netdev.uc).mem_filters_iff hpf
  have hreset : (resetMac cfg a vf).filters cfg.toRarCfg =
      ((devUcSync cfg a.mac a.netdev.uc).2.1.filters cfg.toRarCfg).erase (M, vf) := by
    rw [resetMac, hmac, delMacFilter_filters hM]
    split_ifs
    · rw [fullSyncMacTable_filters]
    · rfl
  obtain ⟨-, hfold⟩ := Prod.mk.inj (vfResetEvent_filters cfg a vf)
  obtain ⟨hle, heq⟩ := foldl_releaseMacvlan_filters cfg vf (List.range cfg.numVfMacvlans)
    (a.mvs, resetMac cfg a vf)
  rw [← hfold] at hle heq
  simp only [List.mem_range] at heq
  constructor
  · rintro ⟨-, hfull⟩
    -- the table is full at the end, so nothing was taken out on the way
    have hF : (vfResetEvent cfg a vf).mac.filters cfg.toRarCfg =
        (resetMac cfg a vf).filters cfg.toRarCfg :=
      eq_of_le_of_card_le hle (filters_card_le.trans_eq hfull.symm)
    have hcard : Multiset.card ((resetMac cfg a vf).filters cfg.toRarCfg) = cfg.numRarEntries := by
      rw [← hF]
      exact hfull
    rw [hreset, card_erase_eq_iff filters_card_le] at hcard
    refine ⟨hcard.2, fun hc => hcard.1 ((hmem M).mpr hc), fun i hi hown h0 hc => ?_⟩
    have hno := heq.mp hF i hi hown h0
    rw [hreset, erase_of_notMem hcard.1] at hno
    exact hno ((hmem _).mpr hc)
  · rintro ⟨hfull, hM', hmvs⟩
    have hM1 := fun hc => hM' ((hmem M).mp hc)
    rw [erase_of_notMem hM1] at hreset
    have hF := heq.mpr fun i hi hown h0 => by
      rw [hreset]
      exact fun hc => hmvs i hi hown h0 ((hmem _).mp hc)
    rw [MacFilter.Full, hF, hreset]
    exact ⟨hM1, hfull⟩

theorem vfResetMsg_vfMacAddresses {M : MacAddr} (hM : M ≠ 0)
    (hmac : (a.vfinfo vf).vfMacAddresses = M) :
    ((vfResetMsg cfg a vf).vfinfo vf).vfMacAddresses =
      if (setVfMac cfg (vfResetEvent cfg a vf) vf M).1 ≥ 0 then M else 0 := by
  obtain ⟨r, m, h⟩ := vfResetMsg_eq cfg a vf
  have hold : ((vfResetEvent cfg a vf).vfinfo vf).vfMacAddresses = M := by
    rw [vfResetEvent_vfinfo, update_self]
    exact hmac
  change (((restoreVfMac cfg (vfResetEvent cfg a vf) vf).modifyVf vf
    fun v => { v with clearToSend := true }).vfinfo vf).vfMacAddresses = _
  rw [modifyVf_self, restoreVfMac, hold]
  rw [if_pos hM, setVfMac_vfinfo, update_self]

end

/-- And does not make it trusted. -/
def NoMacAdmin {n : ℕ} (vf : ℕ) : Event n → Prop
  | .setVfMac w _ => w ≠ vf
  | .setVfTrust w setting => w = vf → setting = false
  | _ => True

/-- The VF is reset while its filter is gone and the table full, or sets `M` itself then. -/
def LosesMac {cfg : AdapterCfg} (vf : ℕ) (M : MacAddr) (s : Adapter) : Event cfg.numVfs → Prop
  | .msg w read => (w : ℕ) = vf ∧ read.1 = 0 ∧ (M, vf) ∉ s.mac.filters cfg.toRarCfg ∧
      (read.2 0 = vfReset ∧ (devUcSync cfg s.mac s.netdev.uc).2.1.Full cfg.toRarCfg ∧
          (∀ i < cfg.numVfMacvlans, (s.mvs i).vf = some vf → (s.mvs i).vfMacvlan ≠ 0 →
            ((s.mvs i).vfMacvlan, vf) ∉ s.mac.filters cfg.toRarCfg) ∨
        read.2 0 &&& (msgtypeSuccess ||| msgtypeFailure) = 0 ∧
          (s.vfinfo vf).clearToSend = true ∧ VfMsg.ofWord (read.2 0) = some .setMacAddr ∧
          msgMac read.2 = M ∧ s.mac.Full cfg.toRarCfg)
  | _ => False

structure AdminMac (vf : ℕ) (M : MacAddr) (a : Adapter) : Prop where
  mac : (a.vfinfo vf).vfMacAddresses = M
  pfSetMac : (a.vfinfo vf).pfSetMac = true
  untrusted : (a.vfinfo vf).trusted = false

section

variable {cfg : AdapterCfg} {a : Adapter} {vf : Fin cfg.numVfs} {M : MacAddr}

theorem Handled.vfMacAddresses {b : Adapter} {msg : MsgBuf} {w : ℕ} (h : Handled cfg a w msg b)
    (hset : (a.vfinfo w).pfSetMac = true) (htr : (a.vfinfo w).trusted = false) :
    (b.vfinfo w).vfMacAddresses = (a.vfinfo w).vfMacAddresses ∨
      msg 0 = vfReset ∧ b = vfResetMsg cfg a w ∨
      (a.vfinfo w).clearToSend = true ∧ VfMsg.ofWord (msg 0) = some .setMacAddr ∧
        msgMac msg = (a.vfinfo w).vfMacAddresses ∧
        b = (setVfMac cfg a w (a.vfinfo w).vfMacAddresses).2 := by
  cases h with
  | same => exact .inl rfl
  | reset hmsg => exact .inr (.inl ⟨hmsg, rfl⟩)
  | mac hcts hmsg _ hadmin =>
    rw [hadmin hset htr]
    exact .inr (.inr ⟨hcts, hmsg, rfl, rfl⟩)
  | multicast _ _ =>
    refine .inl ?_
    rw [setVfMulticasts]
    rw [writeMcAddrList_vfinfo, writeVmolr_vfinfo, modifyVf_self]
  | vlan _ _ _ _ => exact .inl rfl
  | frameSize _ => exact .inl rfl
  | macvlan _ _ => exact .inl (by rw [setVfMacvlan_vfinfo])
  | api _ => exact .inl (by rw [modifyVf_self])
  | xcast _ _ => exact .inl (by rw [modifyVf_self, writeVmolr_vfinfo])

theorem LosesMac.vfMacAddresses {e : Event cfg.numVfs} (hl : LosesMac (vf : ℕ) M a e)
    (h : AdminMac vf M a) (hM : isValidEtherAddr M = true) :
    ((step cfg a e).vfinfo vf).vfMacAddresses = 0 := by
  have hM0 : M ≠ 0 := ne_zero_of_isValidEtherAddr hM
  cases e with
  | msg w read =>
    obtain ⟨ret, msg⟩ := read
    obtain ⟨hw, rfl, hgone, ⟨hmsg, hfull, hmvs⟩ | ⟨htype, hcts, hmsg, hmac, hfull⟩⟩ := hl
    · rw [step, hw, rcvMsgFromVf_reset cfg a vf hmsg, vfResetMsg_vfMacAddresses hM0 h.mac]
      have hold : ((vfResetEvent cfg a vf).vfinfo vf).vfMacAddresses = M := by
        rw [vfResetEvent_vfinfo, update_self]
        exact h.mac
      refine if_neg (not_le.mpr ((setVfMac_fails_iff hM0 hold).mpr ?_))
      exact (vfResetEvent_no_room_iff hM0 vf.isLt h.mac).mpr ⟨hfull, hgone, hmvs⟩
    · obtain ⟨mb, hstep⟩ := rcvMsgFromVf_accepted htype hcts hmsg (by decide)
      rw [step, hw, hstep, handleMsg, hmsg]
      rw [setVfMacAddr_self hM hmac h.mac, setVfMac_vfinfo, update_self]
      exact if_neg (not_le.mpr ((setVfMac_fails_iff hM0 h.mac).mpr ⟨hgone, hfull⟩))
  | _ => exact absurd hl id

theorem AdminMac.step (h : AdminMac vf M a) (hM : isValidEtherAddr M = true) {e : Event cfg.numVfs}
    (he : NoMacAdmin vf e) (hl : ¬ LosesMac (vf : ℕ) M a e) : AdminMac vf M (step cfg a e) := by
  have hM0 : M ≠ 0 := ne_zero_of_isValidEtherAddr hM
  have hsame : ∀ b : Adapter, b.vfinfo vf = a.vfinfo vf → AdminMac vf M b := fun b hb =>
    ⟨by rw [hb, h.mac], by rw [hb, h.pfSetMac], by rw [hb, h.untrusted]⟩
  cases e with
  | msg w read =>
    obtain ⟨ret, msg⟩ := read
    by_cases hign : ret ≠ 0 ∨ msg 0 &&& (msgtypeSuccess ||| msgtypeFailure) ≠ 0
    · exact hsame _ (by rw [Ixgbe.step, rcvMsgFromVf_ignored cfg a w hign])
    push Not at hign
    obtain ⟨rfl, htype⟩ := hign
    obtain ⟨b, m, hb, hstep⟩ := rcvMsgFromVf_handled cfg a w (0, msg)
    by_cases hw : (w : ℕ) = vf
    · have hadmin := hb.modifiesVf.adminSame vf
      rw [Ixgbe.step, hstep]
      rw [hw] at hb
      refine ⟨?_, hadmin.pfSetMac.trans h.pfSetMac, hadmin.trusted.trans h.untrusted⟩
      rcases hb.vfMacAddresses h.pfSetMac h.untrusted with
        hmac | ⟨hmsg, rfl⟩ | ⟨hcts, hmsg, hmac, rfl⟩
      · exact hmac.trans h.mac
      · -- the address is put back: the step is none of `LosesMac`
        have hold : ((vfResetEvent cfg a vf).vfinfo vf).vfMacAddresses = M := by
          rw [vfResetEvent_vfinfo, update_self]
          exact h.mac
        rw [vfResetMsg_vfMacAddresses hM0 h.mac]
        refine if_pos (not_lt.mp fun hfail => hl ?_)
        obtain ⟨hfull, hgone, hmvs⟩ := (vfResetEvent_no_room_iff hM0 vf.isLt h.mac).mp
          ((setVfMac_fails_iff hM0 hold).mp hfail)
        exact ⟨hw, rfl, hgone, .inl ⟨hmsg, hfull, hmvs⟩⟩
      · rw [h.mac] at hmac ⊢
        rw [setVfMac_vfinfo, update_self]
        refine if_pos (not_lt.mp fun hfail => hl ?_)
        obtain ⟨hgone, hfull⟩ := (setVfMac_fails_iff hM0 h.mac).mp hfail
        exact ⟨hw, rfl, hgone, .inr ⟨htype, hcts, hmsg, hmac, hfull⟩⟩
    · refine hsame _ ?_
      rw [Ixgbe.step, hstep]
      exact hb.modifiesVf.other (Ne.symm hw)
  | vfReset w =>
    have hadmin := (vfResetEvent_modifiesVf cfg a w).adminSame vf
    refine ⟨?_, hadmin.pfSetMac.trans h.pfSetMac, hadmin.trusted.trans h.untrusted⟩
    rw [Ixgbe.step, vfResetEvent_vfinfo]
    by_cases hw : (vf : ℕ) = w
    · rw [← hw, update_self]
      exact h.mac
    · rw [update_of_ne hw]
      exact h.mac
  | addVid _ => exact hsame _ rfl
  | killVid _ => exact hsame _ rfl
  | rxMode dev => exact hsame _ (by rw [Ixgbe.step, setRxMode_vfinfo])
  | ucSync _ => exact hsame _ rfl
  | ucUnsync _ => exact hsame _ rfl
  | setVfTrust w b =>
    obtain ⟨t, c, hs⟩ := ndoSetVfTrust_vfinfo cfg a w b vf
    refine ⟨?_, ?_, step_untrusted vf.isLt (e := .setVfTrust w b) he h.untrusted⟩
    · rw [Ixgbe.step, hs]
      exact h.mac
    · rw [Ixgbe.step, hs]
      exact h.pfSetMac
  | setVfMac w mac => exact hsame _ (ndoSetVfMac_vfinfo_other he mac)
  | setVfVlan w vlan qos proto =>
    obtain ⟨v, q, hs⟩ := ndoSetVfVlan_vfinfo cfg a w vlan qos proto vf
    exact ⟨by rw [Ixgbe.step, hs]; exact h.mac, by rw [Ixgbe.step, hs]; exact h.pfSetMac,
      by rw [Ixgbe.step, hs]; exact h.untrusted⟩
  | reset _ => exact hsame _ rfl

end

/-- **The administrator's address** stays with an untrusted VF all along a run without further MAC
administration exactly when no step is one of `LosesMac`. -/
theorem admin_mac_iff (cfg : AdapterCfg) (a : Adapter) (vf : Fin cfg.numVfs) (M : MacAddr)
    (hM : isValidEtherAddr M = true) (htr : (a.vfinfo vf).trusted = false)
    (hset : 0 ≤ (ndoSetVfMac cfg a vf M).1) (es : List (Event cfg.numVfs))
    (hes : ∀ e ∈ es, NoMacAdmin vf e) :
    let a₁ := (ndoSetVfMac cfg a vf M).2
    ((a₁.vfinfo vf).vfMacAddresses = M ∧
        After (step cfg) (fun s => (s.vfinfo vf).vfMacAddresses = M) a₁ es) ↔
      Along (step cfg) (fun s e => ¬ LosesMac (vf : ℕ) M s e) a₁ es := by
  intro a₁
  have hinfo := ndoSetVfMac_ok hM hset
  have hinv : AdminMac vf M a₁ := ⟨by rw [hinfo], by rw [hinfo], by rw [hinfo]; exact htr⟩
  rw [and_iff_right hinv.mac]
  refine after_iff_along (fun _ e => NoMacAdmin vf e) (fun s e hs he hok => hs.step hM he hok)
    (fun s hs => hs.mac) (fun s e hs he hbad => ?_) hinv (along_of_forall _ es hes)
  rw [(not_not.mp hbad).vfMacAddresses hs hM]
  exact (ne_zero_of_isValidEtherAddr hM).symm

theorem admin_mac_uc_sync :
    let cfg := oneVfAdapterCfg
    let a₁ := (ndoSetVfMac cfg (enabledAdapter cfg 0x0250) 0 0x0252).2
    (a₁.vfinfo 0).vfMacAddresses = 0x0252 ∧
      After (step cfg) (fun s => (s.vfinfo 0).vfMacAddresses = 0x0252) a₁ [.ucSync 0x0254] := by
  intro cfg a₁
  refine (admin_mac_iff cfg (enabledAdapter cfg 0x0250) oneVf 0x0252 (by decide) rfl
    (by decide +kernel) [.ucSync 0x0254] (by simp [NoMacAdmin])).mpr ?_
  exact ⟨id, trivial⟩

def nearlyFull : Adapter :=
  { enabledAdapter oneVfAdapterCfg 0x0250 with
    mac.entries := fun i =>
      ⟨BitVec.ofNat 48 (0x0250 + 0x10000 * i), 1, decide (i = 0), false, decide (i < 127)⟩ }

/-- The PF takes the last entry between the VF's reset and its request. -/
theorem admin_mac_lost :
    let cfg := oneVfAdapterCfg
    let a₁ := (ndoSetVfMac cfg nearlyFull 0 0x0252).2
    isValidEtherAddr 0x0252 = true ∧ (nearlyFull.vfinfo 0).trusted = false ∧
      0 ≤ (ndoSetVfMac cfg nearlyFull 0 0x0252).1 ∧
      ((run (step cfg) a₁ [.vfReset oneVf, .ucSync 0x0254,
        .msg oneVf (0, fun _ => vfReset)]).vfinfo 0).vfMacAddresses ≠ 0x0252 := by
  decide +kernel

end Ixgbe
