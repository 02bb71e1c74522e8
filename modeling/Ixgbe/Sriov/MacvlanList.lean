import Ixgbe.Sriov.MacEffects

/-! # The macvlan list and the filter table

Filters are deleted by value: a deletion of the VF's own address may hit that of a listed one. -/

namespace Ixgbe

open EventRun IndexedTable Multiset VfMacvlans

def VfMacvlans.listed (e : VfMacvlans) : Option (MacAddr × ℕ) :=
  if e.free then none else e.vf.map (e.vfMacvlan, ·)

def listedMacvlans (cfg : AdapterCfg) (mvs : ℕ → VfMacvlans) : Multiset (MacAddr × ℕ) :=
  contents cfg.numVfMacvlans VfMacvlans.listed mvs

def VfMacvlans.Owned (cfg : AdapterCfg) (e : VfMacvlans) : Prop :=
  e.free = true ∧ e.vf = none ∨ e.free = false ∧ ∃ w < cfg.numVfs, e.vf = some w

/-- **Coherence**: each entry in use has an owner and a filter of its own. -/
structure MvsCoherent (cfg : AdapterCfg) (mvs : ℕ → VfMacvlans) (t : MacFilter) : Prop where
  owned : ∀ i < cfg.numVfMacvlans, (mvs i).Owned cfg
  installed : listedMacvlans cfg mvs ≤ t.filters cfg.toRarCfg

section

variable {cfg : AdapterCfg} {a : Adapter} {vf : ℕ} {f : ℕ → VfMacvlans} {t t' : MacFilter}

theorem MvsCoherent.count_le (h : MvsCoherent cfg f t) (x : MacAddr × ℕ) :
    (listedMacvlans cfg f).count x ≤ (t.filters cfg.toRarCfg).count x :=
  le_iff_count.mp h.installed x

theorem MvsCoherent.pool_lt (h : MvsCoherent cfg f t) {x : MacAddr × ℕ}
    (hx : x ∈ listedMacvlans cfg f) : x.2 < cfg.numVfs := by
  obtain ⟨i, hi, hk⟩ := mem_contents.mp hx
  rcases h.owned i hi with ⟨hfree, -⟩ | ⟨hfree, w, hw, hvf⟩
  · rw [listed, if_pos hfree] at hk
    exact absurd hk (by simp)
  · rw [listed, hfree, if_neg (by decide), hvf] at hk
    rw [← Option.some.inj hk]
    exact hw

theorem MvsCoherent.mono (h : MvsCoherent cfg f t)
    (hle : t.filters cfg.toRarCfg ≤ t'.filters cfg.toRarCfg) : MvsCoherent cfg f t' :=
  ⟨h.owned, h.installed.trans hle⟩

theorem MvsCoherent.steps {P : ℕ → Prop} (h : MvsCoherent cfg f t)
    (hs : MacSteps cfg.toRarCfg P t t') (hP : ∀ w < cfg.numVfs, ¬ P w) : MvsCoherent cfg f t' := by
  refine ⟨h.owned, le_iff_count.mpr fun x => ?_⟩
  by_cases hx : x ∈ listedMacvlans cfg f
  · rw [hs.count_filters (hP x.2 (h.pool_lt hx)) x.1]
    exact h.count_le x
  · rw [count_eq_zero_of_notMem hx]
    exact Nat.zero_le _

theorem listedMacvlans_release (h : MvsCoherent cfg f t) (u : MacFilter) :
    listedMacvlans cfg ((List.range cfg.numVfMacvlans).foldl (releaseMacvlan cfg vf) (f, u)).1 =
      (listedMacvlans cfg f).filter (·.2 ≠ vf) := by
  refine contents_filter fun i hi => ?_
  rw [foldl_releaseMacvlan_mvs]
  rcases h.owned i hi with ⟨hfree, hvf⟩ | ⟨hfree, w, -, hvf⟩
  · simp [listed, hfree, hvf]
  · by_cases hw : w = vf
    · simp [listed, released, hfree, hvf, hw, hi, Option.filter]
    · simp [listed, hfree, hvf, hw, Option.filter]

theorem MvsCoherent.release (h : MvsCoherent cfg f t) (u : MacFilter)
    (hs : MacSteps cfg.toRarCfg (fun p => p = cfg.pf ∨ p = vf) t t') :
    MvsCoherent cfg ((List.range cfg.numVfMacvlans).foldl (releaseMacvlan cfg vf) (f, u)).1 t' := by
  refine ⟨fun i hi => ?_, le_iff_count.mpr fun x => ?_⟩
  · rw [foldl_releaseMacvlan_mvs]
    split_ifs
    · exact .inl ⟨rfl, rfl⟩
    · exact h.owned i hi
  · rw [listedMacvlans_release h, count_filter]
    split_ifs with hx
    · by_cases hmem : x ∈ listedMacvlans cfg f
      · have hpf : x.2 ≠ cfg.pf := cfg.vf_ne_pf ⟨x.2, h.pool_lt hmem⟩
        rw [hs.count_filters (fun hc => hc.elim hpf hx) x.1]
        exact h.count_le x
      · rw [count_eq_zero_of_notMem hmem]
        exact Nat.zero_le _
    · exact Nat.zero_le _

theorem MvsCoherent.vfResetEvent (h : MvsCoherent cfg a.mvs a.mac) (vf : ℕ) :
    MvsCoherent cfg (vfResetEvent cfg a vf).mvs (Ixgbe.vfResetEvent cfg a vf).mac := by
  have hmvs := (Prod.mk.inj (vfResetEvent_filters cfg a vf)).1
  rw [hmvs]
  exact h.release _ (vfResetEvent_steps cfg a vf).1

theorem MvsCoherent.setVfMacvlan (h : MvsCoherent cfg a.mvs a.mac) (vf : Fin cfg.numVfs) (index : ℕ)
    (addr : MacAddr) : MvsCoherent cfg (setVfMacvlan cfg a vf index addr).2.mvs
      (Ixgbe.setVfMacvlan cfg a vf index addr).2.mac := by
  obtain ⟨b, hb, hstep⟩ := setVfMacvlan_step cfg a vf index addr
  have hrel : MvsCoherent cfg b.mvs b.mac := by
    rcases hb with rfl | rfl
    · exact h.release a.mac (releaseMacvlans_steps.mono fun _ => Or.inr)
    · exact h
  generalize (Ixgbe.setVfMacvlan cfg a vf index addr).2 = a' at hstep ⊢
  cases hstep with
  | same => exact hrel
  | refused hneg => exact hrel.mono (addMacFilter_filters_of_neg hneg).ge
  | @entered i hi hfree hok =>
    obtain ⟨-, hcons⟩ := addMacFilter_filters_of_nonneg hok
    dsimp only
    refine ⟨fun j hj => ?_, ?_⟩
    · by_cases hji : j = i
      · rw [hji, Function.update_self]
        exact .inr ⟨rfl, vf, vf.isLt, rfl⟩
      · rw [Function.update_of_ne hji]
        exact hrel.owned j hj
    · have hnone : (b.mvs i).listed = none := if_pos hfree
      rw [hcons, listedMacvlans, contents_fill hi hnone rfl]
      exact cons_le_cons _ hrel.installed

/-- No filter for the VF's own address is left beyond those of the list. -/
def OnlyListed (cfg : AdapterCfg) (a : Adapter) (vf : ℕ) : Prop :=
  (a.vfinfo vf).vfMacAddresses ≠ 0 ∧
    ((a.vfinfo vf).vfMacAddresses, vf) ∈ listedMacvlans cfg a.mvs ∧
    (a.mac.filters cfg.toRarCfg).count ((a.vfinfo vf).vfMacAddresses, vf) ≤
      (listedMacvlans cfg a.mvs).count ((a.vfinfo vf).vfMacAddresses, vf)

theorem MvsCoherent.delMacFilter_iff (h : MvsCoherent cfg a.mvs a.mac) (vf : ℕ) :
    MvsCoherent cfg a.mvs (delMacFilter cfg.toRarCfg a.mac (a.vfinfo vf).vfMacAddresses vf).2 ↔
      ¬ OnlyListed cfg a vf := by
  by_cases h0 : (a.vfinfo vf).vfMacAddresses = 0
  · rw [h0, delMacFilter_zero]
    exact iff_of_true h fun hc => hc.1 h0
  · have hiff := le_erase_iff h.installed ((a.vfinfo vf).vfMacAddresses, vf)
    rw [← delMacFilter_filters h0] at hiff
    rw [OnlyListed, and_iff_right h0, ← hiff]
    exact ⟨MvsCoherent.installed, fun hle => ⟨h.owned, hle⟩⟩

theorem MvsCoherent.setVfMac_iff (h : MvsCoherent cfg a.mvs a.mac) (vf : ℕ) {addr : MacAddr}
    (haddr : addr ≠ 0) : MvsCoherent cfg a.mvs (setVfMac cfg a vf addr).2.mac ↔
      ¬ (addr ≠ (a.vfinfo vf).vfMacAddresses ∧ OnlyListed cfg a vf) := by
  have hset : (setVfMac cfg a vf addr).2.mac = (addMacFilter cfg.toRarCfg
      (delMacFilter cfg.toRarCfg a.mac (a.vfinfo vf).vfMacAddresses vf).2 addr vf).2 := rfl
  by_cases h0 : (a.vfinfo vf).vfMacAddresses = 0
  · -- nothing is deleted, and the list never needs less
    refine iff_of_true ?_ fun hc => hc.2.1 h0
    rw [hset, h0, delMacFilter_zero]
    rcases addMacFilter_cases cfg.toRarCfg a.mac addr vf with ⟨-, hsame, -⟩ | ⟨-, -, -, hcons⟩
    · exact h.mono hsame.ge
    · exact h.mono (by rw [hcons]; exact le_cons_self _ _)
  have hdel : (delMacFilter cfg.toRarCfg a.mac (a.vfinfo vf).vfMacAddresses vf).2.filters
      cfg.toRarCfg = (a.mac.filters cfg.toRarCfg).erase ((a.vfinfo vf).vfMacAddresses, vf) :=
    delMacFilter_filters h0 vf
  have hcoh : MvsCoherent cfg a.mvs (setVfMac cfg a vf addr).2.mac ↔
      listedMacvlans cfg a.mvs ≤ (setVfMac cfg a vf addr).2.mac.filters cfg.toRarCfg :=
    ⟨MvsCoherent.installed, fun hle => ⟨h.owned, hle⟩⟩
  rw [hcoh, hset]
  rcases addMacFilter_cases cfg.toRarCfg
      (delMacFilter cfg.toRarCfg a.mac (a.vfinfo vf).vfMacAddresses vf).2 addr vf with
    ⟨-, hsame, hfull⟩ | ⟨-, -, -, hcons⟩
  · -- the table is full although a filter was to be deleted: the VF's address had none
    have hcard := hfull.resolve_left haddr
    rw [hdel] at hcard
    have hgone : ((a.vfinfo vf).vfMacAddresses, vf) ∉ a.mac.filters cfg.toRarCfg :=
      ((card_erase_eq_iff card_contents_le _).mp hcard).1
    rw [hsame, hdel, erase_of_notMem hgone]
    exact iff_of_true h.installed fun hc => hgone (mem_of_le h.installed hc.2.2.1)
  · rw [hcons, hdel]
    by_cases hold : addr = (a.vfinfo vf).vfMacAddresses
    · rw [hold]
      exact iff_of_true (h.installed.trans (le_cons_erase _ _)) fun hc => hc.1 rfl
    · have hne : (addr, vf) ≠ ((a.vfinfo vf).vfMacAddresses, vf) := fun hc =>
        hold (Prod.mk.inj hc).1
      rw [← erase_cons_tail _ hne, le_erase_iff (h.installed.trans (le_cons_self _ _)),
        count_cons_of_ne hne.symm, OnlyListed, and_iff_right h0, and_iff_right hold]

end

section

variable {cfg : AdapterCfg} {a : Adapter}

def ChangesVfMac {n : ℕ} (vf : ℕ) (s : Adapter) : Event n → Prop
  | .msg w (ret, msg) =>
    (w : ℕ) = vf ∧ ret = 0 ∧ msg 0 &&& (msgtypeSuccess ||| msgtypeFailure) = 0 ∧
      (s.vfinfo vf).clearToSend = true ∧ VfMsg.ofWord (msg 0) = some .setMacAddr ∧
      isValidEtherAddr (msgMac msg) = true ∧ msgMac msg ≠ (s.vfinfo vf).vfMacAddresses ∧
      ¬ ((s.vfinfo vf).pfSetMac = true ∧ (s.vfinfo vf).trusted = false)
  | .setVfMac w mac =>
    w = vf ∧ (isValidEtherAddr mac = true ∨ mac = 0) ∧ mac ≠ (s.vfinfo vf).vfMacAddresses
  | _ => False

/-- It takes a VF off an address installed for its list only. -/
def TakesListed (cfg : AdapterCfg) (s : Adapter) (e : Event cfg.numVfs) : Prop :=
  ∃ vf < cfg.numVfs, ChangesVfMac vf s e ∧ OnlyListed cfg s vf

def NoReset {n : ℕ} : Event n → Prop
  | .reset _ => False
  | _ => True

theorem MvsCoherent.handled {b : Adapter} {msg : MsgBuf} {vf : Fin cfg.numVfs}
    (h : MvsCoherent cfg a.mvs a.mac) (hb : Handled cfg a vf msg b)
    (hno : ¬ (ChangesVfMac (n := cfg.numVfs) vf a (.msg vf (0, msg)) ∧ OnlyListed cfg a vf))
    (htype : msg 0 &&& (msgtypeSuccess ||| msgtypeFailure) = 0) : MvsCoherent cfg b.mvs b.mac := by
  have hpf : ∀ w < cfg.numVfs, ¬ w = cfg.pf := fun w hw => cfg.vf_ne_pf ⟨w, hw⟩
  cases hb with
  | same => exact h
  | reset _ =>
    obtain ⟨r, m, hs⟩ := vfResetMsg_eq cfg a vf
    rw [hs]
    change MvsCoherent cfg (restoreVfMac cfg (Ixgbe.vfResetEvent cfg a vf) vf).mvs _
    rw [restoreVfMac_mvs, (Prod.mk.inj (vfResetEvent_filters cfg a vf)).1]
    exact h.release _ ((vfResetEvent_steps cfg a vf).1.trans
      (restoreVfMac_steps.mono fun _ => Or.inr))
  | mac hcts hmsg hvalid hadmin =>
    refine (h.setVfMac_iff vf (ne_zero_of_isValidEtherAddr hvalid)).mpr fun hc => hno ⟨?_, hc.2⟩
    exact ⟨rfl, rfl, htype, hcts, hmsg, hvalid, hc.1, fun hset => hc.1 (hadmin hset.1 hset.2).symm⟩
  | multicast _ _ =>
    rw [setVfMulticasts]
    rw [writeMcAddrList_mac, writeMcAddrList_mvs]
    split_ifs
    · exact h.steps (.single .sync) hpf
    · exact h
  | vlan _ _ _ _ => exact h
  | frameSize _ => exact h
  | macvlan r _ => exact MvsCoherent.setVfMacvlan (a := { a with regs := r }) h vf _ _
  | api _ => exact h
  | xcast _ _ => exact h

theorem ndoSetVfMac_mac {vf : ℕ} (hvf : vf < cfg.numVfs) (mac : MacAddr) :
    (ndoSetVfMac cfg a vf mac).2.mac =
      if isValidEtherAddr mac = true then (setVfMac cfg a vf mac).2.mac
      else if mac = 0 then (delMacFilter cfg.toRarCfg a.mac (a.vfinfo vf).vfMacAddresses vf).2
      else a.mac := by
  unfold ndoSetVfMac
  rw [if_neg (by omega)]
  dsimp only [Int.toNat_natCast]
  by_cases hvalid : isValidEtherAddr mac = true
  · rw [if_pos hvalid, if_pos hvalid]
    split_ifs <;> rfl
  rw [if_neg hvalid, if_neg hvalid]
  by_cases h0 : mac = 0
  · rw [if_pos h0, if_pos h0]
    split
    case isTrue hold =>
      rw [hold, delMacFilter_zero]
    · split_ifs <;> rfl
  · rw [if_neg h0, if_neg h0]

theorem MvsCoherent.ndoSetVfMac_iff (h : MvsCoherent cfg a.mvs a.mac) (vf : ℤ) (mac : MacAddr) :
    MvsCoherent cfg (ndoSetVfMac cfg a vf mac).2.mvs (ndoSetVfMac cfg a vf mac).2.mac ↔
      ¬ TakesListed cfg a (.setVfMac vf mac) := by
  rw [(ndoSetVfMac_frame vf mac).2.2]
  by_cases hvf : ∃ w < cfg.numVfs, vf = (w : ℕ)
  · obtain ⟨w, hw, rfl⟩ := hvf
    have htakes : TakesListed cfg a (.setVfMac w mac) ↔
        (isValidEtherAddr mac = true ∨ mac = 0) ∧ mac ≠ (a.vfinfo w).vfMacAddresses ∧
          OnlyListed cfg a w := by
      constructor
      · rintro ⟨u, -, ⟨hu, hmac, hne⟩, honly⟩
        obtain rfl : w = u := Int.ofNat.inj hu
        exact ⟨hmac, hne, honly⟩
      · rintro ⟨hmac, hne, honly⟩
        exact ⟨w, hw, ⟨rfl, hmac, hne⟩, honly⟩
    rw [htakes, ndoSetVfMac_mac hw]
    by_cases hvalid : isValidEtherAddr mac = true
    · rw [if_pos hvalid, h.setVfMac_iff w (ne_zero_of_isValidEtherAddr hvalid),
        and_iff_right (Or.inl hvalid)]
    rw [if_neg hvalid]
    by_cases h0 : mac = 0
    · rw [if_pos h0, h.delMacFilter_iff, and_iff_right (Or.inr h0), h0]
      exact not_congr ⟨fun hc => ⟨hc.1.symm, hc⟩, And.right⟩
    · rw [if_neg h0]
      exact iff_of_true h fun hc => hc.1.elim hvalid h0
  · -- no such VF: the request is refused
    have hbad : vf < 0 ∨ vf ≥ cfg.numVfs := by
      by_contra hc
      exact hvf ⟨vf.toNat, by omega, by omega⟩
    rw [ndoSetVfMac, if_pos hbad]
    exact iff_of_true h fun ⟨w, hw, hch, _⟩ => hvf ⟨w, hw, hch.1⟩

theorem MvsCoherent.step_iff (h : MvsCoherent cfg a.mvs a.mac) {e : Event cfg.numVfs}
    (he : NoReset e) :
    MvsCoherent cfg (step cfg a e).mvs (step cfg a e).mac ↔ ¬ TakesListed cfg a e := by
  have hpf : ∀ w < cfg.numVfs, ¬ w = cfg.pf := fun w hw => cfg.vf_ne_pf ⟨w, hw⟩
  have hnone : (∀ w, ¬ ChangesVfMac w a e) → ¬ TakesListed cfg a e := fun hno ⟨w, _, hch, _⟩ =>
    hno w hch
  cases e with
  | msg vf read =>
    obtain ⟨ret, msg⟩ := read
    rw [step]
    by_cases hign : ret ≠ 0 ∨ msg 0 &&& (msgtypeSuccess ||| msgtypeFailure) ≠ 0
    · rw [rcvMsgFromVf_ignored cfg a vf hign]
      exact iff_of_true h (hnone fun w hc => hign.elim (· hc.2.1) (· hc.2.2.1))
    push Not at hign
    obtain ⟨rfl, htype⟩ := hign
    by_cases htakes : ChangesVfMac (n := cfg.numVfs) vf a (.msg vf (0, msg)) ∧ OnlyListed cfg a vf
    · obtain ⟨hch, honly⟩ := htakes
      refine iff_of_false ?_ (not_not.mpr ⟨vf, vf.isLt, hch, honly⟩)
      obtain ⟨-, -, -, hcts, hmsg, hvalid, hne, hadmin⟩ := hch
      obtain ⟨m, hs⟩ : ∃ m : Mbx, (rcvMsgFromVf cfg a vf (0, msg)).2 =
          { (handleMsg cfg a msg vf).2.2 with mbx := m } :=
        rcvMsgFromVf_accepted htype hcts hmsg (by decide)
      have hset : (setVfMacAddr cfg a msg vf).2 = (setVfMac cfg a vf (msgMac msg)).2 := by
        unfold setVfMacAddr
        rw [if_neg (by rw [hvalid]; decide), if_neg fun hc => hadmin ⟨hc.1, hc.2.1⟩]
      rw [hs, handleMsg, hmsg]
      rw [hset]
      intro hcoh
      exact (h.setVfMac_iff vf (ne_zero_of_isValidEtherAddr hvalid)).mp hcoh ⟨hne, honly⟩
    · obtain ⟨b, m, hb, hs⟩ := rcvMsgFromVf_handled cfg a vf (0, msg)
      rw [hs]
      have hcoh : MvsCoherent cfg b.mvs b.mac := h.handled hb htakes htype
      refine iff_of_true hcoh ?_
      rintro ⟨w, -, hch, honly⟩
      obtain rfl : (vf : ℕ) = w := hch.1
      exact htakes ⟨hch, honly⟩
  | vfReset vf => exact iff_of_true (h.vfResetEvent vf) (hnone fun _ => id)
  | addVid _ => exact iff_of_true h (hnone fun _ => id)
  | killVid _ => exact iff_of_true h (hnone fun _ => id)
  | rxMode dev =>
    refine iff_of_true ?_ (hnone fun _ => id)
    rw [step, setRxMode_mvs, setRxMode_mac]
    have hsync := h.steps (devUcSync_steps cfg a.mac dev.uc) hpf
    split_ifs
    · exact hsync.steps (.single .sync) hpf
    · exact hsync
  | ucSync addr =>
    have hadd : MacStep cfg.toRarCfg (· = cfg.pf) a.mac (Ixgbe.ucSync cfg a.mac addr).2 :=
      .add addr cfg.pf rfl
    exact iff_of_true (h.steps (.single hadd) hpf) (hnone fun _ => id)
  | ucUnsync addr =>
    have hdel : MacStep cfg.toRarCfg (· = cfg.pf) a.mac (Ixgbe.ucUnsync cfg a.mac addr) :=
      .del addr cfg.pf rfl
    exact iff_of_true (h.steps (.single hdel) hpf) (hnone fun _ => id)
  | setVfTrust vf setting =>
    refine iff_of_true ?_ (hnone fun _ => id)
    rw [step]
    rcases ndoSetVfTrust_cases cfg a vf setting with hs | ⟨v, m, -, -, -, hs⟩
    · rw [hs]
      exact h
    · rw [hs]
      exact h
  | setVfMac vf mac => exact h.ndoSetVfMac_iff vf mac
  | setVfVlan vf vlan qos proto =>
    obtain ⟨hmac, hmvs, -⟩ := ndoSetVfVlan_frame cfg a vf vlan qos proto
    rw [step, hmac, hmvs]
    exact iff_of_true h (hnone fun _ => id)
  | reset _ => exact absurd he id

end

/-- **The macvlan list** stays coherent in a run without adapter resets exactly when no step takes a
VF off an address installed for its list only. -/
theorem macvlans_coherent_iff (cfg : AdapterCfg) (a : Adapter) (h : MvsCoherent cfg a.mvs a.mac)
    (es : List (Event cfg.numVfs)) (hes : ∀ e ∈ es, NoReset e) :
    After (step cfg) (fun s => MvsCoherent cfg s.mvs s.mac) a es ↔
      Along (step cfg) (fun s e => ¬ TakesListed cfg s e) a es :=
  after_iff_along (fun _ e => NoReset e) (fun _ _ hs he hok => (hs.step_iff he).mpr hok)
    (fun _ hs => hs) (fun _ _ hs he hbad hc => hbad ((hs.step_iff he).mp hc)) h
    (along_of_forall a es hes)

theorem enabledAdapter_coherent (cfg : AdapterCfg) (hwAddr : MacAddr) :
    MvsCoherent cfg (enabledAdapter cfg hwAddr).mvs (enabledAdapter cfg hwAddr).mac := by
  refine ⟨fun i _ => .inl ⟨rfl, rfl⟩, ?_⟩
  have hempty : listedMacvlans cfg (enabledAdapter cfg hwAddr).mvs = 0 :=
    contents_eq_zero fun i _ => if_pos rfl
  rw [hempty]
  exact Multiset.zero_le _

def addrRequest (word addr : U32) : ℤ × MsgBuf :=
  (0, fun i => if i = 0 then word else if i = 1 then addr else 0)

theorem macvlans_coherent_add :
    let cfg := oneVfAdapterCfg
    After (step cfg) (fun s => MvsCoherent cfg s.mvs s.mac) (enabledAdapter cfg 0x0250)
      [.msg oneVf (0, fun _ => vfReset), .msg oneVf (addrRequest 0x2 0x0252),
        .msg oneVf (addrRequest 0x10006 0x0254)] := by
  intro cfg
  refine (macvlans_coherent_iff cfg _ (enabledAdapter_coherent cfg 0x0250) _
    (by simp [NoReset])).mpr
    ⟨?_, ?_, ?_, trivial⟩
  · rintro ⟨w, -, ⟨-, -, -, hcts, -⟩, -⟩
    exact absurd hcts Bool.false_ne_true
  · rintro ⟨w, -, ⟨hw, -⟩, h0, -⟩
    obtain rfl : 0 = w := hw
    exact h0 (by decide +kernel)
  · rintro ⟨w, -, ⟨-, -, -, -, hmsg, -⟩, -⟩
    exact absurd hmsg (by decide)

/-- The VF lists the address it had and takes another: the macvlan has no filter. -/
theorem macvlan_filter_lost :
    let cfg := oneVfAdapterCfg
    ¬ After (step cfg) (fun s => MvsCoherent cfg s.mvs s.mac) (enabledAdapter cfg 0x0250)
      [.msg oneVf (0, fun _ => vfReset), .msg oneVf (addrRequest 0x2 0x0252), .vfReset oneVf,
        .msg oneVf (addrRequest 0x10006 0x0252), .msg oneVf (addrRequest 0x2 0x0256)] := by
  intro cfg h
  have hlast := h.2.2.2.2.1.count_le (0x0252, 0)
  exact absurd hlast (by decide +kernel)

end Ixgbe
