import Ixgbe.Mac.Steps
import Ixgbe.Sriov.Effects

/-! # What the SR-IOV routines do to the address filters

`MacSteps` for the pools they serve; macvlan entries of the VF are given back, free ones filled. -/

namespace Ixgbe

variable {cfg : AdapterCfg} {a : Adapter} {vf : ℕ}

theorem flushStaleUc_steps (t : MacFilter) (uc : List HwAddr) :
    MacSteps cfg.toRarCfg (· = cfg.pf) t (flushStaleUc cfg t uc).1 := by
  induction uc generalizing t with
  | nil => exact .refl
  | cons ha l ih =>
    rw [flushStaleUc]
    split_ifs
    · exact .head (.del ha.addr cfg.pf rfl) (ih _)
    · exact ih t

theorem syncNewUc_steps (t : MacFilter) (uc : List HwAddr) :
    MacSteps cfg.toRarCfg (· = cfg.pf) t (syncNewUc cfg t uc).2.1 := by
  induction uc generalizing t with
  | nil => exact .refl
  | cons ha l ih =>
    have hadd : MacStep cfg.toRarCfg (· = cfg.pf) t (ucSync cfg t ha.addr).2 :=
      .add ha.addr cfg.pf rfl
    rw [syncNewUc]
    dsimp only
    split_ifs
    · exact ih t
    · exact .single hadd
    · exact .head hadd (ih _)

theorem devUcSync_steps (cfg : AdapterCfg) (t : MacFilter) (uc : List HwAddr) :
    MacSteps cfg.toRarCfg (· = cfg.pf) t (devUcSync cfg t uc).2.1 :=
  (flushStaleUc_steps t uc).trans (syncNewUc_steps _ _)

def VfMacvlans.released (e : VfMacvlans) : VfMacvlans :=
  { e with vf := none, free := true, isMacvlan := false }

theorem foldl_releaseMacvlan_mvs (s : (ℕ → VfMacvlans) × MacFilter) (n i : ℕ) :
    ((List.range n).foldl (releaseMacvlan cfg vf) s).1 i =
      if i < n ∧ (s.1 i).vf = some vf then (s.1 i).released else s.1 i := by
  induction n generalizing i with
  | zero => simp
  | succ n ih =>
    rw [List.range_succ, List.foldl_append, List.foldl_cons, List.foldl_nil]
    have hn := ih n
    rw [releaseMacvlan, hn]
    by_cases hin : i = n
    · subst hin
      by_cases hvf : (s.1 i).vf = some vf
      · simp [hvf, VfMacvlans.released]
      · simp [hvf, hn]
    · have hlt : i < n + 1 ↔ i < n := by omega
      by_cases hvf : (s.1 n).vf = some vf
      · simp [hvf, hin, ih, hlt]
      · simp [hvf, ih, hlt]

theorem foldl_releaseMacvlan_steps (l : List ℕ) (s : (ℕ → VfMacvlans) × MacFilter) :
    MacSteps cfg.toRarCfg (· = vf) s.2 (l.foldl (releaseMacvlan cfg vf) s).2 := by
  induction l generalizing s with
  | nil => exact .refl
  | cons i l ih =>
    refine .trans ?_ (ih _)
    rw [releaseMacvlan]
    split_ifs
    · exact .single (.del _ vf rfl)
    · exact .refl

theorem releaseMacvlans_steps :
    MacSteps cfg.toRarCfg (· = vf) a.mac (releaseMacvlans cfg a vf).mac :=
  foldl_releaseMacvlan_steps _ (a.mvs, a.mac)

/-- The VF's own entries and the free ones may change. -/
def MvsKept (vf : ℕ) (f g : ℕ → VfMacvlans) : Prop :=
  ∀ i, (f i).free = false → (f i).vf ≠ some vf → g i = f i

theorem MvsKept.refl (vf : ℕ) (f : ℕ → VfMacvlans) : MvsKept vf f f := fun _ _ _ => rfl

theorem MvsKept.trans {f g h : ℕ → VfMacvlans} (h1 : MvsKept vf f g) (h2 : MvsKept vf g h) :
    MvsKept vf f h := by
  intro i hfree hvf
  have hi := h1 i hfree hvf
  rw [h2 i (by rw [hi]; exact hfree) (by rw [hi]; exact hvf), hi]

theorem foldl_releaseMacvlan_kept (s : (ℕ → VfMacvlans) × MacFilter) (n : ℕ) :
    MvsKept vf s.1 ((List.range n).foldl (releaseMacvlan cfg vf) s).1 := by
  intro i _ hvf
  rw [foldl_releaseMacvlan_mvs, if_neg fun h => hvf h.2]

theorem setVfMacvlan_steps (cfg : AdapterCfg) (a : Adapter) (vf index : ℕ) (addr : MacAddr) :
    MacSteps cfg.toRarCfg (· = vf) a.mac (setVfMacvlan cfg a vf index addr).2.mac ∧
      MvsKept vf a.mvs (setVfMacvlan cfg a vf index addr).2.mvs := by
  obtain ⟨b, hb, hstep⟩ := setVfMacvlan_step cfg a vf index addr
  have hrel : MacSteps cfg.toRarCfg (· = vf) a.mac b.mac ∧ MvsKept vf a.mvs b.mvs := by
    rcases hb with rfl | rfl
    · exact ⟨releaseMacvlans_steps, foldl_releaseMacvlan_kept (a.mvs, a.mac) _⟩
    · exact ⟨.refl, .refl vf _⟩
  have hadd := hrel.1.tail (.add addr vf rfl)
  generalize (setVfMacvlan cfg a vf index addr).2 = a' at hstep ⊢
  cases hstep with
  | same => exact hrel
  | refused => exact ⟨hadd, hrel.2⟩
  | entered _ hfree =>
    refine ⟨hadd, hrel.2.trans fun j hused _ => ?_⟩
    -- the entry that is filled was free
    refine Function.update_of_ne (fun hji => ?_) _ _
    rw [hji, hfree] at hused
    exact absurd hused (by decide)

theorem setVfMac_steps (addr : MacAddr) :
    MacSteps cfg.toRarCfg (· = vf) a.mac (setVfMac cfg a vf addr).2.mac :=
  .tail (.single (.del _ vf rfl)) (.add addr vf rfl)

theorem restoreVfMac_steps : MacSteps cfg.toRarCfg (· = vf) a.mac (restoreVfMac cfg a vf).mac := by
  rw [restoreVfMac]
  split_ifs
  · exact setVfMac_steps _
  · exact .refl

theorem restoreVfMac_mvs : (restoreVfMac cfg a vf).mvs = a.mvs := by
  rw [restoreVfMac]
  split_ifs <;> rfl

theorem vfResetEvent_steps (cfg : AdapterCfg) (a : Adapter) (vf : ℕ) :
    MacSteps cfg.toRarCfg (fun p => p = cfg.pf ∨ p = vf) a.mac (vfResetEvent cfg a vf).mac ∧
      MvsKept vf a.mvs (vfResetEvent cfg a vf).mvs := by
  have hsync : MacSteps cfg.toRarCfg (fun p => p = cfg.pf ∨ p = vf) a.mac
      (devUcSync cfg a.mac a.netdev.uc).2.1 := (devUcSync_steps cfg _ _).mono fun _ => Or.inl
  have hreset : MacSteps cfg.toRarCfg (fun p => p = cfg.pf ∨ p = vf) a.mac (resetMac cfg a vf) := by
    rw [resetMac]
    split_ifs
    · exact (hsync.tail .sync).tail (.del _ vf (.inr rfl))
    · exact hsync.tail (.del _ vf (.inr rfl))
  obtain ⟨hmvs, hmac⟩ := Prod.mk.inj (vfResetEvent_filters cfg a vf)
  rw [hmvs, hmac]
  exact ⟨hreset.trans
      ((foldl_releaseMacvlan_steps _ (a.mvs, resetMac cfg a vf)).mono fun _ => Or.inr),
    foldl_releaseMacvlan_kept (a.mvs, resetMac cfg a vf) _⟩

theorem Handled.steps {b : Adapter} {msg : MsgBuf} (h : Handled cfg a vf msg b) :
    MacSteps cfg.toRarCfg (fun p => p = cfg.pf ∨ p = vf) a.mac b.mac ∧ MvsKept vf a.mvs b.mvs := by
  cases h with
  | same => exact ⟨.refl, .refl vf _⟩
  | reset _ =>
    obtain ⟨r, m, h⟩ := vfResetMsg_eq cfg a vf
    obtain ⟨hmac, hmvs⟩ := vfResetEvent_steps cfg a vf
    rw [h]
    refine ⟨hmac.trans (restoreVfMac_steps.mono fun _ => Or.inr), ?_⟩
    change MvsKept vf a.mvs (restoreVfMac cfg (vfResetEvent cfg a vf) vf).mvs
    rw [restoreVfMac_mvs]
    exact hmvs
  | mac _ _ _ _ => exact ⟨(setVfMac_steps _).mono fun _ => Or.inr, .refl vf _⟩
  | multicast _ _ =>
    rw [setVfMulticasts]
    rw [writeMcAddrList_mac, writeMcAddrList_mvs]
    refine ⟨?_, .refl vf _⟩
    split_ifs
    · exact .single .sync
    · exact .refl
  | vlan _ _ _ _ => exact ⟨.refl, .refl vf _⟩
  | frameSize _ => exact ⟨.refl, .refl vf _⟩
  | macvlan r _ =>
    obtain ⟨hmac, hmvs⟩ :=
      setVfMacvlan_steps cfg { a with regs := r } vf (msgInfo msg) (msgMac msg)
    exact ⟨hmac.mono fun _ => Or.inr, hmvs⟩
  | api _ => exact ⟨.refl, .refl vf _⟩
  | xcast _ _ => exact ⟨.refl, .refl vf _⟩

end Ixgbe
