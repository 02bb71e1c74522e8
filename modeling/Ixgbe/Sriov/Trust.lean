import Ixgbe.Sriov.Vmolr

/-! # Revoked trust

An untrusted VF cannot become promiscuous, but one that was so when its trust was revoked stays so
(`promisc_survives_revocation`). -/

namespace Ixgbe

open EventRun

/-- The VF has none of `MPE`, `UPE` and `VPE`. -/
def NotPromisc (a : Adapter) (vf : ℕ) : Prop := a.vmolr vf &&& promiscBits = 0

instance (a : Adapter) (vf : ℕ) : Decidable (NotPromisc a vf) :=
  inferInstanceAs (Decidable (a.vmolr vf &&& promiscBits = 0))

def NoTrust {n : ℕ} (vf : ℕ) : Event n → Prop
  | .setVfTrust w setting => w = vf → setting = false
  | _ => True

/-- An adapter reset comes out with the VF's bits clear. -/
def CleanReset {n : ℕ} (vf : ℕ) : Event n → Prop
  | .reset hw => hw.vmolr vf &&& promiscBits = 0
  | _ => True

section

variable {cfg : AdapterCfg} {a : Adapter} {vf : ℕ}

theorem step_untrusted (hvf : vf < cfg.numVfs) {e : Event cfg.numVfs} (he : NoTrust vf e)
    (h : (a.vfinfo vf).trusted = false) : ((step cfg a e).vfinfo vf).trusted = false := by
  cases e with
  | msg w read =>
    obtain ⟨b, m, hb, hstep⟩ := rcvMsgFromVf_handled cfg a w read
    rw [step, hstep]
    exact ((hb.modifiesVf.adminSame vf).trusted).trans h
  | vfReset w => exact (((vfResetEvent_modifiesVf cfg a w).adminSame vf).trusted).trans h
  | addVid _ => exact h
  | killVid _ => exact h
  | rxMode dev =>
    rw [step, setRxMode_vfinfo]
    exact h
  | ucSync _ => exact h
  | ucUnsync _ => exact h
  | setVfTrust w b =>
    rw [step]
    rw [ndoSetVfTrust_trusted w b hvf]
    split_ifs with hw
    · exact he hw
    · exact h
  | setVfMac w mac =>
    obtain ⟨_, _, hs⟩ := ndoSetVfMac_vfinfo cfg a w mac vf
    rw [step, hs]
    exact h
  | setVfVlan w vlan qos proto =>
    obtain ⟨_, _, hs⟩ := ndoSetVfVlan_vfinfo cfg a w vlan qos proto vf
    rw [step, hs]
    exact h
  | reset _ => exact h

theorem NotPromisc.step (h : NotPromisc a vf) (hvf : vf < cfg.numVfs)
    (htr : (a.vfinfo vf).trusted = false) {e : Event cfg.numVfs} (he : CleanReset vf e) :
    NotPromisc (step cfg a e) vf := by
  rcases step_promisc hvf e with hs | ⟨mode, hmode, hs⟩ | ⟨hw, rfl, hs⟩
  · exact hs.trans h
  · rw [NotPromisc, hs]
    rcases hmode htr with rfl | rfl <;> decide
  · rw [NotPromisc, hs]
    exact he

end

/-- **Revoked trust.** From its reset request on, until it is trusted again, the VF has none of the
promiscuous bits exactly when it has none when the request arrives. -/
theorem revoked_trust_iff (cfg : AdapterCfg) (a : Adapter) (vf : Fin cfg.numVfs)
    (es₁ : List (Event cfg.numVfs)) (h₁ : ∀ e ∈ es₁, NoTrust vf e) (msg : MsgBuf)
    (hmsg : msg 0 = vfReset)
    (es₂ : List (Event cfg.numVfs)) (h₂ : ∀ e ∈ es₂, NoTrust vf e ∧ CleanReset vf e) :
    let a₁ := run (step cfg) (step cfg a (.setVfTrust vf false)) es₁
    let a₂ := step cfg a₁ (.msg vf (0, msg))
    (NotPromisc a₂ vf ∧ After (step cfg) (NotPromisc · vf) a₂ es₂) ↔ NotPromisc a₁ vf := by
  intro a₁ a₂
  have huntr : (a₁.vfinfo vf).trusted = false := by
    have hstart : ((step cfg a (.setVfTrust vf false)).vfinfo vf).trusted = false := by
      rw [step, ndoSetVfTrust_trusted _ _ vf.isLt, if_pos rfl]
    have hkeep : ∀ (s : Adapter) e, (s.vfinfo vf).trusted = false → NoTrust vf e →
        ((step cfg s e).vfinfo vf).trusted = false := fun s e hs he => step_untrusted vf.isLt he hs
    exact run_inv hkeep hstart (along_of_forall _ es₁ h₁)
  have hreset : a₂.vmolr vf &&& promiscBits = a₁.vmolr vf &&& promiscBits := by
    change (rcvMsgFromVf cfg a₁ vf (0, msg)).2.vmolr vf &&& promiscBits = _
    rw [rcvMsgFromVf_reset cfg a₁ vf hmsg, vfResetMsg_vmolr, vfResetEvent_vmolr_self vf.isLt,
      restoredVmolr_promisc, defaultVmolr_promisc]
  refine ⟨fun h => hreset.symm.trans h.1, fun h => ?_⟩
  have hinv : (a₂.vfinfo vf).trusted = false ∧ NotPromisc a₂ vf :=
    ⟨step_untrusted vf.isLt (e := .msg vf (0, msg)) trivial huntr, hreset.trans h⟩
  have hkeep : ∀ s e, ((s.vfinfo vf).trusted = false ∧ NotPromisc s vf) →
      (NoTrust vf e ∧ CleanReset vf e) →
      ((step cfg s e).vfinfo vf).trusted = false ∧ NotPromisc (step cfg s e) vf :=
    fun s e hs he => ⟨step_untrusted vf.isLt he.1 hs.1, hs.2.step vf.isLt hs.1 he.2⟩
  exact ⟨hinv.2, after_of_inv hkeep (fun s hs => hs.2) hinv (along_of_forall _ es₂ h₂)⟩

/-- The messages by which a VF gets mode `allmulti`: reset, API version 1.3, the mode. -/
def allmultiMsgs : List MsgBuf :=
  [fun _ => vfReset, fun i => if i = 0 then 8 else 4, fun i => if i = 0 then 12 else 2]

/-- The VF of `oneVfAdapterCfg`, trusted and in mode `allmulti`. -/
def trustedAllmulti : Adapter :=
  run (step oneVfAdapterCfg) (enabledAdapter oneVfAdapterCfg 0x0250)
    (.setVfTrust 0 true :: allmultiMsgs.map fun m => .msg oneVf (0, m))

theorem revoked_trust_quiet_vf :
    let cfg := oneVfAdapterCfg
    let a := step cfg (enabledAdapter cfg 0x0250) (.setVfTrust 0 true)
    NotPromisc (step cfg (step cfg a (.setVfTrust 0 false))
      (.msg oneVf (0, fun _ => vfReset))) 0 := by
  intro cfg a
  exact ((revoked_trust_iff cfg a oneVf [] (by simp) (fun _ => vfReset) rfl []
    (by simp)).mpr (by decide +kernel)).1

/-- It is in mode `allmulti` when its trust is revoked; after its reset `MPE` is still set. -/
theorem promisc_survives_revocation :
    let cfg := oneVfAdapterCfg
    let a := step cfg trustedAllmulti (.setVfTrust 0 false)
    (trustedAllmulti.vfinfo 0).trusted = true ∧ (a.vfinfo 0).trusted = false ∧
      ¬ NotPromisc (step cfg a (.msg oneVf (0, fun _ => vfReset))) 0 := by
  decide +kernel

end Ixgbe
