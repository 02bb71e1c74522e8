import Ixgbe.Sriov.MacEffects

/-! # A VF's messages do not reach the other VFs

One message leaves alone what belongs to another VF, in the filter table but for the `MODIFIED`
mark. -/

namespace Ixgbe

/-- But for the marks on its filter entries. -/
structure Isolated (w : ℕ) (a b : Adapter) : Prop where
  vfinfo : b.vfinfo w = a.vfinfo w
  /-- Up to `MODIFIED`; an entry without the mark is the same. -/
  mac : ∀ i, (a.mac.entries i).inUse = true → (a.mac.entries i).pool = w →
    b.mac.entries i = a.mac.entries i ∨ b.mac.entries i = (a.mac.entries i).synced
  mvs : ∀ i, (a.mvs i).free = false → (a.mvs i).vf = some w → b.mvs i = a.mvs i
  vlvfb : ∀ i < 64, b.vlan.regs.poolBit i w = a.vlan.regs.poolBit i w

def twoVfsCfg : AdapterCfg :=
  { oneVfAdapterCfg with
    toSriovCfg := { vmdqEnabled := true, offset := 2, numRxPools := 1, vmdq := rfl,
                    offset_pos := by decide, offset_lt := by decide } }

def twoVfsMarked : Adapter :=
  let a := enabledAdapter twoVfsCfg 0x0250
  { a with
    vfinfo := fun _ => { enableSriovVf with clearToSend := true }
    mac.entries := Function.update a.mac.entries 1 ⟨0x0251, 1, false, true, true⟩ }

/-- **Isolation.** A message of VF `vf` leaves alone what belongs to another VF. -/
theorem rcvMsgFromVf_isolated (cfg : AdapterCfg) (a : Adapter) (vf w : Fin cfg.numVfs)
    (hw : w ≠ vf) (read : ℤ × MsgBuf) : Isolated w a (rcvMsgFromVf cfg a vf read).2 := by
  obtain ⟨b, m, hb, h⟩ := rcvMsgFromVf_handled cfg a vf read
  have hwv : (w : ℕ) ≠ vf := fun hc => hw (Fin.ext hc)
  have hpool : ¬ ((w : ℕ) = cfg.pf ∨ (w : ℕ) = vf) := by
    rintro (hc | hc)
    · exact cfg.vf_ne_pf w hc
    · exact hwv hc
  obtain ⟨hmac, hmvs⟩ := hb.steps
  rw [h]
  exact
    { vfinfo := hb.modifiesVf.other hwv
      mac := fun i huse hp => hmac.sameEntry hpool huse hp
      mvs := fun i hfree hown => hmvs i hfree fun hc => hwv (Option.some.inj (hown.symm.trans hc))
      vlvfb := (hb.keeps w.isLt (Ne.symm hwv)).pools }

theorem rcvMsgFromVf_isolated_two : Isolated 1 twoVfsMarked
    (rcvMsgFromVf twoVfsCfg twoVfsMarked 0 (0, fun i => if i = 0 then 3 else 0)).2 :=
  rcvMsgFromVf_isolated twoVfsCfg twoVfsMarked ⟨0, by decide⟩ ⟨1, by decide⟩ (by decide) _

/-- The synchronisation for VF 0 clears the mark of VF 1's entry. -/
theorem modified_mark_cleared_by_other_vf :
    (twoVfsMarked.mac.entries 1).inUse = true ∧ (twoVfsMarked.mac.entries 1).pool = 1 ∧
      (rcvMsgFromVf twoVfsCfg twoVfsMarked 0 (0, fun i => if i = 0 then 3 else 0)).2.mac.entries 1 ≠
        twoVfsMarked.mac.entries 1 := by
  decide +kernel

end Ixgbe
