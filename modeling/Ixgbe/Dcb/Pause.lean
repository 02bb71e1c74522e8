import Ixgbe.Dcb.Indices
import Ixgbe.Rx.PacketBuffers

/-! # Pause enable bits

What `ixgbe_dcb_config_pfc_82599` and `ixgbe_fc_enable_generic` write to `FCRTH`. -/

namespace Ixgbe

def errInvalidLinkSettings : ℤ := -13

/-- With pause the high mark, without it the buffer size less 24 KB. -/
def fcrthOf (rxpbsize : U32) (pause : Bool) (highWater : ℕ) : U32 :=
  if pause then BitVec.ofNat 32 highWater <<< 10 ||| shl1 31 else rxpbsize - 24576

def pfcEnabled (pfcEn : BitVec 8) (map : ℕ → ℕ) (i : ℕ) : Bool :=
  (List.range 8).any fun j => map j == i && pfcEn.getLsbD j

def dcbConfigPfcFcrth (rxpbsize : ℕ → U32) (highWater : ℕ → ℕ) (pfcEn : BitVec 8) (map : ℕ → ℕ)
    (i : ℕ) : U32 :=
  if i ≤ maxTcOf map then fcrthOf (rxpbsize i) (pfcEnabled pfcEn map i) (highWater i) else 0

def txPause (mode : ℕ) : Bool := mode.testBit 1

/-- `negotiated` is the mode that `fc_autoneg` leaves. -/
def fcEnableGeneric (rxpbsize fcrth : ℕ → U32) (marks : ℕ → ℕ × ℕ)
    (pauseTime mode negotiated : ℕ) : ℤ × (ℕ → U32) :=
  if pauseTime = 0 ∨ (txPause mode && fcEnableRefuses marks) = true then
    (errInvalidLinkSettings, fcrth)
  else if negotiated > 3 then (errConfig, fcrth)
  else (success, fun i =>
    fcrthOf (rxpbsize i) (txPause negotiated && (marks i).1 != 0) (marks i).1)

/-- The buffer size less 24 KB has bit 31 clear. -/
def HighWaterFits (rxpbsize : U32) : Prop :=
  24576 ≤ rxpbsize.toNat ∧ rxpbsize.toNat < 2 ^ 31 + 24576

theorem fcen_fcrthOf_iff (rxpbsize : U32) (pause : Bool) (highWater : ℕ) :
    ((fcrthOf rxpbsize pause highWater).getLsbD 31 = true ↔ pause = true) ↔
      (pause = false → HighWaterFits rxpbsize) := by
  cases pause with
  | true => simp [fcrthOf]
  | false =>
    have hmsb := BitVec.msb_eq_decide (rxpbsize - 24576#32)
    rw [BitVec.msb_eq_getLsbD_last, BitVec.toNat_sub] at hmsb
    have hoff : fcrthOf rxpbsize false highWater = rxpbsize - 24576#32 := rfl
    rw [hoff, show 31 = 32 - 1 from rfl, hmsb, HighWaterFits]
    simp
    omega

theorem pfcEnabled_iff (pfcEn : BitVec 8) (map : ℕ → ℕ) (i : ℕ) :
    pfcEnabled pfcEn map i = true ↔ ∃ j < 8, map j = i ∧ pfcEn.getLsbD j = true := by
  simp [pfcEnabled]

/-- **`FCEN` is exact if and only if every class without pause has a buffer of 24 KB or more**, up
to the largest class of the map with priority flow control. -/
theorem pause_enable_exact_iff (rxpbsize fcrth : ℕ → U32) (marks : ℕ → ℕ × ℕ) (pfcEn : BitVec 8)
    (map : ℕ → ℕ) (pauseTime mode negotiated : ℕ) :
    ((∀ i < 8, (dcbConfigPfcFcrth rxpbsize (fun i => (marks i).1) pfcEn map i).getLsbD 31 = true ↔
        ∃ j < 8, map j = i ∧ pfcEn.getLsbD j = true) ↔
      ∀ i < 8, i ≤ maxTcOf map → ¬ (∃ j < 8, map j = i ∧ pfcEn.getLsbD j = true) →
        HighWaterFits (rxpbsize i)) ∧
    ((fcEnableGeneric rxpbsize fcrth marks pauseTime mode negotiated).1 = success →
      ((∀ i < 8,
        ((fcEnableGeneric rxpbsize fcrth marks pauseTime mode negotiated).2 i).getLsbD 31 = true ↔
          txPause negotiated = true ∧ (marks i).1 ≠ 0) ↔
      ∀ i < 8, ¬ (txPause negotiated = true ∧ (marks i).1 ≠ 0) → HighWaterFits (rxpbsize i))) := by
  refine ⟨forall₂_congr fun i _ => ?_, fun hok => forall₂_congr fun i _ => ?_⟩
  · rw [← pfcEnabled_iff, dcbConfigPfcFcrth]
    by_cases hi : i ≤ maxTcOf map
    · rw [if_pos hi, fcen_fcrthOf_iff]
      simp [hi]
    · -- a class above the largest of the map has no priority, and its register is cleared
      have hnone : ¬ pfcEnabled pfcEn map i = true := fun h => by
        obtain ⟨j, hj, rfl, -⟩ := (pfcEnabled_iff ..).mp h
        exact hi (le_maxTcOf map hj)
      simp [hi, hnone]
  · have hpause : txPause negotiated = true ∧ (marks i).1 ≠ 0 ↔
        (txPause negotiated && (marks i).1 != 0) = true := by simp
    rw [hpause, Bool.not_eq_true, ← fcen_fcrthOf_iff _ _ (marks i).1]
    unfold fcEnableGeneric at hok ⊢
    split_ifs at hok ⊢
    · exact absurd (show errInvalidLinkSettings = success from hok) (by decide)
    · exact absurd (show errConfig = success from hok) (by decide)
    · rfl

/-- Eight buffers of 64 KB, no class with pause. -/
theorem pause_enable_exact_eight :
    let r := fcEnableGeneric (fun i => .ofNat 32 (setRxpbaGeneric 512 8 0 .equal i)) (fun _ => 0)
      (fun _ => (0, 0)) 1 0 0
    r.1 = success ∧ ∀ i < 8, (r.2 i).getLsbD 31 = true ↔ txPause 0 = true ∧ 0 ≠ 0 :=
  ⟨by decide, ((pause_enable_exact_iff _ _ _ 0 (fun _ => 0) 1 0 0).2 (by decide)).mpr
    fun i hi _ => by unfold HighWaterFits; revert i; decide⟩

/-- Eight buffers of 16 KB: class 0 has no pause, and its `FCEN` is set. -/
theorem pause_enable_small_buffers :
    (dcbConfigPfcFcrth (fun i => .ofNat 32 (setRxpbaGeneric 384 8 256 .equal i)) (fun _ => 0) 0 id
      0).getLsbD 31 = true ∧ ¬ ∃ j < 8, id j = 0 ∧ (0 : BitVec 8).getLsbD j = true := by
  decide

end Ixgbe
