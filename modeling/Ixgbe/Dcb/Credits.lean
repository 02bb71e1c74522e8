import Ixgbe.Dcb.Config
import Ixgbe.Fdir.Filter
import Mathlib.Algebra.BigOperators.Group.Finset.Basic

/-! # The rules of CEE and the credits

`ixgbe_dcb_check_config_cee` (`ixgbe_dcb.c`) adds up percentages in bytes, so it takes a sum of 356
for one of 100. -/

namespace Ixgbe

open BitVec

section

variable (cfg : DcbConfig) (dir : DcbDir)

/-- `tsa` 2 is strict. The sums and the strict groups so far, none for an error. -/
def checkTc (p : DcbTcPath) (st : (ℕ → U8) × (ℕ → Bool)) : Option ((ℕ → U8) × (ℕ → Bool)) :=
  let bwId := p.bwgId.toNat
  let bwSum := Function.update st.1 bwId (st.1 bwId + p.bwgPercent)
  if 8 ≤ bwId then none
  else if p.tsa = 2 then
    if p.bwgPercent ≠ 0 then none else some (bwSum, Function.update st.2 bwId true)
  else if p.bwgPercent = 0 then none
  else some (bwSum, st.2)

def checkTcs (cfg : DcbConfig) (dir : DcbDir) : ℕ → Option ((ℕ → U8) × (ℕ → Bool))
  | 0 => some (fun _ => 0, fun _ => false)
  | n + 1 => (checkTcs cfg dir n).bind (checkTc ((cfg.tcConfig n).path dir))

def groupsBw (cfg : DcbConfig) (dir : DcbDir) : ℕ → U8
  | 0 => 0
  | n + 1 => groupsBw cfg dir n + cfg.bwPercentage dir n

def checkDir : Bool :=
  match checkTcs cfg dir 8 with
  | none => false
  | some (bwSum, linkStrict) =>
    (List.range 8).all (fun j =>
      if linkStrict j then bwSum j == 0 else bwSum j == 100 || bwSum j == 0) &&
    groupsBw cfg dir 8 == 100

def dcbCheckConfigCee : ℤ :=
  if checkDir cfg .tx && checkDir cfg .rx then success else errConfig

def groupTotal : ℕ :=
  ∑ j ∈ Finset.range 8, (cfg.bwPercentage dir j).toNat

/-- The exact sum over the first `n` classes, of those in group `g`. -/
def classTotal (g n : ℕ) : ℕ :=
  ∑ j ∈ Finset.range n, if ((cfg.tcConfig j).path dir).bwgId.toNat = g then
    ((cfg.tcConfig j).path dir).bwgPercent.toNat else 0

theorem checkTcs_sum {cfg : DcbConfig} {dir : DcbDir} {n : ℕ} {st : (ℕ → U8) × (ℕ → Bool)}
    (h : checkTcs cfg dir n = some st) (g : ℕ) :
    (st.1 g).toNat = classTotal cfg dir g n % 256 := by
  induction n generalizing st with
  | zero =>
    cases h
    simp [classTotal]
  | succ n ih =>
    rw [checkTcs, Option.bind_eq_some_iff] at h
    obtain ⟨st', hst', h⟩ := h
    have hsum : st.1 = Function.update st'.1 ((cfg.tcConfig n).path dir).bwgId.toNat
        (st'.1 ((cfg.tcConfig n).path dir).bwgId.toNat +
          ((cfg.tcConfig n).path dir).bwgPercent) := by
      unfold checkTc at h
      dsimp only at h
      split_ifs at h <;> cases h <;> rfl
    have := ih hst'
    rw [classTotal, Finset.sum_range_succ, ← classTotal, hsum]
    by_cases hg : ((cfg.tcConfig n).path dir).bwgId.toNat = g
    · simp only [hg, Function.update_self, toNat_add, if_true]
      omega
    · rw [Function.update_of_ne (Ne.symm hg), if_neg hg, this]
      rfl

theorem groupsBw_eq (n : ℕ) : (groupsBw cfg dir n).toNat =
    (∑ j ∈ Finset.range n, (cfg.bwPercentage dir j).toNat) % 256 := by
  induction n with
  | zero => rfl
  | succ n ih => rw [groupsBw, toNat_add, ih, Finset.sum_range_succ, Nat.mod_add_mod]

end

theorem checkDir_sums {cfg : DcbConfig} {dir : DcbDir} (h : checkDir cfg dir = true) :
    groupTotal cfg dir % 256 = 100 ∧
      ∀ g < 8, classTotal cfg dir g 8 % 256 = 100 ∨ classTotal cfg dir g 8 % 256 = 0 := by
  unfold checkDir at h
  split at h
  · cases h
  · rename_i bwSum linkStrict hst
    rw [Bool.and_eq_true, List.all_eq_true] at h
    obtain ⟨hgroups, htotal⟩ := h
    refine ⟨?_, fun g hg => ?_⟩
    · rw [groupTotal, ← groupsBw_eq, eq_of_beq htotal]
      rfl
    · rw [← checkTcs_sum hst]
      have := hgroups g (List.mem_range.mpr hg)
      split_ifs at this
      · simp_all
      · rcases Bool.or_eq_true_iff.mp this with h | h
        · simp_all
        · simp_all

/-- **An accepted configuration has the right sums if and only if none of them wraps.** -/
theorem cee_sums_exact_iff (cfg : DcbConfig) (h : dcbCheckConfigCee cfg = success) :
    (∀ dir, groupTotal cfg dir = 100 ∧
      ∀ g < 8, classTotal cfg dir g 8 = 100 ∨ classTotal cfg dir g 8 = 0) ↔
    ∀ dir, groupTotal cfg dir < 256 ∧ ∀ g < 8, classTotal cfg dir g 8 < 256 := by
  have hdirs : checkDir cfg .tx = true ∧ checkDir cfg .rx = true := by
    rw [← Bool.and_eq_true]
    by_contra hno
    rw [dcbCheckConfigCee, if_neg hno] at h
    exact absurd h (by decide)
  have hsums : ∀ dir, groupTotal cfg dir % 256 = 100 ∧
      ∀ g < 8, classTotal cfg dir g 8 % 256 = 100 ∨ classTotal cfg dir g 8 % 256 = 0 := by
    rintro (_ | _)
    · exact checkDir_sums hdirs.1
    · exact checkDir_sums hdirs.2
  refine forall_congr' fun dir => and_congr ?_ (forall₂_congr fun g hg => ?_)
  · have := (hsums dir).1
    omega
  · have := (hsums dir).2 g hg
    omega

def twoGroups (a b : U8) : DcbConfig where
  tcConfig i := ⟨fun _ => if i = 0 then ⟨0, 0, 100, 1, 0, 0, 0⟩ else ⟨2, 1, 0, 0, 0, 0, 0⟩, 0, 0⟩
  bwPercentage _ j := if j = 0 then a else if j = 1 then b else 0
  pgTcs := 8
  pfcTcs := 8
  pfcModeEnable := false

theorem cee_sums_exact_two : groupTotal (twoGroups 60 40) .tx < 256 ∧
    ∀ g < 8, classTotal (twoGroups 60 40) .tx g 8 < 256 :=
  (cee_sums_exact_iff (twoGroups 60 40) (by decide)).1 (fun dir => by cases dir <;> decide) .tx

theorem cee_sum_356_accepted :
    dcbCheckConfigCee (twoGroups 255 101) = success ∧ groupTotal (twoGroups 255 101) .tx = 356 := by
  decide

/-- Half a frame, in units of `IXGBE_DCB_CREDIT_QUANTUM`. -/
def minCredit (maxFrameSize : ℕ) : ℕ := (maxFrameSize / 2 + 64 - 1) / 64

theorem minCredit_le {f : ℕ} (hf : f ≤ 16384) : minCredit f ≤ 128 := by
  unfold minCredit
  omega

def minPercent (bw : ℕ → U8) : ℕ :=
  (List.range 8).foldl (fun m i => if (bw i).toNat < m ∧ bw i ≠ 0 then (bw i).toNat else m) 100

def dcbCalculateTcCredits (bw : ℕ → U8) (maxFrameSize i : ℕ) : U16 × U16 :=
  let multiplier := minCredit maxFrameSize / minPercent bw + 1
  let val := min ((bw i).toNat * multiplier) 511
  (BitVec.ofNat 16 (if val < minCredit maxFrameSize then minCredit maxFrameSize else val),
    BitVec.ofNat 16 (if bw i ≠ 0 then (bw i).toNat * 4095 / 100 else minCredit maxFrameSize))

/-- **The credits carry a frame**, within the two limits, and grow with the percentage. -/
structure CreditsCarry (least : ℕ) (percent : ℕ → U8) (refill credit : ℕ → U16) : Prop where
  refill_bounds : ∀ i < 8, least ≤ (refill i).toNat ∧ (refill i).toNat ≤ 511
  credit_bounds : ∀ i < 8, least ≤ (credit i).toNat ∧ (credit i).toNat ≤ 4095
  mono : ∀ i < 8, ∀ j < 8, (percent i).toNat ≤ (percent j).toNat →
    (refill i).toNat ≤ (refill j).toNat ∧ (credit i).toNat ≤ (credit j).toNat

theorem ieee_credits_carry_iff {f : ℕ} (hf : f ≤ 16384) {bw : ℕ → U8}
    (hbw : ∀ i < 8, (bw i).toNat ≤ 100) :
    CreditsCarry (minCredit f) bw (fun i => (dcbCalculateTcCredits bw f i).1)
        (fun i => (dcbCalculateTcCredits bw f i).2) ↔
      ∀ i < 8, bw i ≠ 0 → minCredit f ≤ (bw i).toNat * 4095 / 100 := by
  have hmin := minCredit_le hf
  have hrefill : ∀ i, (dcbCalculateTcCredits bw f i).1.toNat =
      max (min ((bw i).toNat * (minCredit f / minPercent bw + 1)) 511) (minCredit f) := by
    intro i
    simp only [dcbCalculateTcCredits, toNat_ofNat]
    split_ifs <;> omega
  have hcredit : ∀ i < 8, (dcbCalculateTcCredits bw f i).2.toNat =
      if bw i ≠ 0 then (bw i).toNat * 4095 / 100 else minCredit f := by
    intro i hi
    simp only [dcbCalculateTcCredits, toNat_ofNat]
    split_ifs <;> omega
  constructor
  · intro h i hi hne
    have := (h.credit_bounds i hi).1
    rwa [hcredit i hi, if_pos hne] at this
  · intro h
    refine ⟨fun i _ => ?_, fun i hi => ?_, fun i hi j hj hij => ⟨?_, ?_⟩⟩
    · simp only [hrefill]
      omega
    · have hle := hbw i hi
      have hge := h i hi
      simp only [hcredit i hi]
      split_ifs with hne
      · exact ⟨hge hne, by omega⟩
      · omega
    · have := Nat.mul_le_mul_right (minCredit f / minPercent bw + 1) hij
      simp only [hrefill]
      omega
    · have hge := h j hj
      simp only [hcredit i hi, hcredit j hj]
      split_ifs with hi0 hj0 hj0
      · omega
      · exact absurd (eq_of_toNat_eq (by simp_all)) hi0
      · exact hge hj0
      · exact le_rfl

theorem cee_credits_carry_iff {f : ℕ} (hf : f ≤ 16384) (cfg : DcbConfig) (dir : DcbDir) :
    let p := fun i => ((dcbCalculateTcCreditsCee cfg f dir).val.tcConfig i).path dir
    CreditsCarry (minCredit f) (fun i => (p i).linkPercent) (fun i => (p i).dataCreditsRefill)
        (fun i => (p i).dataCreditsMax) ↔
      ∀ i < 8, linkPercentage cfg dir i ≤ 100 := by
  intro p
  have hmin := minCredit_le hf
  -- the percentage as it is saved, which is 1 where it was rounded down to nothing
  obtain ⟨link, hlink⟩ : ∃ link : ℕ → ℕ, ∀ i, link i =
      if ((cfg.tcConfig i).path dir).bwgPercent ≠ 0 ∧ linkPercentage cfg dir i = 0 then 1
      else linkPercentage cfg dir i := ⟨_, fun _ => rfl⟩
  have hsmall : ∀ i, link i ≤ 650 := by
    intro i
    have hle := Nat.mul_le_mul (Nat.le_of_lt_succ ((cfg.tcConfig i).path dir).bwgPercent.isLt)
      (Nat.le_of_lt_succ (cfg.bwPercentage dir ((cfg.tcConfig i).path dir).bwgId.toNat).isLt)
    rw [hlink, linkPercentage]
    split_ifs <;> omega
  have hp : ∀ i < 8, (p i).linkPercent.toNat = link i % 256 ∧ (p i).dataCreditsRefill.toNat =
      max (min (link i * (minCredit f / minLinkPercentage cfg dir + 1)) 511) (minCredit f) ∧
      (p i).dataCreditsMax.toNat = max (link i * 4095 / 100) (minCredit f) := by
    intro i hi
    have hle := hsmall i
    simp only [p, dcbCalculateTcCreditsCee, Traced.val_bind, Traced.val_pure, if_pos hi,
      creditsOfTc, Function.update_self, toNat_ofNat, ← hlink]
    exact ⟨trivial, Nat.mod_eq_of_lt (by omega), Nat.mod_eq_of_lt (by omega)⟩
  constructor
  · intro h i hi
    have hle := (h.credit_bounds i hi).2
    have := hlink i
    rw [(hp i hi).2.2] at hle
    split_ifs at this <;> omega
  · intro h
    have hle : ∀ i < 8, link i ≤ 100 := by
      intro i hi
      have := h i hi
      rw [hlink]
      split_ifs <;> omega
    refine ⟨fun i hi => ?_, fun i hi => ?_, fun i hi j hj hij => ?_⟩
    · rw [(hp i hi).2.1]
      omega
    · have := hle i hi
      rw [(hp i hi).2.2]
      omega
    · have := hle i hi
      rw [(hp i hi).1, (hp j hj).1] at hij
      have hij' : link i ≤ link j := by omega
      rw [(hp i hi).2.1, (hp j hj).2.1, (hp i hi).2.2, (hp j hj).2.2]
      exact ⟨max_le_max_right _ (min_le_min_right _ (Nat.mul_le_mul_right _ hij')),
        max_le_max_right _ (Nat.div_le_div_right (Nat.mul_le_mul_right _ hij'))⟩

/-- **The credits carry a frame** if and only if no class with bandwidth has fewer than half a
frame, and none more than the link. -/
theorem credits_carry_iff (f : ℕ) (hf : f ≤ 16384) :
    (∀ bw : ℕ → U8, (∀ i < 8, (bw i).toNat ≤ 100) →
      (CreditsCarry (minCredit f) bw (fun i => (dcbCalculateTcCredits bw f i).1)
          (fun i => (dcbCalculateTcCredits bw f i).2) ↔
        ∀ i < 8, bw i ≠ 0 → minCredit f ≤ (bw i).toNat * 4095 / 100)) ∧
    ∀ cfg dir, dcbCheckConfigCee cfg = success →
      let p := fun i => ((dcbCalculateTcCreditsCee cfg f dir).val.tcConfig i).path dir
      (CreditsCarry (minCredit f) (fun i => (p i).linkPercent) (fun i => (p i).dataCreditsRefill)
          (fun i => (p i).dataCreditsMax) ↔ ∀ i < 8, linkPercentage cfg dir i ≤ 100) :=
  ⟨fun _ hbw => ieee_credits_carry_iff hf hbw, fun cfg dir _ => cee_credits_carry_iff hf cfg dir⟩

theorem credits_carry_standard : CreditsCarry (minCredit 1522) (fun _ => 12)
    (fun i => (dcbCalculateTcCredits (fun _ => 12) 1522 i).1)
    (fun i => (dcbCalculateTcCredits (fun _ => 12) 1522 i).2) :=
  ((credits_carry_iff 1522 (by decide)).1 (fun _ => 12) (by decide)).2 (by decide)

/-- One percent of the link is 40 credits, a frame needs 76; and a group with 255 percent gets
10442. -/
theorem credits_out_of_bounds :
    (dcbCalculateTcCredits (fun i => if i = 0 then 1 else 14) 9728 0).2 = 40 ∧
      minCredit 9728 = 76 ∧ dcbCheckConfigCee (twoGroups 255 101) = success ∧
      (((dcbCalculateTcCreditsCee (twoGroups 255 101) 9728 .tx).val.tcConfig 0).path
        .tx).dataCreditsMax = 10442 := by
  decide

end Ixgbe
