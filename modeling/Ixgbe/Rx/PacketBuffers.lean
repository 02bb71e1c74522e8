import Ixgbe.Hw.Basic
import Mathlib.Tactic.IntervalCases
import Mathlib.Algebra.BigOperators.Group.Finset.Basic

/-! # Packet buffers, water marks and pause

`ixgbe_set_rxpba_generic` (`ixgbe_common.c`) divides the receive memory, `ixgbe_pbthresh_setup`
(`ixgbe_main.c`) computes the marks, in KB. -/

namespace Ixgbe

inductive PbaStrategy
  | equal
  | weighted
  deriving DecidableEq, Repr

/-- Which only the weighted strategy has. -/
def PbaStrategy.half (s : PbaStrategy) (numPb : ℕ) : ℕ := if s = .weighted then numPb / 2 else 0

/-- `IXGBE_RXPBSIZE_SHIFT` is 10. -/
def setRxpbaGeneric (rxPbSize numPb headroom : ℕ) (s : PbaStrategy) (i : ℕ) : ℕ :=
  let pbsize := rxPbSize - headroom
  let numPb := if numPb = 0 then 1 else numPb
  let first := pbsize * 5 / (numPb * 4)
  let rest := (pbsize - first * s.half numPb) / (numPb - s.half numPb)
  if i < s.half numPb then first <<< 10 else if i < numPb then rest <<< 10 else 0

def rxPba (rxpbsize : ℕ → ℕ) (i : ℕ) : ℕ := rxpbsize i >>> 10

theorem rxPba_setRxpbaGeneric (rxPbSize headroom i : ℕ) {n : ℕ} (hn : n ≠ 0) (s : PbaStrategy) :
    rxPba (setRxpbaGeneric rxPbSize n headroom s) i =
      if i < s.half n then (rxPbSize - headroom) * 5 / (n * 4)
      else if i < n then ((rxPbSize - headroom) -
        (rxPbSize - headroom) * 5 / (n * 4) * s.half n) / (n - s.half n)
      else 0 := by
  simp only [rxPba, setRxpbaGeneric, hn, if_false]
  split_ifs <;> simp [Nat.shiftLeft_shiftRight]

/-- **The whole memory but for a rest**, and the first half weighs more. -/
theorem rxpba_split (rxPbSize headroom n : ℕ) (s : PbaStrategy) (hn : 1 ≤ n) (hmax : n ≤ 8) :
    let size := rxPba (setRxpbaGeneric rxPbSize n headroom s)
    ∑ i ∈ Finset.range n, size i ≤ rxPbSize - headroom ∧
      rxPbSize - headroom < ∑ i ∈ Finset.range n, size i + n ∧
      (∀ i, n ≤ i → setRxpbaGeneric rxPbSize n headroom s i = 0) ∧
      (s = .weighted → 4 * n ≤ rxPbSize - headroom →
        ∀ i < n / 2, ∀ j, n / 2 ≤ j → j < n → size j ≤ size i) := by
  have hn0 : n ≠ 0 := by omega
  have hhalf : s.half n ≤ n := by
    unfold PbaStrategy.half
    split_ifs <;> omega
  simp only [rxPba_setRxpbaGeneric _ _ _ hn0]
  refine ⟨?_, ?_, fun i hi => ?_, ?_⟩
  · cases s <;> interval_cases n <;> simp [PbaStrategy.half, Finset.sum_range_succ] <;> omega
  · cases s <;> interval_cases n <;> simp [PbaStrategy.half, Finset.sum_range_succ] <;> omega
  · simp only [setRxpbaGeneric, hn0, if_false]
    rw [if_neg (by omega), if_neg (by omega)]
  · rintro rfl hp i hi j hj hjn
    simp only [PbaStrategy.half, if_true]
    rw [if_neg (by omega), if_pos hjn, if_pos hi]
    interval_cases n <;> omega

theorem rxpba_split_of_three :
    ∑ i ∈ Finset.range 3, rxPba (setRxpbaGeneric 512 3 32 .weighted) i ≤ 480 :=
  (rxpba_split 512 32 3 .weighted (by decide) (by decide)).1

structure PbEnv where
  mac : MacType
  mtu : ℕ
  sriov : Bool
  /-- The class is that of FCoE, and FCoE frames may be longer than the MTU. -/
  fcoe : ℕ → Bool

section

variable (env : PbEnv) (pb : ℕ)

def bt2kb (bt : ℕ) : ℕ := (bt + (8 * 1024 - 1)) / (8 * 1024)

def PbEnv.x540 : Bool := env.mac != .mac82599EB

/-- `IXGBE_FCOE_JUMBO_FRAME_SIZE` for the class of FCoE. -/
def PbEnv.tc (size pb : ℕ) : ℕ := if env.fcoe pb ∧ size < 3072 then 3072 else size

/-- `IXGBE_DV_X540` and `IXGBE_DV`, which differ in the delay of the interface. -/
def dv (id link tc : ℕ) : ℕ :=
  36 * (link * 8 + 672 + 2 * 5556 + 2 * id + 6144) / 25 + 1 + 2 * (tc * 8)

def headroomKb : ℕ :=
  let link := env.mtu + 14 + 4 + 20
  let tc := env.tc link pb
  let dvId := dv (if env.x540 then 8192 + 2 * 2048 + 25600 else 4096 + 2 * 1024 + 12800) link tc
  bt2kb (if env.sriov then dvId + tc * 8 else dvId)

def hpbthresh (rxpbsize : ℕ → ℕ) (pb : ℕ) : ℕ :=
  let kb := headroomKb env pb
  if rxPba rxpbsize pb < kb then env.tc (env.mtu + 14 + 4 + 20) pb + 1 else rxPba rxpbsize pb - kb

def lpbthresh : ℕ :=
  let dvId := 2 * (env.tc (env.mtu + 14 + 4) pb * 8) + 36 * 10000 / 25 + 1
  bt2kb (if env.x540 then dvId else 2 * dvId)

/-- The low mark of a class that is not in use stays what it was. -/
def pbthreshMarks (rxpbsize : ℕ → ℕ) (numTc : ℕ) (old : ℕ → ℕ) (i : ℕ) : ℕ × ℕ :=
  if i < (if numTc = 0 then 1 else numTc) then
    let high := hpbthresh env rxpbsize i
    let low := lpbthresh env i
    (high, if low > high then 0 else low)
  else (0, old i)

/-- The water marks are refused by `ixgbe_fc_enable_generic` with Tx pause. -/
def fcEnableRefuses (marks : ℕ → ℕ × ℕ) : Bool :=
  (List.range 8).any fun i =>
    (marks i).1 != 0 && ((marks i).2 == 0 || decide ((marks i).1 ≤ (marks i).2))

def WaterMarksUsable (rxpbsize : ℕ → ℕ) (numTc : ℕ) (marks : ℕ → ℕ × ℕ) : Prop :=
  (∀ i < numTc, (marks i).1 ≤ rxPba rxpbsize i ∧
    ((marks i).1 = 0 ∨ 0 < (marks i).2 ∧ (marks i).2 < (marks i).1)) ∧
    fcEnableRefuses marks = false

theorem headroomKb_le (hmtu : 68 ≤ env.mtu) :
    headroomKb env pb ≤ env.tc (env.mtu + 14 + 4 + 20) pb := by
  unfold headroomKb dv bt2kb PbEnv.tc
  dsimp only
  split_ifs <;> omega

theorem lpbthresh_pos : 0 < lpbthresh env pb := by
  unfold lpbthresh bt2kb
  dsimp only
  split_ifs <;> omega

end

/-- **The marks are usable iff every class has room for its headroom**, and either for nothing more
or for more than the low mark. -/
theorem water_marks_usable_iff (env : PbEnv) (rxpbsize old : ℕ → ℕ) (n : ℕ) (hn : 1 ≤ n)
    (hmax : n ≤ 8) (hmtu : 68 ≤ env.mtu) :
    WaterMarksUsable rxpbsize n (pbthreshMarks env rxpbsize n old) ↔
      ∀ i < n, rxPba rxpbsize i = headroomKb env i ∨
        headroomKb env i + lpbthresh env i < rxPba rxpbsize i := by
  have hone : ∀ i < n, ((pbthreshMarks env rxpbsize n old i).1 ≤ rxPba rxpbsize i ∧
      ((pbthreshMarks env rxpbsize n old i).1 = 0 ∨ 0 < (pbthreshMarks env rxpbsize n old i).2 ∧
        (pbthreshMarks env rxpbsize n old i).2 < (pbthreshMarks env rxpbsize n old i).1)) ↔
      (rxPba rxpbsize i = headroomKb env i ∨
        headroomKb env i + lpbthresh env i < rxPba rxpbsize i) := by
    intro i hi
    have hle := headroomKb_le env i hmtu
    have hpos := lpbthresh_pos env i
    simp only [pbthreshMarks, hpbthresh, if_neg (by omega : n ≠ 0), if_pos hi]
    split_ifs <;> omega
  rw [WaterMarksUsable, ← forall₂_congr hone, and_iff_left_iff_imp]
  intro h
  rw [fcEnableRefuses, List.any_eq_false]
  intro i _
  rcases Nat.lt_or_ge i n with hi | hi
  · rcases (h i hi).2 with h0 | ⟨hlow, hlt⟩
    · simp [h0]
    · simp [hlow.ne', hlt]
  · have hnot : ¬ i < n := by omega
    simp [pbthreshMarks, if_neg (by omega : n ≠ 0), hnot]

theorem water_marks_usable_one : WaterMarksUsable (setRxpbaGeneric 512 1 0 .equal) 1
    (pbthreshMarks ⟨.mac82599EB, 1500, false, fun _ => false⟩ (setRxpbaGeneric 512 1 0 .equal) 1
      fun _ => 0) :=
  (water_marks_usable_iff _ _ _ 1 (by decide) (by decide) (by decide)).2 (by decide)

/-- 64 KB each, less a headroom of 43 KB: the low mark of 42 KB is above the 21 KB left. -/
theorem water_marks_refused : fcEnableRefuses
    (pbthreshMarks ⟨.mac82599EB, 9710, false, fun _ => false⟩ (setRxpbaGeneric 512 8 0 .equal) 8
      fun _ => 0) = true := by
  decide

end Ixgbe
