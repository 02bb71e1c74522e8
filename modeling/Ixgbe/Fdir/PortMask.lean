import Ixgbe.Fdir.Filter

/-! # The mask of the ports

The value of `FDIRTCPM` (`ixgbe_get_fdirtcpm_82599` in `ixgbe_82599.c`). Each of its four swaps
moves bit `i` to `i ^^^ k`, so that all of them reverse the bits of each half. -/

namespace Ixgbe

open BitVec

def swapStep (k : ℕ) (lo hi x : U32) : U32 := ((x &&& lo) <<< k) ||| ((x &&& hi) >>> k)

def swapBits (mask : U32) : U32 :=
  let mask := swapStep 1 0x55555555 0xAAAAAAAA mask
  let mask := swapStep 2 0x33333333 0xCCCCCCCC mask
  let mask := swapStep 4 0x0F0F0F0F 0xF0F0F0F0 mask
  swapStep 8 0x00FF00FF 0xFF00FF00 mask

def getFdirtcpm82599 (inputMask : AtrInput) : U32 :=
  let mask : U32 := (ntohs inputMask.dstPort).setWidth 32 <<< 16
  swapBits (mask ||| (ntohs inputMask.srcPort).setWidth 32)

/-- Bit `i` comes from above by one mask, or from below by the other. -/
def SwapMasks (k : ℕ) (lo hi : U32) : Prop :=
  ∀ i < 32, (i ^^^ k = i + k ∧ hi.getLsbD (i + k) = true ∧ (k ≤ i → lo.getLsbD (i - k) = false)) ∨
    (i ^^^ k = i - k ∧ hi.getLsbD (i + k) = false ∧ k ≤ i ∧ lo.getLsbD (i - k) = true)

instance (k : ℕ) (lo hi : U32) : Decidable (SwapMasks k lo hi) :=
  inferInstanceAs (Decidable (∀ i < 32, _))

theorem getLsbD_swapStep {k : ℕ} {lo hi : U32} (h : SwapMasks k lo hi) (x : U32) {i : ℕ}
    (hi32 : i < 32) : (swapStep k lo hi x).getLsbD i = x.getLsbD (i ^^^ k) := by
  rw [swapStep, getLsbD_or, getLsbD_shiftLeft, getLsbD_ushiftRight,
    getLsbD_and, getLsbD_and, Nat.add_comm k i]
  obtain ⟨hxor, hhi, hlo⟩ | ⟨hxor, hhi, hle, hlo⟩ := h i hi32
  · rw [hxor, hhi]
    by_cases hle : k ≤ i
    · simp [hlo hle]
    · simp [show i < k by omega]
  · rw [hxor, hhi, hlo]
    simp [hi32, hle]

theorem getLsbD_swapBits (x : U32) {i : ℕ} (hi : i < 32) :
    (swapBits x).getLsbD i = x.getLsbD (i ^^^ 15) := by
  have hlt : ∀ {j k : ℕ}, j < 32 → k < 32 → j ^^^ k < 32 := Nat.xor_lt_two_pow (n := 5)
  have h8 := hlt hi (show 8 < 32 by decide)
  have h4 := hlt h8 (show 4 < 32 by decide)
  have h2 := hlt h4 (show 2 < 32 by decide)
  rw [swapBits, getLsbD_swapStep (by decide) _ hi, getLsbD_swapStep (by decide) _ h8,
    getLsbD_swapStep (by decide) _ h4, getLsbD_swapStep (by decide) _ h2, Nat.xor_assoc,
    Nat.xor_assoc, Nat.xor_assoc]
  rfl

theorem swapBits_swapBits (x : U32) : swapBits (swapBits x) = x := by
  refine eq_of_getLsbD_eq fun i hi => ?_
  have hlt : i ^^^ 15 < 32 := Nat.xor_lt_two_pow (n := 5) hi (by decide)
  rw [getLsbD_swapBits _ hi, getLsbD_swapBits _ hlt, Nat.xor_assoc, Nat.xor_self, Nat.xor_zero]

theorem swapBits_append (x y : U16) :
    swapBits (x ++ y : U32) = (x.reverse ++ y.reverse : U32) := by
  refine eq_of_getLsbD_eq fun i hi => ?_
  have hxor : ∀ i < 32, i ^^^ 15 = if i < 16 then 15 - i else 47 - i := by decide
  rw [getLsbD_swapBits _ hi, hxor i hi, getLsbD_append, getLsbD_append,
    getLsbD_reverse, getLsbD_reverse, getMsbD_eq_getLsbD, getMsbD_eq_getLsbD]
  by_cases hlow : i < 16
  · simp [hlow, show 15 - i < 16 by omega]
  · simp [hlow, show ¬ 47 - i < 16 by omega, show i - 16 < 16 by omega,
      show 47 - i - 16 = 15 - (i - 16) by omega]

theorem shiftLeft_or_eq_append (x y : U16) :
    (x.setWidth 32 <<< 16 ||| y.setWidth 32 : U32) = (x ++ y : U32) := by
  refine eq_of_getLsbD_eq fun i hi => ?_
  rw [getLsbD_or, getLsbD_shiftLeft, getLsbD_setWidth, getLsbD_setWidth, getLsbD_append]
  by_cases hlow : i < 16
  · simp [hlow, hi]
  · simp [hlow, hi, getLsbD_of_ge y i (by omega), show i - 16 < 32 by omega]

theorem ntohs_ntohs (x : U16) : ntohs (ntohs x) = x := by
  refine eq_of_getLsbD_eq fun i hi => ?_
  simp only [ntohs, getLsbD_or, getLsbD_shiftLeft, getLsbD_ushiftRight]
  have hge : x.getLsbD (8 + (8 + i)) = false := getLsbD_of_ge x _ (by omega)
  by_cases hlow : i < 8
  · simp [hlow, hge, show 8 + i < 16 by omega]
  · simp [hlow, hge, hi, show ¬ 8 + i < 16 by omega, show 8 + (i - 8) = i by omega,
      show ¬ 8 ≤ i - 8 by omega]

theorem append_halves_iff (x y z w : U16) : (x ++ y : U32) = (z ++ w : U32) ↔ x = z ∧ y = w := by
  refine ⟨fun h => ⟨?_, ?_⟩, fun ⟨hx, hy⟩ => by rw [hx, hy]⟩
  · have hleft := congrArg (extractLsb' 16 16) h
    rwa [extractLsb'_append_eq_left, extractLsb'_append_eq_left] at hleft
  · have hright := congrArg (extractLsb' 0 16) h
    rwa [extractLsb'_append_eq_right, extractLsb'_append_eq_right] at hright

theorem getFdirtcpm82599_eq (m : AtrInput) :
    getFdirtcpm82599 m = swapBits (ntohs m.dstPort ++ ntohs m.srcPort : U32) := by
  rw [getFdirtcpm82599, shiftLeft_or_eq_append]

/-- Both masks in host order, each with its bits reversed. The value determines the masks, and the
same swaps restore them. -/
theorem getFdirtcpm82599_reverses (m m' : AtrInput) :
    getFdirtcpm82599 m = ((ntohs m.dstPort).reverse ++ (ntohs m.srcPort).reverse : U32) ∧
      (getFdirtcpm82599 m = getFdirtcpm82599 m' ↔
        m.dstPort = m'.dstPort ∧ m.srcPort = m'.srcPort) ∧
      swapBits (getFdirtcpm82599 m) = (ntohs m.dstPort ++ ntohs m.srcPort : U32) := by
  have hswap : Function.Involutive swapBits := swapBits_swapBits
  have hntohs : Function.Involutive ntohs := ntohs_ntohs
  simp only [getFdirtcpm82599_eq]
  refine ⟨swapBits_append .., ?_, hswap _⟩
  rw [hswap.injective.eq_iff, append_halves_iff]
  exact and_congr hntohs.injective.eq_iff hntohs.injective.eq_iff

end Ixgbe
