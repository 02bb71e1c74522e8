import Mathlib.Data.BitVec

/-! # The pseudo-header checksum of the FreeBSD port

`ixgbe_csum_tcpudp_magic` (`ixgbe_oal.c`) adds in 32 bits, where a carry is lost, and complements
all 32 bits of the folded sum. -/

namespace Ixgbe.Oal

open BitVec

/-- `htons` of a little-endian host. -/
def htons (x : BitVec 16) : BitVec 16 := x <<< 8 ||| x >>> 8

/-- The accumulator before it is folded. -/
def pseudoSum (saddr daddr : BitVec 32) (len proto : BitVec 16) (sum : BitVec 32) : BitVec 32 :=
  sum + (htons len).setWidth 32 + (htons proto).setWidth 32 +
    ((saddr &&& 0xFFFF#32) + saddr >>> 16) + ((daddr &&& 0xFFFF#32) + daddr >>> 16)

/-- The loop `while (sum >> 16)`. -/
def foldSum (sum : Nat) : Nat :=
  if sum / 65536 = 0 then sum else foldSum (sum % 65536 + sum / 65536)
termination_by sum
decreasing_by omega

def csumTcpudpMagic (saddr daddr : BitVec 32) (len proto : BitVec 16) (sum : BitVec 32) :
    BitVec 32 :=
  ~~~BitVec.ofNat 32 (foldSum (pseudoSum saddr daddr len proto sum).toNat)

def halves (x : BitVec 32) : Nat := x.toNat % 65536 + x.toNat / 65536

/-- What the accumulator adds, in exact arithmetic. -/
def addends (saddr daddr : BitVec 32) (len proto : BitVec 16) : Nat :=
  (htons len).toNat + (htons proto).toNat + halves saddr + halves daddr

/-- `c` is a 16-bit checksum of words that add up to `total`. -/
def IsChecksum (c total : Nat) : Prop :=
  c < 2 ^ 16 ∧ (0xFFFF - c) % 0xFFFF = total % 0xFFFF ∧ (0xFFFF - c = 0 → total = 0)

theorem foldSum_spec (s : Nat) :
    foldSum s < 65536 ∧ foldSum s % 65535 = s % 65535 ∧ (foldSum s = 0 → s = 0) := by
  fun_induction foldSum s with
  | case1 s h => omega
  | case2 s h ih =>
    obtain ⟨hlt, hmod, hzero⟩ := ih
    refine ⟨hlt, hmod.trans ?_, fun h0 => ?_⟩
    · omega
    · have := hzero h0
      omega

variable (saddr daddr sum : BitVec 32) (len proto : BitVec 16)

theorem toNat_low_add_high (x : BitVec 32) : ((x &&& 0xFFFF#32) + x >>> 16).toNat = halves x := by
  have hand : (x &&& 0xFFFF#32).toNat = x.toNat % 65536 := by
    exact Nat.and_two_pow_sub_one_eq_mod x.toNat 16
  rw [toNat_add, hand, toNat_ushiftRight, Nat.shiftRight_eq_div_pow, halves]
  omega

theorem pseudoSum_toNat :
    (pseudoSum saddr daddr len proto sum).toNat =
      (sum.toNat + addends saddr daddr len proto) % 2 ^ 32 := by
  rw [pseudoSum, toNat_add, toNat_low_add_high, toNat_add, toNat_low_add_high]
  simp only [toNat_add, toNat_setWidth, addends]
  omega

theorem csumTcpudpMagic_toNat :
    (csumTcpudpMagic saddr daddr len proto sum).toNat =
      2 ^ 32 - 1 - foldSum (pseudoSum saddr daddr len proto sum).toNat := by
  have hlt := (foldSum_spec (pseudoSum saddr daddr len proto sum).toNat).1
  rw [csumTcpudpMagic, toNat_not, toNat_ofNat, Nat.mod_eq_of_lt (by omega)]

theorem addends_lt : addends saddr daddr len proto < 6 * 2 ^ 16 := by
  unfold addends halves
  omega

/-- **No returned value is a 16-bit checksum.** The lower half is one exactly when no carry is lost:
`2 ^ 32` is one more than a multiple of `0xFFFF`. -/
theorem csumTcpudpMagic_isChecksum_iff (saddr daddr sum : BitVec 32) (len proto : BitVec 16) :
    (IsChecksum (csumTcpudpMagic saddr daddr len proto sum).toNat
      (halves sum + addends saddr daddr len proto) ↔ False) ∧
    (IsChecksum ((csumTcpudpMagic saddr daddr len proto sum).toNat % 2 ^ 16)
      (halves sum + addends saddr daddr len proto) ↔
        sum.toNat + addends saddr daddr len proto < 2 ^ 32) := by
  obtain ⟨hlt, hmod, hzero⟩ := foldSum_spec (pseudoSum saddr daddr len proto sum).toNat
  rw [pseudoSum_toNat] at hlt hmod hzero
  rw [csumTcpudpMagic_toNat, pseudoSum_toNat]
  have ha := addends_lt saddr daddr len proto
  generalize foldSum _ = f at *
  unfold IsChecksum halves
  have htop : 2 ^ 16 ≤ 2 ^ 32 - 1 - f := by omega
  refine ⟨iff_false_intro fun h => absurd h.1 (not_lt.mpr htop), ?_⟩
  have hlow : (2 ^ 32 - 1 - f) % 2 ^ 16 = 65535 - f := by omega
  omega

/-- Length, protocol and addresses 0 give `0xFFFFFFFF`. -/
theorem csumTcpudpMagic_zero : ¬ IsChecksum (csumTcpudpMagic 0 0 0 0 0).toNat
    (halves 0 + addends 0 0 0 0) := by
  have h : csumTcpudpMagic 0 0 0 0 0 = 0xFFFFFFFF := by
    simp [csumTcpudpMagic, pseudoSum, htons, foldSum]
  rw [h, IsChecksum]
  decide

end Ixgbe.Oal
