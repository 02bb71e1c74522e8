import Ixgbe.Library.Ring

/-! # Unused descriptors of a ring

One descriptor stays free, so that a full ring and an empty one differ. -/

namespace Ixgbe

open Ring

def descUnused (count nextToClean nextToUse : ℕ) : ℕ :=
  ((if nextToClean > nextToUse then 0 else count) + nextToClean - nextToUse - 1) % 2 ^ 16

theorem descUnused_slot {n b t : ℕ} (hn : n < 2 ^ 16) (hb : b < n) (ht : t < n) :
    descUnused n b (slot n b t) = n - 1 - t := by
  have hslot : slot n b t = if b + t < n then b + t else b + t - n := by
    -- `next_to_use` has wrapped around or not
    rw [slot]
    split
    case isTrue h => exact Nat.mod_eq_of_lt h
    case isFalse h => rw [Nat.mod_eq_sub_mod (by omega), Nat.mod_eq_of_lt (by omega)]
  rw [descUnused, hslot]
  by_cases h : b + t < n
  · rw [if_pos h, if_neg (by omega)]
    omega
  · rw [if_neg h, if_pos (by omega)]
    omega

end Ixgbe
