import Mathlib.Data.List.Nodup
import Mathlib.Data.Nat.ModEq

/-! # Positions in a ring

After the last of `n` places comes the first: programs step (`next`, `prev`), proofs count from a
base (`slot n b k`). -/

namespace Ring

open List Nat

variable {n b i j k : ℕ}

/-- The place `k` steps after `b`. -/
def slot (n b k : ℕ) : ℕ := (b + k) % n

/-- The next place. -/
def next (n i : ℕ) : ℕ := if i + 1 = n then 0 else i + 1

/-- The place before. -/
def prev (n i : ℕ) : ℕ := if i = 0 then n - 1 else i - 1

theorem slot_lt (hn : 0 < n) (b k : ℕ) : slot n b k < n := mod_lt _ hn

theorem slot_zero (hb : b < n) : slot n b 0 = b := mod_eq_of_lt hb

theorem slot_slot (n b j k : ℕ) : slot n (slot n b j) k = slot n b (j + k) := by
  rw [slot, slot, slot, mod_add_mod, Nat.add_assoc]

theorem slot_add_self (n b k : ℕ) : slot n b (k + n) = slot n b k := by
  rw [slot, slot, ← Nat.add_assoc, add_mod_right]

theorem slot_self (hb : b < n) : slot n b n = b := by
  rw [slot, add_mod_right, mod_eq_of_lt hb]

theorem next_eq_slot (hi : i < n) : next n i = slot n i 1 := by
  rw [next, slot]
  split
  case isTrue h =>
    rw [h, mod_self]
  · rw [mod_eq_of_lt (by omega)]

theorem next_slot (hn : 0 < n) (b k : ℕ) : next n (slot n b k) = slot n b (k + 1) := by
  rw [next_eq_slot (slot_lt hn b k), slot_slot]

theorem slot_next (hb : b < n) (k : ℕ) : slot n (next n b) k = slot n b (k + 1) := by
  rw [next_eq_slot hb, slot_slot, Nat.add_comm]

theorem add_wrap (hb : b < n) (hk : k < n) :
    (if n ≤ b + k then b + k - n else b + k) = slot n b k := by
  rw [slot]
  split
  case isTrue h =>
    rw [mod_eq_sub_mod h, mod_eq_of_lt (by omega)]
  · rw [mod_eq_of_lt (by omega)]

theorem prev_next (n i : ℕ) : prev n (next n i) = i := by
  rw [prev, next]
  split
  · rw [if_pos rfl]
    omega
  · rw [if_neg (succ_ne_zero i), Nat.add_sub_cancel]

theorem prev_slot_succ (hn : 0 < n) (b k : ℕ) : prev n (slot n b (k + 1)) = slot n b k := by
  rw [← next_slot hn, prev_next]

theorem slot_inj (hj : j < n) (hk : k < n) (h : slot n b j = slot n b k) : j = k := by
  have hmod : j ≡ k [MOD n] := Nat.ModEq.add_left_cancel' b h
  exact Nat.ModEq.eq_of_lt_of_lt hmod hj hk

theorem slot_ne (hj : j < n) (hk : k < n) (h : j ≠ k) : slot n b j ≠ slot n b k := fun hc =>
  h (slot_inj hj hk hc)

/-! ## Positions over several turns

A position that keeps counting is at the place it leaves modulo `n`. -/

theorem next_mod (hn : 0 < n) (d : ℕ) : next n (d % n) = (d + 1) % n := by
  rw [next_eq_slot (mod_lt d hn), slot, mod_add_mod]

theorem slot_mod (n d k : ℕ) : slot n (d % n) k = (d + k) % n := by
  rw [slot, mod_add_mod]

theorem mod_inj {d e : ℕ} (hd : b ≤ d) (hd' : d < b + n) (he : b ≤ e) (he' : e < b + n)
    (h : d % n = e % n) : d = e := by
  have hslot : slot n b (d - b) = slot n b (e - b) := by
    rw [slot, slot, Nat.add_sub_cancel' hd, Nat.add_sub_cancel' he, h]
  have := slot_inj (by omega) (by omega) hslot
  omega

theorem mod_ne {d e : ℕ} (h : d ≠ e) (hd : d < e + n) (he : e < d + n) : d % n ≠ e % n := by
  intro hc
  rcases Nat.le_total d e with hle | hle
  · exact h (mod_inj le_rfl (by omega) hle he hc)
  · exact h (mod_inj hle hd le_rfl (by omega) hc)

/-- How far `i` is from `b`. -/
def dist (n b i : ℕ) : ℕ := (i + n - b) % n

theorem dist_lt (hn : 0 < n) (b i : ℕ) : dist n b i < n := mod_lt _ hn

theorem slot_dist (hb : b < n) (hi : i < n) : slot n b (dist n b i) = i := by
  rw [slot, dist, add_mod_mod, show b + (i + n - b) = i + n by omega, add_mod_right,
    mod_eq_of_lt hi]

theorem dist_slot (hb : b < n) (hk : k < n) : dist n b (slot n b k) = k :=
  slot_inj (dist_lt (zero_lt_of_lt hk) b _) hk
    (slot_dist hb (slot_lt (zero_lt_of_lt hk) b k))

theorem dist_self (n b : ℕ) : dist n b b = 0 := by
  rw [dist, Nat.add_sub_cancel_left, mod_self]

theorem exists_mod_eq (hi : i < n) (b : ℕ) : ∃ d, b ≤ d ∧ d < b + n ∧ d % n = i := by
  have hn : 0 < n := zero_lt_of_lt hi
  refine ⟨b + dist n (b % n) i, Nat.le_add_right .., ?_, ?_⟩
  · have := dist_lt hn (b % n) i
    omega
  · rw [← slot_mod, slot_dist (mod_lt b hn) hi]

/-- The places from distance `a` on, `m` of them. -/
def stretch (n b a m : ℕ) : List ℕ := (range m).map fun j => slot n b (a + j)

theorem mem_stretch {a m : ℕ} : i ∈ stretch n b a m ↔ ∃ j < m, slot n b (a + j) = i := by
  simp [stretch]

theorem nodup_stretch {a m : ℕ} (h : a + m ≤ n) : (stretch n b a m).Nodup := by
  refine List.Nodup.map_on (fun j hj k hk hjk => ?_) nodup_range
  rw [mem_range] at hj hk
  have := slot_inj (by omega) (by omega) hjk
  omega

theorem stretch_succ (n b a m : ℕ) :
    stretch n b a (m + 1) = slot n b a :: stretch n b (a + 1) m := by
  rw [stretch, range_succ_eq_map, map_cons, map_map]
  refine congrArg₂ _ rfl (map_congr_left fun j _ => ?_)
  exact congrArg (slot n b) (by simp only [succ_eq_add_one]; omega)

theorem stretch_succ_last (n b a m : ℕ) :
    stretch n b a (m + 1) = stretch n b a m ++ [slot n b (a + m)] := by
  simp [stretch, range_succ]

end Ring
