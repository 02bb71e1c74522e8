import Ixgbe.Hw.Basic

/-! # The statistics of a VF

`ixgbe_update_stats` extends counters to 64 bits; after `ixgbe_clear_vf_stats_counters` the whole
register is counted again. One counter is modelled. -/

namespace Ixgbe

open List

inductive VfStat
  | gprc
  | gorc
  | gptc
  | gotc
  | mprc
  deriving DecidableEq, Repr

def VfStat.width : VfStat → ℕ
  | .gorc | .gotc => 36
  | .gprc | .gptc | .mprc => 32

/-- With `last_vfstats`, `vfstats` and `saved_rst_vfstats`. -/
structure VfCounter where
  hw : ℕ
  last : ℕ
  cnt : ℕ
  saved : ℕ

/-- `UPDATE_VF_COUNTER_32bit` and `UPDATE_VF_COUNTER_36bit`. -/
def VfCounter.update (w : ℕ) (s : VfCounter) : VfCounter :=
  let current := s.hw % 2 ^ w
  let cnt := if current < s.last then s.cnt + 2 ^ w else s.cnt
  { s with last := current, cnt := cnt / 2 ^ w * 2 ^ w + current }

/-- The register read is the lower one of a 36-bit counter. -/
def VfCounter.clear (s : VfCounter) : VfCounter :=
  { s with last := s.hw % 2 ^ 32, saved := s.saved + s.cnt, cnt := 0 }

def VfCounter.count (d : ℕ) (s : VfCounter) : VfCounter := { s with hw := s.hw + d }

def VfCounter.total (s : VfCounter) : ℕ := s.saved + s.cnt

/-- Clears, before each of which the hardware has counted on. -/
def VfCounter.clears (s : VfCounter) (ds : List ℕ) : VfCounter :=
  ds.foldl (fun s d => (s.count d).clear) s

namespace VfCounter

theorem hw_clears (s : VfCounter) (ds : List ℕ) : (s.clears ds).hw = s.hw + ds.sum := by
  induction ds generalizing s with
  | nil => rfl
  | cons d ds ih =>
    rw [clears, foldl_cons, ← clears, ih, sum_cons]
    exact Nat.add_assoc ..

theorem total_clears (s : VfCounter) (ds : List ℕ) : (s.clears ds).total = s.total := by
  induction ds generalizing s with
  | nil => rfl
  | cons d ds ih => rw [clears, foldl_cons, ← clears, ih]; rfl

theorem clears_concat (s : VfCounter) (ds : List ℕ) (d : ℕ) :
    s.clears (ds ++ [d]) = ((s.clears ds).count d).clear := by
  rw [clears, foldl_append]
  rfl

theorem cnt_update_of_clear (w d : ℕ) (s : VfCounter) :
    ((s.clear.count d).update w).cnt =
      (s.hw + d) % 2 ^ w + if (s.hw + d) % 2 ^ w < s.hw % 2 ^ 32 then 2 ^ w else 0 := by
  change (if (s.hw + d) % 2 ^ w < s.hw % 2 ^ 32 then 0 + 2 ^ w else 0) / 2 ^ w * 2 ^ w +
    (s.hw + d) % 2 ^ w = _
  split_ifs
  · rw [Nat.zero_add, Nat.div_self (Nat.two_pow_pos w), Nat.one_mul, Nat.add_comm]
  · rw [Nat.zero_div, Nat.zero_mul, Nat.add_comm]

theorem total_update {w d : ℕ} (hw : w = 32 ∨ w = 36) (hd : d < 2 ^ w) {s : VfCounter}
    (hlast : s.last = s.hw % 2 ^ w) (hcnt : s.cnt % 2 ^ w = s.hw % 2 ^ w) :
    ((s.count d).update w).total = s.total + d := by
  change s.saved + ((if (s.hw + d) % 2 ^ w < s.last then s.cnt + 2 ^ w else s.cnt) / 2 ^ w * 2 ^ w +
    (s.hw + d) % 2 ^ w) = s.saved + s.cnt + d
  rcases hw with rfl | rfl <;> split_ifs <;> omega

theorem cnt_update_mod (w : ℕ) (s : VfCounter) : (s.update w).cnt % 2 ^ w = s.hw % 2 ^ w := by
  simp [update]

end VfCounter

/-- **A counter grows by what the hardware has counted** iff nothing was cleared in between; or the
hardware's counter was zero at the last collection, and has not wrapped since, or only once after
the last clear and to less than was remembered. -/
theorem vf_stats_exact_iff (c : VfStat) (s : VfCounter) (ds : List ℕ) (d : ℕ)
    (hd : d < 2 ^ c.width) :
    let before := s.update c.width
    (((before.clears ds).count d).update c.width).total = before.total + (ds.sum + d) ↔
      ds = [] ∨ 2 ^ c.width ∣ s.hw ∧ (ds.sum + d < 2 ^ c.width ∨
        ds.sum + d < 2 * 2 ^ c.width ∧ ds.sum + d - 2 ^ c.width < ds.sum % 2 ^ 32) := by
  intro before
  have hw : c.width = 32 ∨ c.width = 36 := by cases c <;> decide
  rcases eq_nil_or_concat' ds with rfl | ⟨ds, x, rfl⟩
  · have hgrows := VfCounter.total_update hw hd rfl (s.cnt_update_mod c.width)
    rw [sum_nil, Nat.zero_add]
    exact iff_of_true hgrows (.inl rfl)
  · -- the count that is cleared last is the one that is saved
    generalize ht : (before.clears ds).count x = t
    have hhw : t.hw = s.hw + (ds ++ [x]).sum := by
      rw [← ht, sum_append, sum_singleton, ← Nat.add_assoc]
      exact congrArg (· + x) (before.hw_clears ds)
    have htotal : ((t.clear.count d).update c.width).total =
        before.total + ((t.clear.count d).update c.width).cnt := by
      rw [← before.total_clears ds, ← show t.total = (before.clears ds).total from ht ▸ rfl]
      rfl
    rw [VfCounter.clears_concat, ht, htotal, Nat.add_left_cancel_iff,
      VfCounter.cnt_update_of_clear, hhw, or_iff_right (by simp)]
    rcases hw with hw | hw <;> rw [hw] at hd ⊢ <;> split_ifs <;> omega

theorem vf_stats_exact_of_zero :
    (((((⟨0, 0, 0, 0⟩ : VfCounter).update 32).clears [5]).count 7).update 32).total = 12 :=
  (vf_stats_exact_iff .gprc ⟨0, 0, 0, 0⟩ [5] 7 (by decide)).2 (by decide)

/-- 100 packets are counted twice. -/
theorem vf_stats_counted_twice :
    ((⟨100, 0, 0, 0⟩ : VfCounter).update 32).total = 100 ∧
      (((((⟨100, 0, 0, 0⟩ : VfCounter).update 32).clears [1]).count 0).update 32).total = 201 := by
  decide

end Ixgbe
