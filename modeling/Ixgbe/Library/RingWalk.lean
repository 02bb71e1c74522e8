import Ixgbe.Library.Ring
import Mathlib.Data.BitVec

/-! # Walking along a ring with a biased counter

A counter biased by `-n` is zero exactly when the place has to wrap. `walk` fills places up to the
first failure. -/

namespace Ring

open BitVec

variable {σ : Type*} {n w : ℕ}

/-- Past the last place it comes to zero, and is biased anew. -/
def stepBiased (n : ℕ) (p : ℕ) (i : BitVec w) : ℕ × BitVec w :=
  if i + 1 = 0 then (0, i + 1 - BitVec.ofNat w n) else (p + 1, i + 1)

/-- At most `c` places are filled, from `p` on; `i` is the biased counter. -/
def walk (n : ℕ) (fill : σ → ℕ → Bool × σ) (arrive : σ → ℕ → σ) :
    ℕ → σ → ℕ → BitVec w → σ × ℕ × BitVec w
  | 0, s, p, i => (s, p, i)
  | c + 1, s, p, i =>
    let r := fill s p
    if r.1 then
      let q := stepBiased n p i
      walk n fill arrive c (arrive r.2 q.1) q.1 q.2
    else (r.2, p, i)

/-- The counter at place `p`. -/
def biased (w n p : ℕ) : BitVec w := BitVec.ofNat w p - BitVec.ofNat w n

theorem toNat_biased_add {p : ℕ} (hn : n < 2 ^ w) (hp : p < n) :
    (biased w n p + BitVec.ofNat w n).toNat = p := by
  rw [biased, BitVec.sub_add_cancel, toNat_ofNat, Nat.mod_eq_of_lt (by omega)]

theorem biased_succ_eq_zero_iff {p : ℕ} (hn : n < 2 ^ w) (hp : p < n) :
    biased w n p + 1 = 0 ↔ p + 1 = n := by
  have hsucc : biased w n p + 1 = BitVec.ofNat w (p + 1) - BitVec.ofNat w n := by
    rw [biased, ofNat_add]
    grind
  rw [hsucc, sub_eq_zero, ← toNat_inj, toNat_ofNat, toNat_ofNat,
    Nat.mod_eq_of_lt (by omega), Nat.mod_eq_of_lt hn]

theorem stepBiased_eq {p : ℕ} (hn : n < 2 ^ w) (hp : p < n) :
    stepBiased n p (biased w n p) = (next n p, biased w n (next n p)) := by
  unfold stepBiased next
  by_cases h : p + 1 = n
  · rw [if_pos ((biased_succ_eq_zero_iff hn hp).mpr h), if_pos h,
      (biased_succ_eq_zero_iff hn hp).mpr h]
    rfl
  · rw [if_neg (fun hz => h ((biased_succ_eq_zero_iff hn hp).mp hz)), if_neg h]
    refine congrArg _ ?_
    rw [biased, biased, ofNat_add]
    grind

theorem walk_biased (fill : σ → ℕ → Bool × σ) (arrive : σ → ℕ → σ) (hn : n < 2 ^ w) (c : ℕ)
    (s : σ) {p : ℕ} (hp : p < n) :
    let r := walk n fill arrive c s p (biased w n p)
    r.2.1 < n ∧ r.2.2 = biased w n r.2.1 := by
  induction c generalizing s p with
  | zero => exact ⟨hp, rfl⟩
  | succ c ih =>
    rw [walk]
    split
    · rw [stepBiased_eq hn hp]
      refine ih _ ?_
      rw [next_eq_slot hp]
      exact slot_lt (Nat.zero_lt_of_lt hp) _ _
    · exact ⟨hp, rfl⟩

/-- **The loop rule.** `P k` holds after `k` places have been filled; `R j` when the loop stops
after `j` of them. -/
theorem walk_rule (fill : σ → ℕ → Bool × σ) (arrive : σ → ℕ → σ) {P R : ℕ → σ → Prop} {b c : ℕ}
    (hn : n < 2 ^ w) (hb : b < n) (hfill : ∀ k s, k < c → P k s → (fill s (slot n b k)).1 = true →
      P (k + 1) (arrive (fill s (slot n b k)).2 (slot n b (k + 1))))
    (hstop : ∀ k s, k < c → P k s → (fill s (slot n b k)).1 = false →
      R k (fill s (slot n b k)).2)
    (hend : ∀ s, P c s → R c s) {s : σ} (h : P 0 s) :
    let r := walk n fill arrive c s b (biased w n b)
    ∃ j ≤ c, R j r.1 ∧ (r.2.2 + BitVec.ofNat w n).toNat = slot n b j := by
  have hn0 : 0 < n := Nat.zero_lt_of_lt hb
  -- after `k` places, `c - k` are left
  have hfrom : ∀ m k s, k + m = c → P k s →
      ∃ j ≤ c, R j (walk n fill arrive m s (slot n b k) (biased w n (slot n b k))).1 ∧
        (walk n fill arrive m s (slot n b k) (biased w n (slot n b k))).2.1 = slot n b j := by
    intro m
    induction m with
    | zero =>
      intro k s hk hP
      obtain rfl : k = c := hk
      exact ⟨k, le_rfl, hend s hP, rfl⟩
    | succ m ih =>
      intro k s hk hP
      rw [walk]
      split
      case isTrue hr =>
        rw [stepBiased_eq hn (slot_lt hn0 b k), next_slot hn0]
        exact ih (k + 1) _ (by omega) (hfill k s (by omega) hP hr)
      case isFalse hr =>
        exact ⟨k, by omega, hstop k s (by omega) hP (Bool.eq_false_iff.mpr hr), rfl⟩
  intro r
  obtain ⟨j, hj, hR, hplace⟩ := hfrom c 0 s (Nat.zero_add c) h
  rw [slot_zero hb] at hR hplace
  obtain ⟨hlt, hcounter⟩ := walk_biased fill arrive hn c s hb
  refine ⟨j, hj, hR, ?_⟩
  rw [hcounter, toNat_biased_add hn hlt, hplace]

end Ring
