import Mathlib.Data.BitVec
import Mathlib.Data.List.Nodup
import Mathlib.Tactic.Ring

/-! # Bit strings stored in arrays of words

Bit `n` of the string is bit `n % w` of word `n / w`. -/

namespace WordArray

open List BitVec

variable {w : ℕ}

/-- The mask of bit `k` of a word: `1 << k`. -/
def mask (w k : ℕ) : BitVec w := 1#w <<< k

@[simp] theorem getLsbD_mask (k j : ℕ) :
    (mask w k).getLsbD j = (decide (j < w) && decide (j = k)) := by
  rw [mask, ← twoPow_eq, getLsbD_twoPow]
  by_cases hjk : k = j
  · subst hjk; simp
  · simp [hjk, Ne.symm hjk]

@[simp] theorem getElem_mask (k : ℕ) {j : ℕ} (hj : j < w) : (mask w k)[j] = decide (j = k) := by
  rw [← getLsbD_eq_getElem hj, getLsbD_mask, decide_eq_true hj, Bool.true_and]

theorem and_mask_eq_zero_iff (x : BitVec w) {k : ℕ} (hk : k < w) :
    x &&& mask w k = 0#w ↔ x.getLsbD k = false := by
  constructor
  · intro h
    have := congrArg (fun y => BitVec.getLsbD y k) h
    simpa [hk] using this
  · intro h
    apply eq_of_getLsbD_eq
    intro j hj
    by_cases hjk : j = k
    · subst hjk; simp [h]
    · simp [hjk]

theorem xor_and_not_self (x m : BitVec w) : x ^^^ (m &&& ~~~x) = x ||| m := by
  apply eq_of_getLsbD_eq
  intro j hj
  simp only [getLsbD_xor, getLsbD_and, getLsbD_not, getLsbD_or, hj, decide_true, Bool.true_and]
  cases x.getLsbD j <;> cases m.getLsbD j <;> rfl

theorem xor_and_self (x m : BitVec w) : x ^^^ (m &&& x) = x &&& ~~~m := by
  apply eq_of_getLsbD_eq
  intro j hj
  simp only [getLsbD_xor, getLsbD_and, getLsbD_not, hj, decide_true, Bool.true_and]
  cases x.getLsbD j <;> cases m.getLsbD j <;> rfl

theorem or_xor_self (x m : BitVec w) : (x ||| m) ^^^ m = x &&& ~~~m := by
  apply eq_of_getLsbD_eq
  intro j hj
  simp only [getLsbD_xor, getLsbD_and, getLsbD_not, getLsbD_or, hj, decide_true, Bool.true_and]
  cases x.getLsbD j <;> cases m.getLsbD j <;> rfl

theorem or_and_of_disjoint {c m : BitVec w} (h : c &&& m = 0#w) (x : BitVec w) :
    (x ||| c) &&& m = x &&& m := by
  rw [BitVec.and_or_distrib_right, h, or_zero]

theorem and_not_and_of_disjoint {c m : BitVec w} (h : c &&& m = 0#w) (x : BitVec w) :
    (x &&& ~~~c) &&& m = x &&& m := by
  apply eq_of_getLsbD_eq
  intro j hj
  have hcm := congrArg (fun y => BitVec.getLsbD y j) h
  simp only [getLsbD_and, getLsbD_zero] at hcm
  cases hc : c.getLsbD j <;> cases hm : m.getLsbD j <;> simp_all

theorem write_and_of_covered {d e m : BitVec w} (h : m &&& ~~~(d ||| e) = 0#w) (x : BitVec w) :
    ((x &&& ~~~d) ||| e) &&& m = e &&& m := by
  apply eq_of_getLsbD_eq
  intro j hj
  have hm := congrArg (fun y => BitVec.getLsbD y j) h
  simp only [getLsbD_and, getLsbD_not, getLsbD_or, getLsbD_zero, hj,
    decide_true, Bool.true_and] at hm
  cases hd : d.getLsbD j <;> cases he : e.getLsbD j <;> simp_all

theorem xor_mask_of_bit {x : BitVec w} {k : ℕ} (h : x.getLsbD k = true) :
    x ^^^ mask w k = x &&& ~~~(mask w k) := by
  apply eq_of_getLsbD_eq
  intro j hj
  by_cases hjk : j = k
  · subst hjk
    rw [getLsbD_xor, getLsbD_and, getLsbD_not, h, getLsbD_mask]
    simp [hj]
  · simp [hj, hjk]

theorem eq_zero_iff (x : BitVec w) : x = 0#w ↔ ∀ j < w, x.getLsbD j = false := by
  constructor
  · rintro rfl j _; simp
  · intro h
    apply eq_of_getLsbD_eq
    intro j hj
    simp [h j hj]

theorem and_not_mask_eq_zero_iff (x : BitVec w) (k : ℕ) :
    x &&& ~~~(mask w k) = 0#w ↔ ∀ j < w, j ≠ k → x.getLsbD j = false := by
  rw [eq_zero_iff]
  refine forall₂_congr fun j hj => ?_
  by_cases hjk : j = k
  · simp [hjk]
  · simp [hjk, hj]

/-- Bit `n` of the string stored in the array `f`. -/
def bit (f : ℕ → BitVec w) (n : ℕ) : Bool := (f (n / w)).getLsbD (n % w)

/-- Word `x` with bit `k` set to `b`. -/
def putBit (x : BitVec w) (k : ℕ) (b : Bool) : BitVec w :=
  if b then x ||| mask w k else x &&& ~~~(mask w k)

/-- One word is rewritten. -/
def setBit (f : ℕ → BitVec w) (n : ℕ) (b : Bool) : ℕ → BitVec w :=
  Function.update f (n / w) (putBit (f (n / w)) (n % w) b)

theorem getLsbD_putBit (x : BitVec w) (k j : ℕ) (b : Bool) (hj : j < w) :
    (putBit x k b).getLsbD j = if j = k then b else x.getLsbD j := by
  unfold putBit
  by_cases hjk : j = k
  · cases b <;> simp [hjk, hjk ▸ hj]
  · cases b <;> simp [hjk, hj]

/-- **Read after write** on the string: exactly bit `n` changes. -/
theorem bit_setBit (hw : 0 < w) (f : ℕ → BitVec w) (n m : ℕ) (b : Bool) :
    bit (setBit f n b) m = if m = n then b else bit f m := by
  unfold bit setBit
  by_cases hword : m / w = n / w
  · rw [hword, Function.update_self, getLsbD_putBit _ _ _ _ (Nat.mod_lt _ hw)]
    have hiff : m % w = n % w ↔ m = n := by
      constructor
      · intro hmod
        rw [← Nat.div_add_mod m w, ← Nat.div_add_mod n w, hword, hmod]
      · rintro rfl; rfl
    simp only [hiff]
  · have hne : m ≠ n := fun h => hword (h ▸ rfl)
    rw [Function.update_of_ne hword, if_neg hne]

theorem setBit_self (f : ℕ → BitVec w) (n : ℕ) {b : Bool} (h : bit f n = b) : setBit f n b = f := by
  unfold setBit
  rw [Function.update_eq_self_iff]
  apply eq_of_getLsbD_eq
  intro j hj
  rw [getLsbD_putBit _ _ _ _ hj]
  by_cases hjn : j = n % w
  · rw [if_pos hjn, ← h, hjn]; rfl
  · rw [if_neg hjn]

theorem bit_foldl_setBit (hw : 0 < w) {α : Type*} (g : α → ℕ) (l : List α) (f : ℕ → BitVec w)
    (n : ℕ) : bit (l.foldl (fun f a => setBit f (g a) true) f) n = true ↔
      bit f n = true ∨ ∃ a ∈ l, g a = n := by
  induction l generalizing f with
  | nil => simp
  | cons a l ih =>
    rw [foldl_cons, ih, bit_setBit hw]
    by_cases hn : n = g a
    · simp [hn]
    · simp [hn, Ne.symm hn]

/-- Two nested loops, over words and bits. -/
def setBits (n : ℕ) (f : ℕ → BitVec w) : List ℕ :=
  (List.range n).flatMap fun i => ((List.range w).filter (f i).getLsbD).map (· + i * w)

/-- **The scan finds the set bits of the string**, and no others. -/
theorem mem_setBits (n : ℕ) (f : ℕ → BitVec w) (k : ℕ) :
    k ∈ setBits n f ↔ k < n * w ∧ bit f k = true := by
  simp only [setBits, mem_flatMap, mem_map, mem_filter, mem_range, bit]
  constructor
  · rintro ⟨i, hi, j, ⟨hj, hbit⟩, rfl⟩
    have hw : 0 < w := by omega
    have hdiv : (j + i * w) / w = i := by
      rw [Nat.add_mul_div_right _ _ hw, Nat.div_eq_of_lt hj, Nat.zero_add]
    have hmod : (j + i * w) % w = j := by rw [Nat.add_mul_mod_self_right, Nat.mod_eq_of_lt hj]
    refine ⟨?_, by rw [hdiv, hmod]; exact hbit⟩
    calc j + i * w < w + i * w := Nat.add_lt_add_right hj _
      _ = (i + 1) * w := by ring
      _ ≤ n * w := Nat.mul_le_mul_right w hi
  · rintro ⟨hk, hbit⟩
    have hw : 0 < w := by
      rcases Nat.eq_zero_or_pos w with rfl | hw
      · simp at hk
      · exact hw
    exact ⟨k / w, Nat.div_lt_of_lt_mul (by rwa [Nat.mul_comm] at hk), k % w,
      ⟨Nat.mod_lt _ hw, hbit⟩, by rw [Nat.mul_comm]; exact Nat.mod_add_div k w⟩

theorem nodup_setBits (n : ℕ) (f : ℕ → BitVec w) : (setBits n f).Nodup := by
  unfold setBits
  rw [nodup_flatMap]
  refine ⟨fun i _ => ?_, ?_⟩
  · refine (List.Nodup.filter _ nodup_range).map ?_
    intro j k hjk
    exact Nat.add_right_cancel hjk
  · refine nodup_range.imp ?_
    intro i i' hne k hk hk'
    simp only [mem_map, mem_filter, mem_range] at hk hk'
    obtain ⟨j, ⟨hj, -⟩, rfl⟩ := hk
    obtain ⟨j', ⟨hj', -⟩, hEq⟩ := hk'
    apply hne
    have hw : 0 < w := by omega
    have hdiv := congrArg (· / w) hEq
    simp only [Nat.add_mul_div_right _ _ hw, Nat.div_eq_of_lt hj, Nat.div_eq_of_lt hj',
      Nat.zero_add] at hdiv
    exact hdiv.symm

end WordArray
