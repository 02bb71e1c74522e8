import Ixgbe.Dcb.Config

/-! # The map from priorities to packet buffers

`ixgbe_validate_rtr` (`ixgbe_main.c`) clears the fields of `RTRUP2TC` above the number of classes,
and lets one that is equal to it pass. -/

namespace Ixgbe

open BitVec List

def rtrup2tcUpMask : U32 := 0x7

/-- The variable `up2tc` of the loop, for priority `i`. -/
def up2tc (reg : U32) (i : ℕ) : U8 := (rtrup2tcUpMask &&& (reg >>> (i * 3))).setWidth 8

def validateUp (tc : U8) (reg : U32) (i : ℕ) : U32 :=
  if up2tc reg i > tc then reg &&& ~~~(rtrup2tcUpMask <<< (i * 3)) else reg

/-- `RTRUP2TC` after the call, with `rsave` in it before. -/
def validateRtr (mac82598EB : Bool) (tc : U8) (rsave : U32) : U32 :=
  if mac82598EB then rsave
  else
    let reg := (range 8).foldl (validateUp tc) rsave
    if reg ≠ rsave then reg else rsave

theorem getLsbD_rtrup2tcUpMask (k : ℕ) : rtrup2tcUpMask.getLsbD k = decide (k < 3) := by
  by_cases hk : k < 32
  · have hall : ∀ k < 32, rtrup2tcUpMask.getLsbD k = decide (k < 3) := by decide
    exact hall k hk
  · rw [getLsbD_of_ge _ _ (not_lt.mp hk), decide_eq_false (by omega)]

theorem getLsbD_up2tc (reg : U32) (i k : ℕ) :
    (up2tc reg i).getLsbD k = (decide (k < 3) && reg.getLsbD (i * 3 + k)) := by
  rw [up2tc, getLsbD_setWidth, getLsbD_and, getLsbD_ushiftRight, getLsbD_rtrup2tcUpMask]
  by_cases hk : k < 3
  · rw [decide_eq_true hk, decide_eq_true (by omega), Bool.true_and]
  · rw [decide_eq_false hk, Bool.false_and, Bool.and_false]

theorem getLsbD_clearUp (reg : U32) (i : ℕ) {b : ℕ} (hb : b < 32) :
    (reg &&& ~~~(rtrup2tcUpMask <<< (i * 3))).getLsbD b =
      (reg.getLsbD b && !decide (i * 3 ≤ b ∧ b < i * 3 + 3)) := by
  rw [getLsbD_and, getLsbD_not, getLsbD_shiftLeft, getLsbD_rtrup2tcUpMask, decide_eq_true hb,
    Bool.true_and, Bool.true_and]
  have hfield : (!decide (b < i * 3) && decide (b - i * 3 < 3)) =
      decide (i * 3 ≤ b ∧ b < i * 3 + 3) := by
    rw [← decide_not, ← Bool.decide_and]
    exact decide_eq_decide.mpr (by omega)
  rw [hfield]

variable (tc : U8) (reg : U32)

/-- **One round** clears at most its own field. -/
theorem validateUp_spec {i : ℕ} (hi : i < 8) :
    (∀ j < 8, up2tc (validateUp tc reg i) j =
      if j = i ∧ tc < up2tc reg j then 0 else up2tc reg j) ∧
      ∀ b, 24 ≤ b → (validateUp tc reg i).getLsbD b = reg.getLsbD b := by
  by_cases hgt : up2tc reg i > tc
  · rw [validateUp, if_pos hgt]
    refine ⟨fun j hj => eq_of_getLsbD_eq fun k _ => ?_, fun b hb => ?_⟩
    · rw [getLsbD_up2tc]
      by_cases hk : k < 3
      · rw [getLsbD_clearUp reg i (by omega), decide_eq_true hk, Bool.true_and]
        by_cases hji : j = i
        · subst hji
          rw [if_pos ⟨rfl, hgt⟩, decide_eq_true (by omega), Bool.not_true, Bool.and_false]
          exact getLsbD_zero.symm
        · rw [if_neg fun h => hji h.1, getLsbD_up2tc, decide_eq_true hk,
            decide_eq_false (by omega), Bool.not_false, Bool.and_true, Bool.true_and]
      · rw [decide_eq_false hk, Bool.false_and]
        split
        · exact getLsbD_zero.symm
        · rw [getLsbD_up2tc, decide_eq_false hk, Bool.false_and]
    · by_cases hb32 : b < 32
      · rw [getLsbD_clearUp reg i hb32, decide_eq_false (by omega), Bool.not_false, Bool.and_true]
      · rw [getLsbD_of_ge _ _ (not_lt.mp hb32), getLsbD_of_ge _ _ (not_lt.mp hb32)]
  · rw [validateUp, if_neg hgt]
    refine ⟨fun j _ => ?_, fun _ _ => rfl⟩
    rw [if_neg]
    rintro ⟨rfl, hlt⟩
    exact hgt hlt

/-- **The loop**, after `n` rounds. -/
theorem validateUps_spec {n : ℕ} (hn : n ≤ 8) :
    (∀ j < 8, up2tc ((range n).foldl (validateUp tc) reg) j =
      if j < n ∧ tc < up2tc reg j then 0 else up2tc reg j) ∧
      ∀ b, 24 ≤ b → ((range n).foldl (validateUp tc) reg).getLsbD b = reg.getLsbD b := by
  induction n with
  | zero => exact ⟨fun j _ => (if_neg fun h => absurd h.1 j.not_lt_zero).symm, fun _ _ => rfl⟩
  | succ n ih =>
    obtain ⟨hfields, hrest⟩ := ih (by omega)
    rw [range_succ, foldl_append, foldl_cons, foldl_nil]
    obtain ⟨hfields', hrest'⟩ :=
      validateUp_spec tc ((range n).foldl (validateUp tc) reg) (i := n) (by omega)
    refine ⟨fun j hj => ?_, fun b hb => (hrest' b hb).trans (hrest b hb)⟩
    rw [hfields' j hj, hfields j hj]
    -- field `n` is still as it was
    by_cases hjn : j = n
    · simp [hjn]
    · rw [if_neg fun h => hjn h.1]
      exact if_congr (and_congr_left' (by omega)) rfl rfl

/-- Every priority has a packet buffer; fields that were right and the bits above are kept. -/
structure RtrValid (rsave reg : U32) : Prop where
  below : ∀ i < 8, up2tc reg i < tc
  kept : ∀ i < 8, up2tc rsave i < tc → up2tc reg i = up2tc rsave i
  rest : ∀ b, 24 ≤ b → reg.getLsbD b = rsave.getLsbD b

/-- **The map is valid after the call exactly if no field was equal to the number of classes**, or,
on the 82598, if it was valid before. -/
theorem validateRtr_valid_iff (mac82598EB : Bool) (htc : 0 < tc) :
    RtrValid tc reg (validateRtr mac82598EB tc reg) ↔
      ∀ i < 8, if mac82598EB then up2tc reg i < tc else up2tc reg i ≠ tc := by
  cases mac82598EB with
  | true => exact ⟨fun h => h.below, fun h => ⟨h, fun _ _ _ => rfl, fun _ _ => rfl⟩⟩
  | false =>
    obtain ⟨hfields, hrest⟩ := validateUps_spec tc reg le_rfl
    -- the value is written back only if it changed
    have heq : validateRtr false tc reg = (range 8).foldl (validateUp tc) reg := by
      rw [validateRtr, if_neg Bool.false_ne_true]
      exact ite_eq_left_iff.mpr fun hsame => (not_not.mp hsame).symm
    rw [heq]
    constructor
    · intro h i hi hsame
      have hlt := h.below i hi
      rw [hfields i hi, hsame, if_neg fun hc => BitVec.lt_irrefl _ hc.2] at hlt
      exact BitVec.lt_irrefl _ hlt
    · intro h
      refine ⟨fun i hi => ?_, fun i hi hlt => ?_, hrest⟩
      · rw [hfields i hi]
        split
        · exact htc
        · rename_i hc
          have hle := BitVec.not_lt.mp fun hgt => hc ⟨hi, hgt⟩
          exact BitVec.lt_def.mpr
            (lt_of_le_of_ne (BitVec.le_def.mp hle) fun he => h i hi (eq_of_toNat_eq he))
      · rw [hfields i hi, if_neg fun hc => BitVec.lt_asymm hlt hc.2]

theorem validateRtr_valid_four : RtrValid 4 7 (validateRtr false 4 7) :=
  (validateRtr_valid_iff 4 7 false (by decide)).mpr (by decide)

/-- Priority 0 keeps buffer 4 of the buffers 0 to 3. -/
theorem validateRtr_keeps_four :
    up2tc (validateRtr false 4 4) 0 = 4 ∧ ¬ RtrValid 4 4 (validateRtr false 4 4) :=
  ⟨by decide, fun h => absurd (h.below 0 (by decide)) (by decide)⟩

end Ixgbe
