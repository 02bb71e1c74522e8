import Mathlib.Data.Nat.ModEq

/-! # Burst writes to a paged memory

A burst that goes past the end of its page continues at the page's start. -/

namespace PageWrap

variable {α : Type*}

/-- The address at which word `k` of a burst from `s` on is stored. -/
def slot (P s k : ℕ) : ℕ := s / P * P + (s + k) % P

theorem slot_of_le {P s k : ℕ} (h : s % P + k < P) : slot P s k = s + k := by
  have hdiv := Nat.div_add_mod' s P
  have hmod : (s + k) % P = s % P + k := by
    rw [Nat.add_mod, Nat.mod_eq_of_lt (show k < P by omega), Nat.mod_eq_of_lt h]
  rw [slot, hmod]
  omega

theorem slot_eq_start_iff {P s k : ℕ} : slot P s k = s ↔ P ∣ k := by
  have hdiv := Nat.div_add_mod' s P
  have hback : slot P s k = s ↔ (s + k) % P = s % P := by
    rw [slot]
    omega
  rw [hback]
  exact ⟨fun h => (Nat.modEq_zero_iff_dvd).mp (Nat.ModEq.add_left_cancel' s (h.trans (by simp))),
    fun ⟨c, hc⟩ => by rw [hc, Nat.add_mul_mod_self_left]⟩

/-- The first of the words is word `k` of a burst from `s` on. -/
def store (P s : ℕ) : ℕ → List α → (ℕ → α) → ℕ → α
  | _, [], m => m
  | k, w :: ws, m => store P s (k + 1) ws (Function.update m (slot P s k) w)

/-- The contents `m` with the words stored from `a` on. -/
def fill : ℕ → List α → (ℕ → α) → ℕ → α
  | _, [], m => m
  | a, w :: ws, m => fill (a + 1) ws (Function.update m a w)

/-- **A burst that stays in its page** stores its words one after the other. -/
theorem store_eq_fill {P s : ℕ} (ws : List α) (k : ℕ) (m : ℕ → α) (h : s % P + k + ws.length ≤ P) :
    store P s k ws m = fill (s + k) ws m := by
  induction ws generalizing k m with
  | nil => rfl
  | cons w ws ih =>
    rw [List.length_cons] at h
    rw [store, fill, slot_of_le (by omega), ih (k + 1) _ (by omega)]
    rfl

theorem fill_append (a : ℕ) (ws vs : List α) (m : ℕ → α) :
    fill a (ws ++ vs) m = fill (a + ws.length) vs (fill a ws m) := by
  induction ws generalizing a m with
  | nil => rfl
  | cons w ws ih =>
    rw [List.cons_append, fill, fill, ih, List.length_cons]
    congr 1
    omega

theorem fill_of_not_mem {a x : ℕ} (ws : List α) (m : ℕ → α) (h : x < a ∨ a + ws.length ≤ x) :
    fill a ws m x = m x := by
  induction ws generalizing a m with
  | nil => rfl
  | cons w ws ih =>
    rw [List.length_cons] at h
    rw [fill, ih _ (by omega), Function.update_of_ne (by omega)]

theorem fill_getElem {a i : ℕ} (ws : List α) (m : ℕ → α) (h : i < ws.length) :
    fill a ws m (a + i) = ws[i] := by
  induction ws generalizing a i m with
  | nil => exact absurd h (Nat.not_lt_zero i)
  | cons w ws ih =>
    rw [fill]
    cases i with
    | zero =>
      rw [fill_of_not_mem _ _ (by omega)]
      exact Function.update_self ..
    | succ i =>
      have hi : i < ws.length := by simpa using h
      rw [show a + (i + 1) = a + 1 + i by omega, ih _ hi]
      rfl

theorem store_of_ne {P s x : ℕ} (ws : List α) (k : ℕ) (m : ℕ → α)
    (h : ∀ i < ws.length, slot P s (k + i) ≠ x) : store P s k ws m x = m x := by
  induction ws generalizing k m with
  | nil => rfl
  | cons w ws ih =>
    have hhead : slot P s k ≠ x := h 0 (by simp)
    rw [store, ih (k + 1) _ fun i hi => ?_, Function.update_of_ne hhead.symm]
    rw [show k + 1 + i = k + (i + 1) by omega]
    exact h (i + 1) (by simpa using hi)

theorem store_append (P s k : ℕ) (ws vs : List α) (m : ℕ → α) :
    store P s k (ws ++ vs) m = store P s (k + ws.length) vs (store P s k ws m) := by
  induction ws generalizing k m with
  | nil => rfl
  | cons w ws ih =>
    rw [List.cons_append, store, store, ih, List.length_cons]
    congr 1
    omega

/-- **The word that survives** at the start comes after a multiple of `P` words, and fewer than `P`
follow. -/
theorem store_start {P s : ℕ} (ws vs : List α) (w : α) (m : ℕ → α) (hround : P ∣ ws.length)
    (hlast : vs.length < P) : store P s 0 (ws ++ w :: vs) m s = w := by
  rw [store_append, store, Nat.zero_add, store_of_ne vs _ _ fun i hi => ?_,
    slot_eq_start_iff.mpr hround]
  · exact Function.update_self ..
  · intro hslot
    have hdvd := slot_eq_start_iff.mp hslot
    rw [Nat.add_assoc, Nat.dvd_add_right hround] at hdvd
    have := Nat.le_of_dvd (by omega) hdvd
    omega

end PageWrap
