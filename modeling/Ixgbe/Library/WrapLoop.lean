import Mathlib.Tactic.Ring

/-! # Counting loops whose counter wraps

`for (i = 0; i < n; i += stride)` does not end where `n` is too close to the counter's size. A round
may fail. -/

namespace WrapLoop

/-- With enough fuel, `run` returns `r`. -/
def Returns {α : Type*} (run : ℕ → Option α) (r : α) : Prop := ∃ n, ∀ fuel ≥ n, run fuel = some r

theorem Returns.unique {α : Type*} {run : ℕ → Option α} {r r' : α} (h : Returns run r)
    (h' : Returns run r') : r = r' := by
  obtain ⟨n, hn⟩ := h
  obtain ⟨n', hn'⟩ := h'
  have heq := (hn (max n n') (le_max_left ..)).symm.trans (hn' (max n n') (le_max_right ..))
  exact Option.some.inj heq

theorem Returns.exists_fuel {α : Type*} {run : ℕ → Option α} {r : α} (h : Returns run r) :
    ∃ fuel, run fuel = some r := by
  obtain ⟨n, hn⟩ := h
  exact ⟨n, hn n le_rfl⟩

variable {σ ε : Type*} [Zero ε] [DecidableEq ε]

/-- **The loop** with a counter modulo `size`; a round returns a status. -/
def loop (size stride n : ℕ) (round : ℕ → σ → ε × σ) : ℕ → ℕ → σ → Option (ε × σ)
  | 0, _, _ => none
  | fuel + 1, i, s =>
    if i < n then
      let r := round i s
      if r.1 ≠ 0 then some r else loop size stride n round fuel ((i + stride) % size) r.2
    else some (0, s)

theorem loop_returns {size stride n : ℕ} {round : ℕ → σ → ε × σ} {fuel i : ℕ} {s : σ} {r : ε × σ}
    (h : loop size stride n round fuel i s = some r) :
    Returns (fun fuel => loop size stride n round fuel i s) r := by
  refine ⟨fuel, fun fuel' hfuel => ?_⟩
  induction fuel generalizing i s fuel' with
  | zero => cases h
  | succ fuel ih =>
    obtain ⟨fuel', rfl⟩ := Nat.exists_eq_add_of_lt hfuel
    change loop size stride n round (fuel + fuel' + 1) i s = some r
    rw [loop] at h ⊢
    by_cases hi : i < n
    · rw [if_pos hi] at h ⊢
      by_cases hok : (round i s).1 = 0
      · rw [if_neg (not_not.mpr hok)] at h ⊢
        exact ih h _ (by omega)
      · rw [if_pos hok] at h ⊢
        exact h
    · rw [if_neg hi] at h ⊢
      exact h

section

variable {size stride n : ℕ} (round : ℕ → σ → ε × σ)

/-- **The rule of the loop**: the counter gets to `n` or a round fails. -/
theorem loop_cases (hstride : 0 < stride) (hsize : n + stride ≤ size) (I : ℕ → σ → Prop)
    (hround : ∀ i s, i < n → I i s → (round i s).1 = 0 → I (i + stride) (round i s).2)
    {fuel i : ℕ} {s : σ} (hfuel : n - i < fuel) (hI : I i s) :
    (∃ j s', n ≤ j ∧ I j s' ∧ loop size stride n round fuel i s = some (0, s')) ∨
      ∃ j s', j < n ∧ I j s' ∧ (round j s').1 ≠ 0 ∧
        loop size stride n round fuel i s = some (round j s') := by
  induction fuel generalizing i s with
  | zero => omega
  | succ fuel ih =>
    rw [loop]
    by_cases hi : i < n
    · rw [if_pos hi]
      by_cases hok : (round i s).1 = 0
      · rw [if_neg (not_not.mpr hok), Nat.mod_eq_of_lt (by omega)]
        exact ih (by omega) (hround i s hi hI hok)
      · rw [if_pos hok]
        exact .inr ⟨i, s, hi, hI, hok, rfl⟩
    · rw [if_neg hi]
      exact .inl ⟨i, s, Nat.le_of_not_lt hi, hI, rfl⟩

/-- No round fails and the last multiple of the stride is below `n`. -/
theorem loop_eq_none (hdvd : stride ∣ size)
    (hsize : size < n + stride) (hok : ∀ i s, (round i s).1 = 0) (fuel : ℕ) {i : ℕ} (s : σ)
    (hi : i < size) (hmul : stride ∣ i) : loop size stride n round fuel i s = none := by
  induction fuel generalizing i s with
  | zero => rfl
  | succ fuel ih =>
    have hgap : i + stride ≤ size := by
      obtain ⟨c, rfl⟩ := hmul
      obtain ⟨b, rfl⟩ := hdvd
      have hcb : c < b := Nat.lt_of_mul_lt_mul_left hi
      calc stride * c + stride = stride * (c + 1) := by ring
        _ ≤ stride * b := Nat.mul_le_mul_left _ hcb
    rw [loop, if_pos (by omega), if_neg (not_not.mpr (hok i s))]
    refine ih _ (Nat.mod_lt _ (by omega)) ?_
    exact (Nat.dvd_mod_iff hdvd).mpr (Nat.dvd_add hmul dvd_rfl)

theorem loop_success (hok : ∀ i s, (round i s).1 = 0)
    {fuel i : ℕ} {s : σ} {r : ε × σ} (h : loop size stride n round fuel i s = some r) :
    r.1 = 0 := by
  induction fuel generalizing i s with
  | zero => cases h
  | succ fuel ih =>
    rw [loop] at h
    by_cases hi : i < n
    · rw [if_pos hi, if_neg (not_not.mpr (hok i s))] at h
      exact ih h
    · rw [if_neg hi] at h
      cases h
      rfl

end

end WrapLoop
