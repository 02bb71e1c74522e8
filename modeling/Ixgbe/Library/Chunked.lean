import Mathlib.Tactic.Ring

/-! # Transfers in pieces

The size of the next piece depends on how much is done; a step is told whether its piece is the
last, and one that fails ends the loop. -/

namespace Chunked

open List

section Loop

variable {σ ε : Type*} [Zero ε] [DecidableEq ε]

/-- The piece that starts after `done` items is the last one. -/
def isLast (size : ℕ → ℕ) (n done : ℕ) : Bool := !decide (done + size done < n)

/-- A step gets the items done, the size of its piece and whether it is the last. -/
def loop (size : ℕ → ℕ) (n : ℕ) (step : ℕ → ℕ → Bool → σ → ε × σ) : ℕ → ℕ → σ → ε × ℕ × σ
  | 0, done, s => (0, done, s)
  | fuel + 1, done, s =>
    let last := isLast size n done
    let r := step done (size done) last s
    if r.1 ≠ 0 then (r.1, done, r.2)
    else if last then (0, done + size done, r.2)
    else loop size n step fuel (done + size done) r.2

theorem loop_of_isLast {size : ℕ → ℕ} {n d : ℕ} (step : ℕ → ℕ → Bool → σ → ε × σ) (fuel : ℕ)
    (s : σ) (h : isLast size n d = true) :
    (loop size n step (fuel + 1) d s).1 = (step d (size d) true s).1 ∧
      (loop size n step (fuel + 1) d s).2.2 = (step d (size d) true s).2 := by
  rw [loop, h]
  by_cases hok : (step d (size d) true s).1 = 0
  · rw [if_neg (not_not.mpr hok), if_pos rfl]
    exact ⟨hok.symm, rfl⟩
  · rw [if_pos hok]
    exact ⟨rfl, rfl⟩

/-- Pieces are not empty, and none goes beyond what is to be moved. -/
structure Fits (size : ℕ → ℕ) (n : ℕ) : Prop where
  pos : ∀ d < n, 0 < size d
  le : ∀ d < n, d + size d ≤ n

theorem loop_cases {size : ℕ → ℕ} {n : ℕ} (step : ℕ → ℕ → Bool → σ → ε × σ) (hfits : Fits size n)
    (I : ℕ → σ → Prop) (hstep : ∀ d s, d < n → I d s → (step d (size d) (isLast size n d) s).1 = 0 →
      I (d + size d) (step d (size d) (isLast size n d) s).2)
    {fuel d : ℕ} {s : σ} (hd : d < n) (hfuel : n - d ≤ fuel) (hI : I d s) :
    (∃ s', loop size n step fuel d s = (0, n, s') ∧ I n s') ∨
      ∃ d' s1, d' < n ∧ I d' s1 ∧ (step d' (size d') (isLast size n d') s1).1 ≠ 0 ∧
        loop size n step fuel d s = ((step d' (size d') (isLast size n d') s1).1, d',
          (step d' (size d') (isLast size n d') s1).2) := by
  induction fuel generalizing d s with
  | zero => omega
  | succ fuel ih =>
    have hpos := hfits.pos d hd
    have hle := hfits.le d hd
    rw [loop]
    by_cases hok : (step d (size d) (isLast size n d) s).1 = 0
    · rw [if_neg (not_not.mpr hok)]
      have hnext := hstep d s hd hI hok
      by_cases hmore : d + size d < n
      · rw [if_neg (by simp [isLast, hmore])]
        exact ih hmore (by omega) hnext
      · have hEq : d + size d = n := by omega
        rw [if_pos (by simp [isLast, hmore])]
        rw [hEq] at hnext ⊢
        exact .inl ⟨_, rfl, hnext⟩
    · rw [if_pos hok]
      exact .inr ⟨d, s, hd, hI, hok, rfl⟩

end Loop

section Log

variable {α : Type*} (pos len : α → ℕ) (flag : α → Bool)

/-- Each entry starts where the one before it ends. -/
def Consecutive : ℕ → List α → Prop
  | _, [] => True
  | start, c :: cs => pos c = start ∧ Consecutive (start + len c) cs

/-- Only the last entry of the log may be marked. -/
def OnlyLast (cs : List α) : Prop := ∀ c ∈ cs.dropLast, flag c = false

/-- Exactly the last entry of the log is marked. -/
def ExactlyLast (cs : List α) : Prop := OnlyLast flag cs ∧ ∃ c, cs.getLast? = some c ∧ flag c = true

/-- **The log of a transfer** of `n` items from `start` on of which `d` are done. -/
structure Moved (start n d : ℕ) (cs : List α) : Prop where
  consecutive : Consecutive pos len start cs
  sum : (cs.map len).sum = d
  unmarked : d < n → ∀ c ∈ cs, flag c = false
  exactlyLast : d = n → ExactlyLast flag cs

variable {pos len flag}

theorem consecutive_snoc {start : ℕ} {cs : List α} {c : α} :
    Consecutive pos len start (cs ++ [c]) ↔
      Consecutive pos len start cs ∧ pos c = start + (cs.map len).sum := by
  induction cs generalizing start with
  | nil => simp [Consecutive]
  | cons b bs ih =>
    rw [cons_append, Consecutive, ih, Consecutive, map_cons, sum_cons, Nat.add_assoc, and_assoc]

theorem onlyLast_snoc {cs : List α} {c : α} (h : ∀ b ∈ cs, flag b = false) :
    OnlyLast flag (cs ++ [c]) := by
  intro b hb
  rw [dropLast_concat] at hb
  exact h b hb

theorem onlyLast_of_unmarked {cs : List α} (h : ∀ b ∈ cs, flag b = false) : OnlyLast flag cs :=
  fun b hb => h b (dropLast_subset cs hb)

theorem Moved.nil {start n : ℕ} (hn : 0 < n) : Moved pos len flag start n 0 [] where
  consecutive := trivial
  sum := rfl
  unmarked := fun _ _ h => absurd h not_mem_nil
  exactlyLast := fun h => absurd h (Nat.ne_of_lt hn)

theorem Moved.snoc {start n d : ℕ} {cs : List α} {c : α} (h : Moved pos len flag start n d cs)
    (hd : d < n) (hpos : pos c = start + d) (hlast : flag c = !decide (d + len c < n)) :
    Moved pos len flag start n (d + len c) (cs ++ [c]) where
  consecutive := consecutive_snoc.mpr ⟨h.consecutive, by rw [h.sum, hpos]⟩
  sum := by rw [map_append, sum_append, h.sum, map_singleton, sum_singleton]
  unmarked := fun hmore b hb => by
    rcases mem_append.mp hb with hb | hb
    · exact h.unmarked hd b hb
    · rw [mem_singleton.mp hb, hlast, decide_eq_true hmore]
      rfl
  exactlyLast := fun hEq => ⟨onlyLast_snoc (h.unmarked hd), c, List.getLast?_concat, by
    rw [hlast, hEq, decide_eq_false (Nat.lt_irrefl n)]
    rfl⟩

end Log

end Chunked
