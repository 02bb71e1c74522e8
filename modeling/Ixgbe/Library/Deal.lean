import Mathlib.Tactic.Ring

/-! # Dealing items to hands

Each of `q` hands takes the rounded-up quotient of the items left by the hands left. -/

namespace Deal

open Nat

variable {n q v : ℕ}

/-- The items hand `v` gets. -/
def share (n q v : ℕ) : ℕ := n / q + if v < n % q then 1 else 0

/-- The items dealt before hand `v`. -/
def dealt (n q v : ℕ) : ℕ := v * (n / q) + min v (n % q)

def divRoundUp (n d : ℕ) : ℕ := (n + d - 1) / d

@[simp] theorem dealt_zero (n q : ℕ) : dealt n q 0 = 0 := by simp [dealt]

theorem dealt_succ (n q v : ℕ) : dealt n q (v + 1) = dealt n q v + share n q v := by
  unfold dealt share
  split
  case isTrue h =>
    rw [Nat.min_eq_left h, Nat.min_eq_left h.le, Nat.add_mul, one_mul]
    omega
  · rw [Nat.min_eq_right (by omega), Nat.min_eq_right (by omega), Nat.add_mul, one_mul]
    omega

theorem dealt_self (hq : 0 < q) : dealt n q q = n := by
  unfold dealt
  rw [Nat.min_eq_right (mod_lt n hq).le, div_add_mod]

theorem dealt_mono (n q : ℕ) {v w : ℕ} (h : v ≤ w) : dealt n q v ≤ dealt n q w :=
  Nat.add_le_add (Nat.mul_le_mul_right _ h) (by omega)

theorem left_eq (hv : v < q) : n - dealt n q v = (q - v) * (n / q) + (n % q - min v (n % q)) := by
  have hn : q * (n / q) + n % q = n := div_add_mod n q
  have hsplit : q * (n / q) = v * (n / q) + (q - v) * (n / q) := by
    rw [← Nat.add_mul, Nat.add_sub_cancel' hv.le]
  unfold dealt
  omega

/-- **The share of a hand** is the rounded-up quotient of what is left. -/
theorem divRoundUp_left (hv : v < q) : divRoundUp (n - dealt n q v) (q - v) = share n q v := by
  have hpos : 0 < q - v := by omega
  have hrem : n % q < q := mod_lt n (by omega)
  rw [left_eq hv]
  unfold divRoundUp share
  rw [Nat.add_assoc, Nat.add_sub_assoc (by omega), Nat.mul_add_div hpos]
  refine congrArg (n / q + ·) ?_
  split
  case isTrue h =>
    rw [Nat.min_eq_left h.le]
    exact Nat.div_eq_of_lt_le (by omega) (by omega)
  · rw [Nat.min_eq_right (by omega)]
    exact Nat.div_eq_of_lt (by omega)

theorem lt_share_iff (hv : v < q) (k : ℕ) : k < share n q v ↔ v + k * q < n := by
  have hn : q * (n / q) + n % q = n := div_add_mod n q
  have hrem : n % q < q := mod_lt n (by omega)
  unfold share
  split
  · constructor
    · intro hk
      have := Nat.mul_le_mul_right q (Nat.lt_succ_iff.mp hk)
      rw [Nat.mul_comm (n / q)] at this
      omega
    · intro hk
      by_contra hle
      have := Nat.mul_le_mul_right q (not_lt.mp hle)
      rw [Nat.add_mul, one_mul, Nat.mul_comm (n / q)] at this
      omega
  · rw [add_zero]
    constructor
    · intro hk
      have := Nat.mul_le_mul_right q hk
      rw [succ_mul, Nat.mul_comm (n / q)] at this
      omega
    · intro hk
      by_contra hle
      have := Nat.mul_le_mul_right q (not_lt.mp hle)
      rw [Nat.mul_comm (n / q)] at this
      omega

theorem exists_dealt_le (hq : 0 < q) {i : ℕ} (hi : i < n) :
    ∃ v < q, dealt n q v ≤ i ∧ i < dealt n q (v + 1) := by
  have hex : ∃ v, i < dealt n q (v + 1) :=
    ⟨q - 1, by rw [Nat.sub_add_cancel hq, dealt_self hq]; exact hi⟩
  classical
  refine ⟨Nat.find hex, ?_, ?_, Nat.find_spec hex⟩
  · have := Nat.find_min' hex (m := q - 1)
      (by rw [Nat.sub_add_cancel hq, dealt_self hq]; exact hi)
    omega
  · rcases Nat.eq_zero_or_pos (Nat.find hex) with h | h
    · rw [h, dealt_zero]
      exact Nat.zero_le i
    · have := Nat.find_min hex (Nat.sub_lt h Nat.one_pos)
      rw [Nat.sub_add_cancel h] at this
      omega

theorem hand_unique {i v w : ℕ} (hv : dealt n q v ≤ i ∧ i < dealt n q (v + 1))
    (hw : dealt n q w ≤ i ∧ i < dealt n q (w + 1)) : v = w := by
  rcases lt_trichotomy v w with h | h | h
  · have := dealt_mono n q (show v + 1 ≤ w from h)
    omega
  · exact h
  · have := dealt_mono n q (show w + 1 ≤ v from h)
    omega

theorem hand_of_le (hn : n ≤ q) {i : ℕ} (hi : i < n) : dealt n q i ≤ i ∧ i < dealt n q (i + 1) := by
  unfold dealt
  rcases lt_or_ge n q with h | h
  · rw [Nat.div_eq_of_lt h, mod_eq_of_lt h]
    omega
  · have hEq : n = q := le_antisymm hn h
    subst hEq
    rw [Nat.div_self (by omega), Nat.mod_self]
    omega

theorem hand_zero (hq : 0 < q) (hn : 0 < n) : 0 < dealt n q 1 := by
  rw [← zero_add 1, dealt_succ, dealt_zero, zero_add, lt_share_iff hq]
  omega

theorem hand_one (hq : 0 < q) (hn : q < n) : 1 < dealt n q 1 := by
  rw [← zero_add 1, dealt_succ, dealt_zero, zero_add, zero_add, lt_share_iff hq]
  omega

@[simp] theorem share_zero (q v : ℕ) : share 0 q v = 0 := by simp [share]

theorem share_le_share (n q v w : ℕ) : share n q v ≤ share n q w + 1 := by
  unfold share
  split <;> split <;> omega

/-- The `count` items from `idx` on in steps of `stride`. -/
def strided (stride : ℕ) : ℕ → ℕ → List ℕ
  | 0, _ => []
  | count + 1, idx => idx :: strided stride count (idx + stride)

@[simp] theorem length_strided (stride count idx : ℕ) :
    (strided stride count idx).length = count := by
  induction count generalizing idx with
  | zero => rfl
  | succ count ih => rw [strided, List.length_cons, ih]

theorem mem_strided {stride count idx i : ℕ} :
    i ∈ strided stride count idx ↔ ∃ k < count, i = idx + k * stride := by
  induction count generalizing idx with
  | zero => simp [strided]
  | succ count ih =>
    rw [strided, List.mem_cons, ih]
    constructor
    · rintro (rfl | ⟨k, hk, rfl⟩)
      · exact ⟨0, succ_pos count, by ring⟩
      · exact ⟨k + 1, succ_lt_succ hk, by ring⟩
    · rintro ⟨k, hk, rfl⟩
      cases k with
      | zero => exact .inl (by ring)
      | succ k => exact .inr ⟨k, lt_of_succ_lt_succ hk, by ring⟩

theorem nodup_strided {stride : ℕ} (h : 0 < stride) (count idx : ℕ) :
    (strided stride count idx).Nodup := by
  induction count generalizing idx with
  | zero => exact List.nodup_nil
  | succ count ih =>
    refine List.nodup_cons.mpr ⟨fun hmem => ?_, ih (idx + stride)⟩
    obtain ⟨k, -, hEq⟩ := mem_strided.mp hmem
    omega

/-- Every item is in one hand, and the hands hold nothing else. -/
structure Deals (n q : ℕ) (hand : ℕ → List ℕ) : Prop where
  unique : ∀ i < n, ∃! v, v < q ∧ i ∈ hand v
  lt : ∀ v < q, ∀ i ∈ hand v, i < n
  nodup : ∀ v < q, (hand v).Nodup

theorem deals_of_home {hand : ℕ → List ℕ} (home : ℕ → ℕ) (hlt : ∀ i < n, home i < q)
    (hmem : ∀ v < q, ∀ i, i ∈ hand v ↔ i < n ∧ home i = v) (hnodup : ∀ v < q, (hand v).Nodup) :
    Deals n q hand where
  unique := fun i hi => ⟨home i, ⟨hlt i hi, (hmem _ (hlt i hi) i).mpr ⟨hi, rfl⟩⟩,
    fun _ ⟨hv, hin⟩ => ((hmem _ hv i).mp hin).2.symm⟩
  lt := fun v hv i hin => ((hmem v hv i).mp hin).1
  nodup := hnodup

theorem mem_strided_share {stride : ℕ} (h : n ≤ q ∨ q = stride) (hv : v < q) {i : ℕ} :
    i ∈ strided stride (share n q v) v ↔ i < n ∧ i % q = v := by
  rw [mem_strided]
  constructor
  · rintro ⟨k, hk, rfl⟩
    rw [lt_share_iff hv] at hk
    rcases h with hn | rfl
    · cases k with
      | zero =>
        rw [zero_mul, add_zero] at hk ⊢
        exact ⟨hk, mod_eq_of_lt hv⟩
      | succ k =>
        rw [succ_mul] at hk
        omega
    · exact ⟨hk, by rw [add_mul_mod_self_right, mod_eq_of_lt hv]⟩
  · rintro ⟨hi, rfl⟩
    have hdiv : i % q + i / q * q = i := by rw [Nat.mul_comm]; exact mod_add_div i q
    refine ⟨i / q, (lt_share_iff hv _).mpr (hdiv.symm ▸ hi), ?_⟩
    rcases h with hn | rfl
    · have hlt : i < q := lt_of_lt_of_le hi hn
      rw [Nat.div_eq_of_lt hlt, mod_eq_of_lt hlt, zero_mul, add_zero]
    · exact hdiv.symm

theorem deals_strided {stride : ℕ} (h : n ≤ q ∨ q = stride) (hstride : 0 < stride)
    (hq : n ≠ 0 → 0 < q) :
    Deals n q fun v => strided stride (share n q v) v :=
  deals_of_home (· % q) (fun _ hi => mod_lt _ (hq (ne_zero_of_lt hi)))
    (fun _ hv _ => mem_strided_share h hv) fun _ _ => nodup_strided hstride _ _

theorem mem_strided_dealt {i : ℕ} :
    i ∈ strided 1 (share n q v) (dealt n q v) ↔ dealt n q v ≤ i ∧ i < dealt n q (v + 1) := by
  rw [mem_strided, dealt_succ]
  constructor
  · rintro ⟨k, hk, rfl⟩
    omega
  · rintro ⟨hlo, hhi⟩
    exact ⟨i - dealt n q v, by omega, by omega⟩

theorem deals_inOrder (hq : n ≠ 0 → 0 < q) :
    Deals n q fun v => strided 1 (share n q v) (dealt n q v) where
  unique := fun i hi => by
    obtain ⟨v, hv, hin⟩ := exists_dealt_le (hq (ne_zero_of_lt hi)) hi
    exact ⟨v, ⟨hv, mem_strided_dealt.mpr hin⟩,
      fun w ⟨_, hw⟩ => hand_unique (mem_strided_dealt.mp hw) hin⟩
  lt := fun v hv i hin => by
    have hle := dealt_mono n q (show v + 1 ≤ q from hv)
    rw [dealt_self (zero_lt_of_lt hv)] at hle
    exact lt_of_lt_of_le (mem_strided_dealt.mp hin).2 hle
  nodup := fun _ _ => nodup_strided Nat.one_pos _ _

theorem Deals.after {hand hand' : ℕ → List ℕ} {s : ℕ} (h : Deals n (q - s) hand) (hs : s ≤ q)
    (hbefore : ∀ v < s, hand' v = []) (hafter : ∀ v, s ≤ v → hand' v = hand (v - s)) :
    Deals n q hand' where
  unique := fun i hi => by
    obtain ⟨v, ⟨hv, hin⟩, huniq⟩ := h.unique i hi
    refine ⟨s + v, ⟨by omega, ?_⟩, ?_⟩
    · rw [hafter _ (Nat.le_add_right s v), Nat.add_sub_cancel_left]
      exact hin
    · rintro w ⟨hw, hmem⟩
      rcases lt_or_ge w s with hlt | hge
      · rw [hbefore w hlt] at hmem
        exact absurd hmem List.not_mem_nil
      · rw [hafter w hge] at hmem
        have := huniq (w - s) ⟨by omega, hmem⟩
        omega
  lt := fun v hv i hin => by
    rcases lt_or_ge v s with hlt | hge
    · rw [hbefore v hlt] at hin
      exact absurd hin List.not_mem_nil
    · rw [hafter v hge] at hin
      exact h.lt (v - s) (by omega) i hin
  nodup := fun v hv => by
    rcases lt_or_ge v s with hlt | hge
    · rw [hbefore v hlt]
      exact List.nodup_nil
    · rw [hafter v hge]
      exact h.nodup (v - s) (by omega)

end Deal
