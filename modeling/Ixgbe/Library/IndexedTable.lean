import Mathlib.Algebra.Order.Group.Multiset
import Mathlib.Data.Multiset.Range

/-! # Fixed-size tables and the multiset they hold

A table is a function read below `n`. Some entries carry a key; `contents` is the multiset of the
keys. -/

namespace IndexedTable

open Multiset Function

variable {α β : Type*} {n i : ℕ} {p : α → Bool} {k : α → Option β} {f g : ℕ → α}

/-- The first index below `n` whose entry passes the test. -/
def first (n : ℕ) (p : α → Bool) (f : ℕ → α) : Option ℕ := (List.range n).find? fun i => p (f i)

theorem first_some (h : first n p f = some i) : i < n ∧ p (f i) = true :=
  ⟨List.mem_range.mp (List.mem_of_find?_eq_some h), by
    simpa using List.find?_some (p := fun j => p (f j)) h⟩

theorem first_none (h : first n p f = none) (hi : i < n) : p (f i) = false := by
  have hi' := List.find?_eq_none.mp h i (List.mem_range.mpr hi)
  simpa using hi'

theorem first_zero (hn : 0 < n) (h : p (f 0) = true) : first n p f = some 0 := by
  obtain ⟨m, rfl⟩ := Nat.exists_eq_succ_of_ne_zero hn.ne'
  rw [first, List.range_succ_eq_map]
  exact List.find?_cons_of_pos h

/-- The keys of the table. -/
def contents (n : ℕ) (k : α → Option β) (f : ℕ → α) : Multiset β :=
  (Multiset.range n).filterMap fun i => k (f i)

theorem mem_contents {b : β} : b ∈ contents n k f ↔ ∃ i < n, k (f i) = some b := by
  simp [contents]

theorem contents_congr (h : ∀ i < n, k (f i) = k (g i)) : contents n k f = contents n k g := by
  induction n with
  | zero => rfl
  | succ n ih =>
    have hrest := ih fun i hi => h i (hi.trans n.lt_succ_self)
    simp only [contents, range_succ, filterMap_cons, h n n.lt_succ_self] at hrest ⊢
    rw [hrest]

theorem contents_filter {q : β → Prop} [DecidablePred q]
    (h : ∀ i < n, k (g i) = (k (f i)).filter (q ·)) :
    contents n k g = (contents n k f).filter q := by
  have hkeys := contents_congr (n := n) (k := id) (f := fun i => k (g i))
    (g := fun i => (k (f i)).filter (q ·)) h
  rw [contents, contents, filter_filterMap]
  exact hkeys

theorem contents_eq_zero (h : ∀ i < n, k (f i) = none) : contents n k f = 0 := by
  rw [eq_zero_iff_forall_notMem]
  intro b hb
  obtain ⟨i, hi, hk⟩ := mem_contents.mp hb
  rw [h i hi] at hk
  exact absurd hk (by simp)

theorem contents_update (hi : i < n) (x : α) : ∃ rest : Multiset β,
    contents n k f = (k (f i)).elim 0 (fun b => {b}) + rest ∧
      contents n k (update f i x) = (k x).elim 0 (fun b => {b}) + rest := by
  induction n with
  | zero => omega
  | succ n ih =>
    simp only [contents, range_succ, filterMap_cons] at ih ⊢
    by_cases hin : i = n
    · -- the last entry: the rest are the entries before it
      subst hin
      refine ⟨(Multiset.range i).filterMap fun j => k (f j), ?_, ?_⟩
      · cases k (f i) <;> simp
      · have hrest := contents_congr (n := i) (k := k) (f := update f i x) (g := f)
          fun j hj => by rw [update_of_ne hj.ne]
        simp only [contents] at hrest
        rw [update_self, hrest]
        cases k x <;> simp
    · obtain ⟨rest, hold, hnew⟩ := ih (by omega)
      refine ⟨(k (f n)).elim 0 (fun b => {b}) + rest, ?_, ?_⟩
      · rw [hold]
        cases k (f n) <;> simp [add_left_comm]
      · rw [hnew, update_of_ne (Ne.symm hin)]
        cases k (f n) <;> simp [add_left_comm]

theorem contents_add (m n : ℕ) (k : α → Option β) (f : ℕ → α) :
    contents (m + n) k f = contents m k f + contents n k fun i => f (m + i) := by
  induction n with
  | zero => simp [contents]
  | succ n ih =>
    simp only [contents, ← Nat.add_assoc, range_succ, filterMap_cons] at ih ⊢
    rw [ih]
    cases k (f (m + n)) <;> simp

theorem contents_of_empty_tail {m : ℕ} (hm : m ≤ n) (h : ∀ i, m ≤ i → i < n → k (f i) = none) :
    contents n k f = contents m k f := by
  obtain ⟨d, rfl⟩ := Nat.exists_eq_add_of_le hm
  rw [contents_add, contents_eq_zero (n := d) fun i hi => h (m + i) (by omega) (by omega), add_zero]

theorem contents_eq_coe (n : ℕ) (k : α → Option β) (f : ℕ → α) :
    contents n k f = ((List.range n).filterMap fun i => k (f i) : Multiset β) := rfl

theorem contents_fill {x : α} {b : β} (hi : i < n) (hold : k (f i) = none) (hnew : k x = some b) :
    contents n k (update f i x) = b ::ₘ contents n k f := by
  obtain ⟨rest, h1, h2⟩ := contents_update (k := k) (f := f) hi x
  rw [h1, h2, hold, hnew]
  simp

theorem contents_drop [DecidableEq β] {x : α} {b : β} (hi : i < n) (hold : k (f i) = some b)
    (hnew : k x = none) :
    contents n k (update f i x) = (contents n k f).erase b := by
  obtain ⟨rest, h1, h2⟩ := contents_update (k := k) (f := f) hi x
  rw [h1, h2, hold, hnew]
  simp

theorem card_contents_le : Multiset.card (contents n k f) ≤ n := by
  induction n with
  | zero => exact Nat.le_refl 0
  | succ n ih =>
    simp only [contents, range_succ, filterMap_cons] at ih ⊢
    cases k (f n) <;> simp <;> omega

theorem card_contents_lt_iff : Multiset.card (contents n k f) < n ↔ ∃ i < n, k (f i) = none := by
  induction n with
  | zero => simp
  | succ n ih =>
    have hle := card_contents_le (n := n) (k := k) (f := f)
    simp only [contents, range_succ, filterMap_cons] at ih hle ⊢
    cases hk : k (f n) with
    | none =>
      refine iff_of_true ?_ ⟨n, n.lt_succ_self, hk⟩
      simpa using Nat.lt_succ_of_le hle
    | some b =>
      have hiff : (∃ i < n + 1, k (f i) = none) ↔ ∃ i < n, k (f i) = none := by
        constructor
        · rintro ⟨i, hi, h⟩
          refine ⟨i, lt_of_le_of_ne (Nat.le_of_lt_succ hi) ?_, h⟩
          rintro rfl
          rw [hk] at h
          exact absurd h (by simp)
        · rintro ⟨i, hi, h⟩
          exact ⟨i, hi.trans n.lt_succ_self, h⟩
      rw [hiff, ← ih]
      simp

theorem card_erase_eq_iff [DecidableEq β] {s : Multiset β} (h : Multiset.card s ≤ n) (x : β) :
    Multiset.card (s.erase x) = n ↔ x ∉ s ∧ Multiset.card s = n := by
  by_cases hx : x ∈ s
  · have hcard := card_erase_add_one hx
    exact iff_of_false (by omega) fun hc => hc.1 hx
  · rw [erase_of_notMem hx]
    exact ⟨fun hc => ⟨hx, hc⟩, And.right⟩

theorem countP_contents (q : β → Bool) :
    (contents n k f).countP (q · = true) = (List.range n).countP fun i => (k (f i)).any q := by
  induction n with
  | zero => rfl
  | succ n ih =>
    rw [List.range_succ, List.countP_append, ← ih]
    simp only [contents, range_succ, filterMap_cons]
    cases hk : k (f n) with
    | none => simp [hk]
    | some b => simp [hk, countP_cons]

theorem card_contents_le_countP (h : ∀ i < n, p (f i) = false → k (f i) = none) :
    Multiset.card (contents n k f) ≤ (List.range n).countP fun i => p (f i) := by
  induction n with
  | zero => exact Nat.le_refl 0
  | succ n ih =>
    have hrest := ih fun i hi => h i (hi.trans n.lt_succ_self)
    rw [List.range_succ, List.countP_append]
    simp only [contents, range_succ, filterMap_cons] at hrest ⊢
    cases hp : p (f n) with
    | false => simpa [h n n.lt_succ_self hp, hp] using hrest
    | true => cases k (f n) <;> simp [hp] <;> omega

/-- On the elements of `q`, the multiset `s` has nothing beyond `t`. -/
def CoveredOn [DecidableEq β] (q : β → Prop) (s t : Multiset β) : Prop :=
  ∀ x, q x → s.count x ≤ t.count x

section

variable [DecidableEq β] {q : β → Prop} {s t : Multiset β}

theorem CoveredOn.erase_left (h : CoveredOn q s t) (y : β) : CoveredOn q (s.erase y) t :=
  fun x hx => (count_le_of_le x (erase_le y s)).trans (h x hx)

theorem CoveredOn.erase {y : β} (h : CoveredOn q s (y ::ₘ t)) : CoveredOn q (s.erase y) t := by
  intro x hx
  have hxy := h x hx
  by_cases hne : x = y
  · subst hne
    rw [count_cons_self] at hxy
    rw [count_erase_self]
    omega
  · rwa [count_cons_of_ne hne, ← count_erase_of_ne hne] at hxy

theorem CoveredOn.cons (h : CoveredOn q s t) (y : β) : CoveredOn q (y ::ₘ s) (y ::ₘ t) := by
  intro x hx
  rw [count_cons, count_cons]
  exact Nat.add_le_add_right (h x hx) _

theorem le_erase_iff {l s : Multiset β} (h : l ≤ s) (x : β) :
    l ≤ s.erase x ↔ ¬ (x ∈ l ∧ s.count x ≤ l.count x) := by
  rw [le_iff_count] at h ⊢
  constructor
  · rintro hle ⟨hx, hcount⟩
    have hpos := count_pos.mpr hx
    have hlex := hle x
    rw [count_erase_self] at hlex
    omega
  · intro hno y
    by_cases hy : y = x
    · subst hy
      rw [count_erase_self]
      by_cases hmem : y ∈ l
      · have hlt : l.count y < s.count y := not_le.mp fun hc => hno ⟨hmem, hc⟩
        omega
      · rw [count_eq_zero_of_notMem hmem]
        exact Nat.zero_le _
    · rw [count_erase_of_ne hy]
      exact h y

theorem CoveredOn.countP_le [DecidablePred q] (h : CoveredOn q s t) :
    s.countP q ≤ Multiset.card t := by
  rw [countP_eq_card_filter]
  refine card_le_card (le_iff_count.mpr fun x => ?_)
  rw [count_filter]
  split_ifs with hx
  · exact h x hx
  · exact Nat.zero_le _

end

end IndexedTable
