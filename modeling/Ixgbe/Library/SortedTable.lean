import Mathlib.Data.List.Basic
import Mathlib.Order.Lattice

/-! # Tables kept as sorted lists

A list whose keys increase is a finite map, in which programs `erase` or `put` at the first key that
is not smaller. -/

namespace SortedTable

open List Option

variable {α κ : Type*} [LinearOrder κ]

section

variable (key : α → κ) (k : κ) (l : List α)

/-- The keys increase along the list. -/
def Sorted : Prop := l.Pairwise fun a b => key a < key b

/-- The entries with smaller keys, at the front. -/
def before : List α := l.takeWhile fun x => decide (key x < k)

/-- The entries from the first one on whose key is not smaller. -/
def after : List α := l.dropWhile fun x => decide (key x < k)

/-- The entry at the place of `k`, if it has this key. -/
def holder : Option α :=
  (after key k l).head?.filter fun x => decide (key x = k)

/-- The entries behind the place of `k`, without the one that has this key. -/
def rest : List α :=
  if (holder key k l).isSome then (after key k l).tail else after key k l

def erase : List α := before key k l ++ rest key k l

def put (x : α) (l : List α) : List α :=
  before key (key x) l ++ x :: rest key (key x) l

end

variable {key : α → κ} {k : κ} {l : List α} {x y r : α}

theorem before_append_after (key : α → κ) (k : κ) (l : List α) :
    before key k l ++ after key k l = l := takeWhile_append_dropWhile

theorem Sorted.eq_of_key (h : Sorted key l) (hx : x ∈ l) (hy : y ∈ l) (hxy : key x = key y) :
    x = y := by
  induction l with
  | nil => exact absurd hx not_mem_nil
  | cons z l ih =>
    obtain ⟨hz, hl⟩ := pairwise_cons.mp h
    rcases mem_cons.mp hx with rfl | hx' <;> rcases mem_cons.mp hy with rfl | hy'
    · rfl
    · exact absurd hxy (hz y hy').ne
    · exact absurd hxy (hz x hx').ne'
    · exact ih hl hx' hy'

theorem mem_before (h : Sorted key l) : y ∈ before key k l ↔ y ∈ l ∧ key y < k := by
  induction l with
  | nil => simp [before]
  | cons z l ih =>
    obtain ⟨hz, hl⟩ := pairwise_cons.mp h
    rw [before, takeWhile_cons]
    by_cases hk : key z < k
    · rw [if_pos (decide_eq_true hk), mem_cons, mem_cons, ← before, ih hl]
      constructor
      · rintro (rfl | hy)
        · exact ⟨.inl rfl, hk⟩
        · exact ⟨.inr hy.1, hy.2⟩
      · rintro ⟨rfl | hy, hlt⟩
        · exact .inl rfl
        · exact .inr ⟨hy, hlt⟩
    · rw [if_neg (by simpa using hk)]
      refine iff_of_false not_mem_nil fun ⟨hy, hlt⟩ => ?_
      rcases mem_cons.mp hy with rfl | hy
      · exact hk hlt
      · exact hk ((hz y hy).trans hlt)

theorem mem_after (h : Sorted key l) : y ∈ after key k l ↔ y ∈ l ∧ k ≤ key y := by
  induction l with
  | nil => simp [after]
  | cons z l ih =>
    obtain ⟨hz, hl⟩ := pairwise_cons.mp h
    rw [after, dropWhile_cons]
    by_cases hk : key z < k
    · rw [if_pos (decide_eq_true hk), mem_cons, ← after, ih hl]
      constructor
      · exact fun hy => ⟨.inr hy.1, hy.2⟩
      · rintro ⟨rfl | hy, hle⟩
        · exact absurd hk (not_lt.mpr hle)
        · exact ⟨hy, hle⟩
    · rw [if_neg (by simpa using hk)]
      refine ⟨fun hy => ⟨hy, ?_⟩, And.left⟩
      rcases mem_cons.mp hy with rfl | hy
      · exact not_lt.mp hk
      · exact (not_lt.mp hk).trans (hz y hy).le

theorem sorted_after (h : Sorted key l) : Sorted key (after key k l) :=
  h.sublist (dropWhile_sublist _)

theorem after_of_holder (hr : holder key k l = some r) : ∃ rest, after key k l = r :: rest := by
  rw [holder, filter_eq_some_iff] at hr
  exact ⟨_, (cons_head?_tail hr.1).symm⟩

section

variable (h : Sorted key l)

include h

/-- **The search finds the entry with the key.** -/
theorem holder_eq_some : holder key k l = some r ↔ r ∈ l ∧ key r = k := by
  rw [holder, filter_eq_some_iff, decide_eq_true_iff]
  refine ⟨fun ⟨hr, hk⟩ => ⟨((mem_after h).mp (mem_of_mem_head? hr)).1, hk⟩, fun ⟨hr, hk⟩ =>
    ⟨?_, hk⟩⟩
  have hmem : r ∈ after key k l := (mem_after h).mpr ⟨hr, hk.ge⟩
  -- the first entry from the place on cannot be another one
  cases hl : after key k l with
  | nil =>
    rw [hl] at hmem
    exact absurd hmem not_mem_nil
  | cons z rest =>
    have hz : z ∈ after key k l := by
      rw [hl]
      exact mem_cons_self
    rw [hl] at hmem
    rcases mem_cons.mp hmem with rfl | hmem
    · rfl
    · have hs := sorted_after (k := k) h
      rw [hl] at hs
      have hlt := (pairwise_cons.mp hs).1 r hmem
      exact absurd (hk ▸ hlt) (not_lt.mpr ((mem_after h).mp hz).2)

theorem holder_eq_none : holder key k l = none ↔ ∀ x ∈ l, key x ≠ k := by
  rw [eq_none_iff_forall_ne_some]
  exact ⟨fun hn x hx hk => hn x ((holder_eq_some h).mpr ⟨hx, hk⟩),
    fun hn r hr => hn r ((holder_eq_some h).mp hr).1 ((holder_eq_some h).mp hr).2⟩

theorem mem_rest : y ∈ rest key k l ↔ y ∈ l ∧ k < key y := by
  have hsplit : y ∈ l ∧ k < key y ↔ y ∈ after key k l ∧ key y ≠ k := by
    rw [mem_after h, and_assoc, lt_iff_le_and_ne, ne_comm]
  rw [hsplit, rest]
  cases hr : holder key k l with
  | none =>
    exact ⟨fun hy => ⟨hy, (holder_eq_none h).mp hr y ((mem_after h).mp hy).1⟩, And.left⟩
  | some r =>
    obtain ⟨rest, hl⟩ := after_of_holder hr
    have hs := sorted_after (k := k) h
    rw [hl] at hs
    have hk : key r = k := ((holder_eq_some h).mp hr).2
    rw [if_pos isSome_some, hl, tail_cons, mem_cons]
    constructor
    · exact fun hy => ⟨.inr hy, fun hyk =>
        absurd ((pairwise_cons.mp hs).1 y hy) (hk ▸ hyk ▸ lt_irrefl _)⟩
    · rintro ⟨rfl | hy, hne⟩
      · exact absurd hk hne
      · exact hy

/-- **An erase takes out the entry with the key**, and no other. -/
theorem mem_erase : y ∈ erase key k l ↔ y ∈ l ∧ key y ≠ k := by
  rw [erase, mem_append, mem_before h, mem_rest h, ← and_or_left, ne_iff_lt_or_gt]

/-- **A put replaces the entry with the key**, and no other. -/
theorem mem_put : y ∈ put key x l ↔ y = x ∨ y ∈ l ∧ key y ≠ key x := by
  rw [← mem_erase h, put, erase, mem_append, mem_cons, mem_append, or_left_comm]

theorem sorted_rest : Sorted key (rest key k l) := by
  rw [rest]
  split
  · exact (sorted_after h).sublist (tail_sublist _)
  · exact sorted_after h

theorem sorted_before : Sorted key (before key k l) :=
  h.sublist (takeWhile_sublist _)

theorem sorted_erase (k : κ) : Sorted key (erase key k l) := by
  refine pairwise_append.mpr ⟨sorted_before h, sorted_rest h, fun a ha b hb => ?_⟩
  exact ((mem_before h).mp ha).2.trans ((mem_rest h).mp hb).2

theorem sorted_put (x : α) : Sorted key (put key x l) := by
  refine pairwise_append.mpr ⟨sorted_before h, pairwise_cons.mpr
    ⟨fun b hb => ((mem_rest h).mp hb).2, sorted_rest h⟩, fun a ha b hb => ?_⟩
  have hax := ((mem_before h).mp ha).2
  rcases mem_cons.mp hb with rfl | hb
  · exact hax
  · exact hax.trans ((mem_rest h).mp hb).2

end

theorem length_erase (key : α → κ) (k : κ) (l : List α) :
    (erase key k l).length + (holder key k l).toList.length = l.length := by
  conv_rhs => rw [← before_append_after key k l]
  rw [erase, length_append, length_append, Nat.add_assoc, rest]
  cases hr : holder key k l with
  | none => simp
  | some r =>
    obtain ⟨rest, hl⟩ := after_of_holder hr
    simp [hl]

theorem length_put (key : α → κ) (x : α) (l : List α) :
    (put key x l).length = (erase key (key x) l).length + 1 := by
  rw [put, erase, length_append, length_append, length_cons, Nat.add_assoc]

end SortedTable
