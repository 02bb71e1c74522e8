import Mathlib.Data.Finset.Card

/-! # Multimaps with a bounded number of keys

At most `cap` keys may have a non-empty set; one reserved key does not count. -/

namespace BoundedMultimap

open Finset

variable {κ π ι : Type*} [Fintype κ] [DecidableEq κ] [DecidableEq π]

/-- The keys in use, the reserved key `r` aside. -/
def occupied (r : κ) (m : κ → Finset π) : Finset κ :=
  Finset.univ.filter fun k => k ≠ r ∧ (m k).Nonempty

/-- It would need one of the `cap` places, and all are taken. -/
def Rejects (r : κ) (cap : ℕ) (m : κ → Finset π) (k : κ) : Prop :=
  k ≠ r ∧ m k = ∅ ∧ cap ≤ (occupied r m).card

instance (r : κ) (cap : ℕ) (m : κ → Finset π) (k : κ) : Decidable (Rejects r cap m k) :=
  inferInstanceAs (Decidable (_ ∧ _ ∧ _))

/-- Put `p` into the set of `k`, if there is room for `k`. -/
def join (r : κ) (cap : ℕ) (m : κ → Finset π) (k : κ) (p : π) : κ → Finset π :=
  if Rejects r cap m k then m else Function.update m k (insert p (m k))

/-- Take `p` out of the set of `k`. -/
def leave (m : κ → Finset π) (k : κ) (p : π) : κ → Finset π :=
  Function.update m k ((m k).erase p)

omit [DecidableEq π] in
@[simp] theorem mem_occupied {r : κ} {m : κ → Finset π} {k : κ} :
    k ∈ occupied r m ↔ k ≠ r ∧ (m k).Nonempty := by
  simp [occupied]

omit [Fintype κ] in
theorem leave_of_empty {m : κ → Finset π} {k : κ} (p : π) (h : m k = ∅) : leave m k p = m := by
  rw [leave, h, erase_empty, ← h, Function.update_eq_self]

omit [DecidableEq π] in
/-- **Keys and slots.** With distinct keys in the slots in use there are as many keys as slots iff
every slot is in use. -/
theorem card_le_occupied_iff {r : κ} {m : κ → Finset π} (slots : Finset ι) (key : ι → κ)
    (used : ι → Prop) (hinj : ∀ i ∈ slots, ∀ j ∈ slots, used i → used j → key i = key j → i = j)
    (hkey : ∀ i ∈ slots, used i → key i ∈ occupied r m)
    (hslot : ∀ k ∈ occupied r m, ∃ i ∈ slots, used i ∧ key i = k) :
    slots.card ≤ (occupied r m).card ↔ ∀ i ∈ slots, used i := by
  classical
  have hcard : (slots.filter used).card = (occupied r m).card := by
    refine card_bij (fun i _ => key i) ?_ ?_ ?_
    · intro i hi
      obtain ⟨hs, hu⟩ := mem_filter.mp hi
      exact hkey i hs hu
    · intro i hi j hj h
      obtain ⟨hsi, hui⟩ := mem_filter.mp hi
      obtain ⟨hsj, huj⟩ := mem_filter.mp hj
      exact hinj i hsi j hsj hui huj h
    · intro k hk
      obtain ⟨i, hs, hu, rfl⟩ := hslot k hk
      exact ⟨i, mem_filter.mpr ⟨hs, hu⟩, rfl⟩
  rw [← hcard]
  constructor
  · intro h i hi
    have heq := eq_of_subset_of_card_le (filter_subset used slots) h
    exact (mem_filter.mp (heq.symm ▸ hi)).2
  · intro h
    rw [filter_true_of_mem h]

end BoundedMultimap
