import Ixgbe.Library.Ring

/-! # Queues stored in a ring

The oldest entry is at `head`, the next one goes to `tail`; `contents` lists the entries, oldest
first. -/

namespace RingFifo

open Ring List

variable {α : Type*} {n head tail : ℕ}

/-- The entries from `head` to `tail`, oldest first. -/
def contents (n : ℕ) (f : ℕ → α) (head tail : ℕ) : List α :=
  (List.range (dist n head tail)).map fun k => f (slot n head k)

@[simp] theorem length_contents (n : ℕ) (f : ℕ → α) (head tail : ℕ) :
    (contents n f head tail).length = dist n head tail := by
  simp [contents]

@[simp] theorem contents_self (n : ℕ) (f : ℕ → α) (i : ℕ) : contents n f i i = [] := by
  rw [contents, dist_self, range_zero, map_nil]

theorem dist_eq_zero_iff (hh : head < n) (ht : tail < n) : dist n head tail = 0 ↔ head = tail := by
  constructor
  · intro h
    have hslot := slot_dist hh ht
    rwa [h, slot_zero hh] at hslot
  · rintro rfl
    exact dist_self n head

theorem next_lt (hi : head < n) : next n head < n := by
  rw [next_eq_slot hi]
  exact slot_lt (Nat.zero_lt_of_lt hi) _ _

theorem dist_next_tail (hh : head < n) (ht : tail < n) (hroom : dist n head tail + 1 < n) :
    dist n head (next n tail) = dist n head tail + 1 := by
  have hslot : next n tail = slot n head (dist n head tail + 1) := by
    rw [← next_slot (Nat.zero_lt_of_lt hh), slot_dist hh ht]
  rw [hslot, dist_slot hh hroom]

theorem dist_next_head (hh : head < n) (ht : tail < n) (hpos : 0 < dist n head tail) :
    dist n (next n head) tail = dist n head tail - 1 := by
  have hlt := dist_lt (Nat.zero_lt_of_lt hh) head tail
  have hslot : slot n (next n head) (dist n head tail - 1) = tail := by
    rw [slot_next hh, Nat.sub_add_cancel hpos, slot_dist hh ht]
  rw [← hslot, dist_slot (next_lt hh) (by omega), hslot]

theorem contents_push (f : ℕ → α) (x : α) (hh : head < n) (ht : tail < n)
    (hroom : dist n head tail + 1 < n) :
    contents n (Function.update f tail x) head (next n tail) = contents n f head tail ++ [x] := by
  have hlt := dist_lt (Nat.zero_lt_of_lt hh) head tail
  rw [contents, dist_next_tail hh ht hroom, range_succ, map_append, map_singleton,
    slot_dist hh ht, Function.update_self, contents]
  refine congrArg (· ++ [x]) (map_congr_left fun k hk => Function.update_of_ne ?_ _ _)
  -- an occupied place is not the tail
  rw [mem_range] at hk
  have hne := slot_ne (b := head) (show k < n by omega) hlt (by omega)
  rwa [slot_dist hh ht] at hne

/-- **A step of the head drops the oldest entry.** -/
theorem contents_pop (f : ℕ → α) (hh : head < n) (ht : tail < n) (hne : head ≠ tail) :
    contents n f head tail = f head :: contents n f (next n head) tail := by
  have hpos : 0 < dist n head tail :=
    Nat.pos_of_ne_zero fun h => hne ((dist_eq_zero_iff hh ht).mp h)
  obtain ⟨m, hm⟩ := Nat.exists_eq_add_of_le' hpos
  rw [contents, contents, dist_next_head hh ht hpos, hm, Nat.add_sub_cancel,
    range_succ_eq_map, map_cons, map_map, slot_zero hh]
  refine congrArg (f head :: ·) (map_congr_left fun k _ => ?_)
  rw [Function.comp_apply, slot_next hh]

end RingFifo
