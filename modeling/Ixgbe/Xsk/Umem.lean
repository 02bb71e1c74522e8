import Ixgbe.Tx.Descriptors

/-! # Mapping the pages of a zero-copy pool

`ixgbe_xsk_umem_dma_map` (`ixgbe_xsk.c`), in a build without `xsk_buff_pool`. Its cleanup counts
with `j` and unmaps the page at `i`, where the mapping failed. -/

namespace Ixgbe

open Function List

/-- `pool->pages[i].dma`, and the calls that map and unmap, the latest first. -/
structure UmemPages where
  dma : ℕ → DmaAddr
  mapped : List DmaAddr
  unmapped : List DmaAddr

/-- With `left` pages from `i` on; `map i` is none where `dma_mapping_error` says so. The result is
the page that could not be mapped. -/
def umemMapLoop (map : ℕ → Option DmaAddr) : (left i : ℕ) → UmemPages → Option ℕ × UmemPages
  | 0, _, s => (none, s)
  | left + 1, i, s =>
    match map i with
    | none => (some i, s)
    | some a => umemMapLoop map left (i + 1)
        { s with dma := update s.dma i a, mapped := a :: s.mapped }

/-- The body of the loop at `out_unmap`. -/
def umemUnmapPage (i : ℕ) (s : UmemPages) : UmemPages :=
  { s with dma := update s.dma i 0, unmapped := s.dma i :: s.unmapped }

def xskUmemDmaMap (map : ℕ → Option DmaAddr) (npgs : ℕ) (dma : ℕ → DmaAddr) : ℤ × UmemPages :=
  match umemMapLoop map npgs 0 ⟨dma, [], []⟩ with
  | (none, s) => (0, s)
  | (some i, s) => (-1, (umemUnmapPage i)^[i] s)

/-- The mapping of page `k` is the first to fail. -/
def FailsAt (map : ℕ → Option DmaAddr) (npgs k : ℕ) : Prop :=
  k < npgs ∧ map k = none ∧ ∀ i < k, (map i).isSome = true

variable {map : ℕ → Option DmaAddr}

theorem FailsAt.forall_iff {npgs k : ℕ} {P : ℕ → Prop} (h : FailsAt map npgs k) :
    (∀ k', FailsAt map npgs k' → P k') ↔ P k := by
  refine ⟨fun hall => hall k h, fun hk k' h' => ?_⟩
  rcases lt_trichotomy k k' with hlt | rfl | hlt
  · exact absurd (h'.2.2 k hlt) (by simp [h.2.1])
  · exact hk
  · exact absurd (h.2.2 k' hlt) (by simp [h'.2.1])

/-- **The loop** maps the pages below `k`, the first that fails or the end. -/
theorem umemMapLoop_spec (map : ℕ → Option DmaAddr) (left i : ℕ) (s : UmemPages) : ∃ k s',
    umemMapLoop map left i s = (if k < i + left then some k else none, s') ∧ i ≤ k ∧
      k ≤ i + left ∧ (∀ j, i ≤ j → j < k → (map j).isSome = true) ∧
      (k < i + left → map k = none) ∧ s'.dma k = s.dma k ∧
      s'.mapped = ((range' i (k - i)).filterMap map).reverse ++ s.mapped ∧
      s'.unmapped = s.unmapped := by
  induction left generalizing i s with
  | zero =>
    exact ⟨i, s, by simp [umemMapLoop], le_rfl, le_rfl, by omega, by simp, rfl, by simp, rfl⟩
  | succ left ih =>
    rw [umemMapLoop]
    cases ha : map i with
    | none =>
      exact ⟨i, s, by simp, le_rfl, by omega, by omega, fun _ => ha, rfl, by simp, rfl⟩
    | some a =>
      obtain ⟨k, s', heq, hle, hend, hok, hnone, hdma, hmapped, hunmapped⟩ := ih (i + 1)
        { s with dma := update s.dma i a, mapped := a :: s.mapped }
      rw [Nat.add_right_comm] at heq hend hnone
      refine ⟨k, s', heq, by omega, hend, fun j hj hjk => ?_, hnone,
        hdma.trans (update_of_ne (by omega) ..), ?_, hunmapped⟩
      · rcases hj.eq_or_lt with rfl | hlt
        · exact Option.isSome_of_eq_some ha
        · exact hok j hlt hjk
      · obtain ⟨n, hn⟩ : ∃ n, k - i = n + 1 := ⟨k - i - 1, by omega⟩
        rw [hmapped, hn, show k - (i + 1) = n by omega, range'_succ, filterMap_cons_some ha,
          reverse_cons, append_assoc]
        rfl

/-- **The cleanup** unmaps what page `i` had before, and zero from then on. -/
theorem unmapped_iterate (i n : ℕ) (s : UmemPages) :
    ((umemUnmapPage i)^[n + 1] s).unmapped = replicate n 0 ++ s.dma i :: s.unmapped ∧
      ((umemUnmapPage i)^[n + 1] s).dma i = 0 ∧
      ((umemUnmapPage i)^[n + 1] s).mapped = s.mapped := by
  induction n with
  | zero => exact ⟨rfl, update_self .., rfl⟩
  | succ n ih =>
    obtain ⟨hunmapped, hdma, hmapped⟩ := ih
    rw [iterate_succ_apply']
    generalize (umemUnmapPage i)^[n + 1] s = t at hunmapped hdma hmapped ⊢
    refine ⟨?_, update_self .., hmapped⟩
    change t.dma i :: t.unmapped = _
    rw [hdma, hunmapped, replicate_succ, cons_append]

/-- On an error, what was mapped is unmapped once, and nothing else is. -/
def UmemUnwinds (map : ℕ → Option DmaAddr) (npgs : ℕ) (dma : ℕ → DmaAddr) : Prop :=
  (xskUmemDmaMap map npgs dma).1 ≠ 0 →
    (xskUmemDmaMap map npgs dma).2.unmapped.Perm (xskUmemDmaMap map npgs dma).2.mapped

/-- Only if the first page fails, or if the pages mapped are at the address that the one that
failed had before and at zero. -/
theorem xskUmemDmaMap_unwinds_iff (map : ℕ → Option DmaAddr) (npgs : ℕ) (dma : ℕ → DmaAddr) :
    UmemUnwinds map npgs dma ↔ ∀ k, FailsAt map npgs k →
      k = 0 ∨ (dma k :: replicate (k - 1) 0).Perm ((range k).filterMap map) := by
  obtain ⟨k, s, heq, -, hend, hok, hnone, hdma, hmapped, hunmapped⟩ :=
    umemMapLoop_spec map npgs 0 ⟨dma, [], []⟩
  rw [Nat.zero_add] at heq hend hnone
  rw [Nat.sub_zero, append_nil, ← range_eq_range'] at hmapped
  rw [UmemUnwinds, xskUmemDmaMap, heq]
  by_cases hk : k < npgs
  · have hfails : FailsAt map npgs k := ⟨hk, hnone hk, fun j => hok j j.zero_le⟩
    rw [hfails.forall_iff, if_pos hk]
    cases k with
    | zero => exact iff_of_true (fun _ => by simp [hmapped, hunmapped]) (.inl rfl)
    | succ n =>
      obtain ⟨hun, -, hmap⟩ := unmapped_iterate (n + 1) n s
      simp only [hun, hmap, hmapped, hdma, hunmapped]
      rw [or_iff_right n.succ_ne_zero, forall_prop_of_true (by decide), Nat.add_sub_cancel,
        (perm_append_singleton ..).congr_left, (reverse_perm _).congr_right]
  · rw [if_neg hk]
    refine iff_of_true (fun hne => absurd rfl hne) fun k' hk' => ?_
    exact absurd (hok k' k'.zero_le (by have := hk'.1; omega)) (by simp [hk'.2.1])

/-- Two pages, the second fails: the first stays mapped, and address zero is unmapped. -/
theorem xskUmemDmaMap_leaks_first :
    ¬ UmemUnwinds (fun i => if i = 0 then some 0x1000 else none) 2 (fun _ => 0) := by
  intro h
  exact absurd (h (by decide)) (by decide)

end Ixgbe
