import Ixgbe.Mac.Coherence

/-! # Inserting a receive address

`ixgbe_insert_mac_addr_generic` never comes to its test for a full table, so the high-water mark
moves beyond the end. -/

namespace Ixgbe

open EventRun

def errInvalidMacAddr : ℤ := -10

/-- With `n` entries left below the mark; `empty` is `first_empty_rar`. -/
def searchRar (r : RarRegs) (addr : MacAddr) : ℕ → ℕ → Option ℕ → ℕ × Option ℕ
  | 0, rar, empty => (rar, empty)
  | n + 1, rar, empty =>
    if rahAv &&& r.rah rar = 0 ∧ empty = none then searchRar r addr n (rar + 1) (some rar)
    else if r.rah rar &&& 0xFFFF = (addr.extractLsb' 32 16).setWidth 32 ∧
        r.ral rar = addr.extractLsb' 0 32 then (rar, empty)
    else searchRar r addr n (rar + 1) empty

structure RarTable where
  regs : RarRegs
  highwater : ℕ

/-- Pool 0 is taken off the first address. -/
def finishInsert (cfg : RarCfg) (rar : ℕ) (t : RarTable) : ℤ × RarTable :=
  (rar, if rar = 0 then { t with regs := (clearVmdq cfg 1 t.regs 0 (some 0)).getD t.regs } else t)

def insertMacAddrGeneric (cfg : RarCfg) (t : RarTable) (addr : MacAddr) (vmdq : ℕ) : ℤ × RarTable :=
  let s := searchRar t.regs addr t.highwater 0 none
  if s.1 < t.highwater then
    finishInsert cfg s.1 { t with regs := setVmdqGeneric cfg t.regs s.1 vmdq }
  else match s.2 with
    | some e => finishInsert cfg e { t with regs := setRarGeneric cfg t.regs e addr vmdq }
    | none =>
      if s.1 = t.highwater then
        finishInsert cfg s.1 ⟨setRarGeneric cfg t.regs s.1 addr vmdq, t.highwater + 1⟩
      else if cfg.numRarEntries ≤ s.1 then (errInvalidMacAddr, t)
      else finishInsert cfg s.1 t

def OtherAt (r : RarRegs) (addr : MacAddr) (i : ℕ) : Prop :=
  rahAv &&& r.rah i ≠ 0 ∧ ¬ (r.rah i &&& 0xFFFF = (addr.extractLsb' 32 16).setWidth 32 ∧
    r.ral i = addr.extractLsb' 0 32)

def NoRoom (cfg : RarCfg) (t : RarTable) (addr : MacAddr) : Prop :=
  ∀ i < cfg.numRarEntries, OtherAt t.regs addr i

/-- The mark stays in the table, nothing is written beyond, and the lack of room is reported exactly
if there is none. -/
def InsertsWell (cfg : RarCfg) (t : RarTable) (addr : MacAddr) (vmdq : ℕ) : Prop :=
  let res := insertMacAddrGeneric cfg t addr vmdq
  res.2.highwater ≤ cfg.numRarEntries ∧
    (∀ i, cfg.numRarEntries ≤ i → res.2.regs.row i = t.regs.row i) ∧
    (res.1 = errInvalidMacAddr ∧ res.2.regs = t.regs ↔ NoRoom cfg t addr)

section

variable (cfg : RarCfg) (r : RarRegs) (addr : MacAddr)

theorem searchRar_le (n rar : ℕ) (empty : Option ℕ) :
    (searchRar r addr n rar empty).1 ≤ rar + n := by
  induction n generalizing rar empty with
  | zero => exact le_rfl
  | succ n ih =>
    unfold searchRar
    split_ifs
    · exact (ih ..).trans (by omega)
    · omega
    · exact (ih ..).trans (by omega)

theorem searchRar_none (n rar : ℕ) (empty : Option ℕ) :
    searchRar r addr n rar empty = (rar + n, none) ↔
      empty = none ∧ ∀ i, rar ≤ i → i < rar + n → OtherAt r addr i := by
  induction n generalizing rar empty with
  | zero =>
    simp only [searchRar, Nat.add_zero, Prod.mk.injEq, true_and]
    exact ⟨fun h => ⟨h, fun i h1 h2 => by omega⟩, fun h => h.1⟩
  | succ n ih =>
    have hnext : rar + (n + 1) = rar + 1 + n := by omega
    have hhead : (∀ i, rar ≤ i → i < rar + (n + 1) → OtherAt r addr i) ↔
        OtherAt r addr rar ∧ ∀ i, rar + 1 ≤ i → i < rar + 1 + n → OtherAt r addr i := by
      refine ⟨fun h => ⟨h rar le_rfl (by omega), fun i h1 h2 => h i (by omega) (by omega)⟩,
        fun h i h1 h2 => ?_⟩
      rcases Nat.eq_or_lt_of_le h1 with rfl | hlt
      · exact h.1
      · exact h.2 i hlt (by omega)
    rw [hhead]
    unfold searchRar
    split_ifs with hempty hmatch
    · rw [hnext, ih]
      exact iff_of_false (by simp) fun h => h.2.1.1 hempty.1
    · refine iff_of_false (fun h => ?_) fun h => h.2.1.2 hmatch
      have := congrArg Prod.fst h
      omega
    · rw [hnext, ih]
      refine and_congr_right fun h => ⟨fun hrest => ⟨⟨fun hav => hempty ⟨hav, h⟩, hmatch⟩, hrest⟩,
        fun hrest => hrest.2⟩

theorem setVmdqGeneric_row_of_le (i vmdq : ℕ) {j : ℕ} (hj : cfg.numRarEntries ≤ j) :
    (setVmdqGeneric cfg r i vmdq).row j = r.row j := by
  unfold setVmdqGeneric
  split_ifs with h
  · rfl
  · simp [RarRegs.row, show j ≠ i by omega]
  · simp [RarRegs.row, show j ≠ i by omega]

theorem setRarGeneric_row_of_le (i vmdq : ℕ) {j : ℕ} (hj : cfg.numRarEntries ≤ j) :
    (setRarGeneric cfg r i addr vmdq).row j = r.row j := by
  rcases Nat.lt_or_ge i cfg.numRarEntries with hi | hi
  · rw [setRarGeneric_row hi, if_neg (by omega)]
  · rw [setRarGeneric, if_pos hi]

theorem finishInsert_row (rar : ℕ) (t : RarTable) {j : ℕ} (hj : cfg.numRarEntries ≤ j) :
    (finishInsert cfg rar t).2.regs.row j = t.regs.row j := by
  have hpos : j ≠ 0 := by have := cfg.num_ge; omega
  unfold finishInsert clearVmdq
  split_ifs <;> simp_all [RarRegs.row, clearPools]

theorem finishInsert_highwater (rar : ℕ) (t : RarTable) :
    (finishInsert cfg rar t).2.highwater = t.highwater := by
  unfold finishInsert
  split_ifs <;> rfl

theorem finishInsert_ne (rar : ℕ) (t : RarTable) :
    (finishInsert cfg rar t).1 ≠ errInvalidMacAddr := by
  simp [finishInsert, errInvalidMacAddr]

/-- A call ends at the mark, or leaves it where it is. -/
theorem insertMacAddrGeneric_cases (t : RarTable) (vmdq : ℕ) :
    searchRar t.regs addr t.highwater 0 none = (t.highwater, none) ∧
      insertMacAddrGeneric cfg t addr vmdq = finishInsert cfg t.highwater
        ⟨setRarGeneric cfg t.regs t.highwater addr vmdq, t.highwater + 1⟩ ∨
    searchRar t.regs addr t.highwater 0 none ≠ (t.highwater, none) ∧
      ∃ rar regs, insertMacAddrGeneric cfg t addr vmdq =
          finishInsert cfg rar ⟨regs, t.highwater⟩ ∧
        ∀ j, cfg.numRarEntries ≤ j → regs.row j = t.regs.row j := by
  have hle := searchRar_le t.regs addr t.highwater 0 none
  unfold insertMacAddrGeneric
  generalize searchRar t.regs addr t.highwater 0 none = s at hle
  obtain ⟨rar, empty⟩ := s
  by_cases hfound : rar < t.highwater
  · rw [if_pos hfound]
    exact .inr ⟨by simp [hfound.ne], _, _, rfl,
      fun j hj => setVmdqGeneric_row_of_le _ _ rar vmdq hj⟩
  · obtain rfl : rar = t.highwater := by omega
    rw [if_neg hfound]
    cases empty with
    | some e => exact .inr ⟨by simp, _, _, rfl, fun j hj => setRarGeneric_row_of_le _ _ _ e vmdq hj⟩
    | none => exact .inl ⟨rfl, if_pos rfl⟩

variable {cfg addr} in
theorem insertsWell_iff {t : RarTable} (hle : t.highwater ≤ cfg.numRarEntries) (vmdq : ℕ) :
    InsertsWell cfg t addr vmdq ↔ ¬ NoRoom cfg t addr := by
  have hsearch : searchRar t.regs addr t.highwater 0 none = (t.highwater, none) ↔
      ∀ i < t.highwater, OtherAt t.regs addr i := by
    simpa using searchRar_none t.regs addr t.highwater 0 none
  unfold InsertsWell
  rcases insertMacAddrGeneric_cases cfg addr t vmdq with ⟨hs, heq⟩ | ⟨hs, rar, regs, heq, hrow⟩
  · -- the entry at the mark is taken, whether there is one or not
    simp only [heq, finishInsert_highwater]
    constructor
    · exact fun h hno => finishInsert_ne _ _ _ (h.2.2.mpr hno).1
    · intro hno
      have hne : t.highwater ≠ cfg.numRarEntries := fun hend =>
        hno fun i hi => hsearch.mp hs i (hend ▸ hi)
      refine ⟨by omega, fun j hj => ?_, iff_of_false (fun h => finishInsert_ne _ _ _ h.1) hno⟩
      rw [finishInsert_row _ _ _ hj, setRarGeneric_row_of_le _ _ _ _ _ hj]
  · have hno : ¬ NoRoom cfg t addr := fun h => hs (hsearch.mpr fun i hi => h i (by omega))
    simp only [heq, finishInsert_highwater]
    refine iff_of_true ⟨hle, fun j hj => ?_,
      iff_of_false (fun h => finishInsert_ne _ _ _ h.1) hno⟩ hno
    rw [finishInsert_row _ _ _ hj, hrow j hj]

end

def insertStep (cfg : RarCfg) (t : RarTable) (e : MacAddr × ℕ) : RarTable :=
  (insertMacAddrGeneric cfg t e.1 e.2).2

/-- **The calls of a run are right** iff none finds all entries taken by other addresses. -/
theorem insert_mac_addr_iff (cfg : RarCfg) (t : RarTable) (hle : t.highwater ≤ cfg.numRarEntries)
    (es : List (MacAddr × ℕ)) :
    Along (insertStep cfg) (fun t e => InsertsWell cfg t e.1 e.2) t es ↔
      Along (insertStep cfg) (fun t e => ¬ NoRoom cfg t e.1) t es := by
  have hstep : ∀ (t : RarTable) (e : MacAddr × ℕ), t.highwater ≤ cfg.numRarEntries → True →
      ¬ NoRoom cfg t e.1 → (insertStep cfg t e).highwater ≤ cfg.numRarEntries :=
    fun t e hle _ hok => ((insertsWell_iff hle e.2).mpr hok).1
  exact along_iff_along (fun _ _ => True) hstep (fun _ e hle _ => insertsWell_iff hle e.2) hle
    (along_of_forall t es fun _ _ => trivial)

/-- 128 entries that are all valid with address 0, or all blank. -/
def uniformTable (rah : U32) : RarTable := ⟨⟨fun _ => 0, fun _ => rah, fun _ => 0, fun _ => 0⟩, 128⟩

theorem insert_mac_addr_blank :
    Along (insertStep ⟨128, 127, by decide, le_rfl⟩)
      (fun t e => InsertsWell ⟨128, 127, by decide, le_rfl⟩ t e.1 e.2) (uniformTable 0) [(1, 0)] :=
  (insert_mac_addr_iff _ _ le_rfl _).2 ⟨fun h => (h 0 (by decide)).1 (by decide), trivial⟩

/-- The call returns 128, and the mark is 129. -/
theorem insert_mac_addr_full :
    let res := insertMacAddrGeneric ⟨128, 127, by decide, le_rfl⟩ (uniformTable 0x80000000) 1 0
    res.1 = 128 ∧ res.2.highwater = 129 := by
  decide

end Ixgbe
