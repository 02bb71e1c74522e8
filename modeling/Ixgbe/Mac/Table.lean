import Ixgbe.Hw.Basic
import Ixgbe.Library.IndexedTable

/-! # The MAC filter table

The routines on `adapter->mac_table` (`ixgbe_main.c`) with the generic register routines they call
(`ixgbe_common.c`). -/

namespace Ixgbe

open IndexedTable Function

/-- `struct ixgbe_mac_addr`, with the bits of its `state`. -/
structure MacEntry where
  addr : MacAddr
  pool : ℕ
  isDefault : Bool
  modified : Bool
  inUse : Bool
  deriving DecidableEq, Repr

structure RarRegs where
  ral : ℕ → U32
  rah : ℕ → U32
  mpsarLo : ℕ → U32
  mpsarHi : ℕ → U32

structure MacFilter where
  entries : ℕ → MacEntry
  rar : RarRegs

/-- `hw->mac.num_rar_entries`, and the index of the SAN address. -/
structure RarCfg where
  numRarEntries : ℕ
  sanMacRarIndex : ℕ
  num_ge : 127 ≤ numRarEntries
  num_le : numRarEntries ≤ 128

def rahAv : U32 := 0x80000000

section

variable (cfg : RarCfg) (r : RarRegs) (t : MacFilter)

def setVmdqGeneric (rar vmdq : ℕ) : RarRegs :=
  if rar ≥ cfg.numRarEntries then r
  else if vmdq < 32 then
    { r with mpsarLo := update r.mpsarLo rar (r.mpsarLo rar ||| shl1 vmdq) }
  else { r with mpsarHi := update r.mpsarHi rar (r.mpsarHi rar ||| shl1 (vmdq - 32)) }

def setRarGeneric (index : ℕ) (addr : MacAddr) (vmdq : ℕ) : RarRegs :=
  if index ≥ cfg.numRarEntries then r
  else
    let r := setVmdqGeneric cfg r index vmdq
    let rarLow : U32 := addr.extractLsb' 0 32
    let rarHigh := (r.rah index &&& ~~~(0x0000FFFF ||| rahAv)) |||
      (addr.extractLsb' 32 16).setWidth 32 ||| rahAv
    { r with
      ral := update r.ral index rarLow
      rah := update r.rah index rarHigh }

def clearRarWrites (index : ℕ) : RarRegs :=
  { r with
    ral := update r.ral index 0
    rah := update r.rah index (r.rah index &&& ~~~(0x0000FFFF ||| rahAv)) }

/-- It calls `ixgbe_clear_vmdq_generic`, which calls it again; the inner call finds the list empty.
-/
def clearRarGeneric (index : ℕ) : RarRegs :=
  if index ≥ cfg.numRarEntries then r
  else
    let r := clearRarWrites r index
    if r.mpsarLo index = 0 ∧ r.mpsarHi index = 0 then r
    else
      let r := { r with
        mpsarLo := update r.mpsarLo index 0
        mpsarHi := update r.mpsarHi index 0 }
      if index ≠ 0 ∧ index ≠ cfg.sanMacRarIndex then clearRarWrites r index else r

/-- The branch both synchronisation loops share. -/
def writeEntry (i : ℕ) : MacFilter :=
  let e := { t.entries i with modified := false }
  { entries := update t.entries i e
    rar := if e.inUse then setRarGeneric cfg t.rar i e.addr e.pool
      else clearRarGeneric cfg t.rar i }

def fullSyncMacTable : MacFilter :=
  (List.range cfg.numRarEntries).foldl (writeEntry cfg) t

def syncMacTable : MacFilter :=
  (List.range cfg.numRarEntries).foldl
    (fun t i => if (t.entries i).modified then writeEntry cfg t i else t) t

def macSetDefaultFilter (addr : MacAddr) (pf : ℕ) : MacFilter where
  entries := update t.entries 0 ⟨addr, pf, true, false, true⟩
  rar := setRarGeneric cfg t.rar 0 addr pf

/-- The index of the entry taken, or an error. -/
def addMacFilter (addr : MacAddr) (pool : ℕ) : ℤ × MacFilter :=
  if addr = 0 then (eInval, t)
  else
    match first cfg.numRarEntries (fun e => !e.inUse) t.entries with
    | none => (eNoMem, t)
    | some i =>
      let e := { t.entries i with addr := addr, pool := pool, modified := true, inUse := true }
      (i, syncMacTable cfg { t with entries := update t.entries i e })

def flushSwMacTable : MacFilter :=
  syncMacTable cfg
    { t with
      entries := fun i =>
        if i < cfg.numRarEntries then { t.entries i with modified := true, inUse := false }
        else t.entries i }

def delMacFilter (addr : MacAddr) (pool : ℕ) : ℤ × MacFilter :=
  if addr = 0 then (eInval, t)
  else
    match first cfg.numRarEntries (fun e => e.inUse && e.pool == pool && addr == e.addr)
      t.entries with
    | none => (eNoMem, t)
    | some i =>
      let e := { t.entries i with modified := true, inUse := false }
      (0, syncMacTable cfg { t with entries := update t.entries i e })

end

def MacEntry.synced (e : MacEntry) : MacEntry := { e with modified := false }

theorem MacEntry.synced_of_not_modified {e : MacEntry} (h : e.modified = false) : e.synced = e := by
  obtain ⟨_, _, _, m, _⟩ := e
  cases h
  rfl

open MacEntry

theorem foldl_writeEntry_entries (cfg : RarCfg) (p : MacEntry → Bool) (t : MacFilter) (n : ℕ) :
    ((List.range n).foldl
      (fun t i => if p (t.entries i) then writeEntry cfg t i else t) t).entries =
      fun i => if i < n ∧ p (t.entries i) = true then (t.entries i).synced else t.entries i := by
  induction n with
  | zero => simp
  | succ n ih =>
    rw [List.range_succ, List.foldl_append]
    generalize (List.range n).foldl (fun t i => if p (t.entries i) then writeEntry cfg t i else t) t
      = u at ih
    have hn : u.entries n = t.entries n := by rw [ih]; simp
    funext i
    by_cases hi : i = n
    · subst hi
      by_cases hp : p (t.entries i) = true
      · simp [hp, writeEntry, hn, synced]
      · simp [hp, hn]
    · have hlt : i < n + 1 ↔ i < n := by omega
      by_cases hp : p (t.entries n) = true
      · simp [hp, writeEntry, hi, ih, hlt]
      · simp [hp, ih, hlt]

theorem syncMacTable_entries (cfg : RarCfg) (t : MacFilter) :
    (syncMacTable cfg t).entries =
      fun i => if i < cfg.numRarEntries then (t.entries i).synced else t.entries i := by
  rw [syncMacTable, foldl_writeEntry_entries cfg modified]
  funext i
  by_cases hm : (t.entries i).modified = true
  · simp [hm]
  · rw [if_neg fun h => hm h.2, synced_of_not_modified (by simpa using hm), ite_self]

theorem fullSyncMacTable_entries (cfg : RarCfg) (t : MacFilter) :
    (fullSyncMacTable cfg t).entries =
      fun i => if i < cfg.numRarEntries then (t.entries i).synced else t.entries i := by
  have h := foldl_writeEntry_entries cfg (fun _ => true) t cfg.numRarEntries
  simpa [fullSyncMacTable] using h

/-- Unchanged, but for the mark. -/
def Settled (f g : ℕ → MacEntry) (i : ℕ) : Prop := ∀ j, j ≠ i → g j = f j ∨ g j = (f j).synced

inductive AddStep (n : ℕ) (f : ℕ → MacEntry) (addr : MacAddr) (pool : ℕ) : ℤ → (ℕ → MacEntry) → Prop
  | zero (h : addr = 0) : AddStep n f addr pool eInval f
  | full (h : addr ≠ 0) (hfull : ∀ i < n, (f i).inUse = true) : AddStep n f addr pool eNoMem f
  | added (i : ℕ) (g : ℕ → MacEntry) (h : addr ≠ 0) (hi : i < n) (hfree : (f i).inUse = false)
      (hnew : g i = { f i with addr := addr, pool := pool, modified := false, inUse := true })
      (hother : Settled f g i) : AddStep n f addr pool i g

inductive DelStep (n : ℕ) (f : ℕ → MacEntry) (addr : MacAddr) (pool : ℕ) : ℤ → (ℕ → MacEntry) → Prop
  | zero (h : addr = 0) : DelStep n f addr pool eInval f
  | absent (h : addr ≠ 0)
      (hno : ∀ i < n, (f i).inUse = true → (f i).pool = pool → (f i).addr ≠ addr) :
      DelStep n f addr pool eNoMem f
  | deleted (i : ℕ) (g : ℕ → MacEntry) (h : addr ≠ 0) (hi : i < n) (huse : (f i).inUse = true)
      (hpool : (f i).pool = pool) (haddr : (f i).addr = addr)
      (hnew : g i = { f i with modified := false, inUse := false })
      (hother : Settled f g i) : DelStep n f addr pool 0 g

section

variable {cfg : RarCfg}

theorem syncMacTable_update (t : MacFilter) {i : ℕ} (hi : i < cfg.numRarEntries) (e : MacEntry) :
    (syncMacTable cfg { t with entries := update t.entries i e }).entries i = e.synced ∧
      Settled t.entries
        (syncMacTable cfg { t with entries := update t.entries i e }).entries i := by
  rw [syncMacTable_entries]
  refine ⟨by simp [hi], fun j hj => ?_⟩
  by_cases hjn : j < cfg.numRarEntries
  · exact .inr (by simp [hj, hjn])
  · exact .inl (by simp [hj, hjn])

theorem addMacFilter_step (cfg : RarCfg) (t : MacFilter) (addr : MacAddr) (pool : ℕ) :
    AddStep cfg.numRarEntries t.entries addr pool (addMacFilter cfg t addr pool).1
      (addMacFilter cfg t addr pool).2.entries := by
  unfold addMacFilter
  by_cases h : addr = 0
  · rw [if_pos h]
    exact .zero h
  rw [if_neg h]
  cases hf : first cfg.numRarEntries (fun e => !e.inUse) t.entries with
  | none =>
    refine .full h fun i hi => ?_
    simpa using first_none hf hi
  | some i =>
    obtain ⟨hi, hfree⟩ := first_some hf
    obtain ⟨hnew, hother⟩ := syncMacTable_update t hi
      { t.entries i with addr := addr, pool := pool, modified := true, inUse := true }
    exact .added i _ h hi (by simpa using hfree) hnew hother

theorem delMacFilter_step (cfg : RarCfg) (t : MacFilter) (addr : MacAddr) (pool : ℕ) :
    DelStep cfg.numRarEntries t.entries addr pool (delMacFilter cfg t addr pool).1
      (delMacFilter cfg t addr pool).2.entries := by
  unfold delMacFilter
  by_cases h : addr = 0
  · rw [if_pos h]
    exact .zero h
  rw [if_neg h]
  cases hf : first cfg.numRarEntries (fun e => e.inUse && e.pool == pool && addr == e.addr)
      t.entries with
  | none =>
    refine .absent h fun i hi huse hpool haddr => ?_
    have hno := first_none hf hi
    simp [huse, hpool, haddr] at hno
  | some i =>
    obtain ⟨hi, hhit⟩ := first_some hf
    simp only [Bool.and_eq_true, beq_iff_eq] at hhit
    obtain ⟨hnew, hother⟩ := syncMacTable_update t hi
      { t.entries i with modified := true, inUse := false }
    exact .deleted i _ h hi hhit.1.1 hhit.1.2 hhit.2.symm hnew hother

end

def MacEntry.filter (e : MacEntry) : Option (MacAddr × ℕ) :=
  if e.inUse then some (e.addr, e.pool) else none

@[simp] theorem MacEntry.filter_synced (e : MacEntry) : e.synced.filter = e.filter := rfl

theorem MacEntry.filter_eq_none_iff {e : MacEntry} : e.filter = none ↔ e.inUse = false := by
  simp [filter]

def MacFilter.filters (cfg : RarCfg) (t : MacFilter) : Multiset (MacAddr × ℕ) :=
  contents cfg.numRarEntries MacEntry.filter t.entries

section

variable {cfg : RarCfg} {t : MacFilter}

section

variable {addr : MacAddr}

theorem mem_filters {pool : ℕ} : (addr, pool) ∈ t.filters cfg ↔
    ∃ i < cfg.numRarEntries,
      (t.entries i).inUse = true ∧ (t.entries i).addr = addr ∧ (t.entries i).pool = pool := by
  simp [MacFilter.filters, mem_contents, filter]

theorem filters_congr {t' : MacFilter}
    (h : ∀ i < cfg.numRarEntries, (t'.entries i).filter = (t.entries i).filter) :
    t'.filters cfg = t.filters cfg :=
  contents_congr h

@[simp] theorem fullSyncMacTable_filters : (fullSyncMacTable cfg t).filters cfg = t.filters cfg :=
  filters_congr fun i hi => by simp [fullSyncMacTable_entries, hi]

theorem flushSwMacTable_filters : (flushSwMacTable cfg t).filters cfg = 0 :=
  contents_eq_zero fun i hi => by
    simp [flushSwMacTable, syncMacTable_entries, hi, filter_eq_none_iff]

theorem contents_settled {n i : ℕ} {f g : ℕ → MacEntry} (h : Settled f g i) :
    contents n filter g = contents n filter (update f i (g i)) :=
  contents_congr fun j _ => by
    by_cases hj : j = i
    · rw [hj, Function.update_self]
    · rw [Function.update_of_ne hj]
      rcases h j hj with h | h
      · rw [h]
      · rw [h, filter_synced]

theorem addMacFilter_cases (cfg : RarCfg) (t : MacFilter) (addr : MacAddr) (pool : ℕ) :
    ((addMacFilter cfg t addr pool).1 < 0 ∧
        (addMacFilter cfg t addr pool).2.filters cfg = t.filters cfg ∧
        (addr = 0 ∨ Multiset.card (t.filters cfg) = cfg.numRarEntries)) ∨
      (0 ≤ (addMacFilter cfg t addr pool).1 ∧ addr ≠ 0 ∧
        Multiset.card (t.filters cfg) < cfg.numRarEntries ∧
        (addMacFilter cfg t addr pool).2.filters cfg = (addr, pool) ::ₘ t.filters cfg) := by
  have hstep := addMacFilter_step cfg t addr pool
  generalize addMacFilter cfg t addr pool = r at hstep ⊢
  obtain ⟨r, t'⟩ := r
  dsimp only at hstep ⊢
  generalize hg : t'.entries = g at hstep
  rw [MacFilter.filters, MacFilter.filters, hg]
  cases hstep with
  | zero h0 => exact .inl ⟨by decide, rfl, .inl h0⟩
  | full _ hfull =>
    refine .inl ⟨by decide, rfl, .inr (le_antisymm card_contents_le ?_)⟩
    by_contra hlt
    obtain ⟨i, hi, hfree⟩ := card_contents_lt_iff.mp (not_le.mp hlt)
    rw [filter_eq_none_iff, hfull i hi] at hfree
    exact absurd hfree (by decide)
  | added i _ h hi hfree hnew hother =>
    have hnone := filter_eq_none_iff.mpr hfree
    refine .inr ⟨Int.natCast_nonneg i, h, card_contents_lt_iff.mpr ⟨i, hi, hnone⟩, ?_⟩
    rw [contents_settled hother, hnew]
    exact contents_fill hi hnone rfl

theorem addMacFilter_filters_of_neg {pool : ℕ} (h : (addMacFilter cfg t addr pool).1 < 0) :
    (addMacFilter cfg t addr pool).2.filters cfg = t.filters cfg := by
  rcases addMacFilter_cases cfg t addr pool with ⟨-, hsame, -⟩ | ⟨hok, -⟩
  · exact hsame
  · exact absurd h (not_lt.mpr hok)

theorem addMacFilter_filters_of_nonneg {pool : ℕ} (h : 0 ≤ (addMacFilter cfg t addr pool).1) :
    addr ≠ 0 ∧ (addMacFilter cfg t addr pool).2.filters cfg = (addr, pool) ::ₘ t.filters cfg := by
  rcases addMacFilter_cases cfg t addr pool with ⟨hneg, -⟩ | ⟨-, haddr, -, hcons⟩
  · exact absurd hneg (not_lt.mpr h)
  · exact ⟨haddr, hcons⟩

theorem addMacFilter_filters (h : addr ≠ 0)
    (hroom : Multiset.card (t.filters cfg) < cfg.numRarEntries) (pool : ℕ) :
    0 ≤ (addMacFilter cfg t addr pool).1 ∧
      (addMacFilter cfg t addr pool).2.filters cfg = (addr, pool) ::ₘ t.filters cfg := by
  rcases addMacFilter_cases cfg t addr pool with ⟨-, -, hfail⟩ | ⟨hok, -, -, hcons⟩
  · rcases hfail with h0 | hfull
    · exact absurd h0 h
    · exact absurd hfull hroom.ne
  · exact ⟨hok, hcons⟩

theorem addMacFilter_neg_iff (h : addr ≠ 0) (pool : ℕ) :
    (addMacFilter cfg t addr pool).1 < 0 ↔
      Multiset.card (t.filters cfg) = cfg.numRarEntries := by
  rcases addMacFilter_cases cfg t addr pool with ⟨hneg, -, hfail⟩ | ⟨hok, -, hroom, -⟩
  · exact iff_of_true hneg (hfail.resolve_left h)
  · exact iff_of_false (not_lt.mpr hok) hroom.ne

theorem delMacFilter_filters (h : addr ≠ 0) (pool : ℕ) :
    (delMacFilter cfg t addr pool).2.filters cfg = (t.filters cfg).erase (addr, pool) := by
  have hstep := delMacFilter_step cfg t addr pool
  generalize delMacFilter cfg t addr pool = r at hstep ⊢
  obtain ⟨r, t'⟩ := r
  generalize hg : t'.entries = g at hstep
  rw [MacFilter.filters, hg]
  cases hstep with
  | zero h0 => exact absurd h0 h
  | absent _ hno =>
    rw [Multiset.erase_of_notMem, MacFilter.filters]
    intro hmem
    obtain ⟨i, hi, huse, haddr, hpool⟩ := mem_filters.mp hmem
    exact hno i hi huse hpool haddr
  | deleted i _ _ hi huse hpool haddr hnew hother =>
    rw [contents_settled hother, hnew]
    refine contents_drop hi ?_ rfl
    rw [filter, if_pos huse, haddr, hpool]

end

theorem delMacFilter_zero (pool : ℕ) : delMacFilter cfg t 0 pool = (eInval, t) := if_pos rfl

end

end Ixgbe
