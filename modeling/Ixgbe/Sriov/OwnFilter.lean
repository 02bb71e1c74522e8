import Ixgbe.Mac.Steps
import Ixgbe.Sriov.Admin

/-! # The PF's own filter

`ixgbe_mac_set_default_filter` uses the first entry, and the stack may add and remove the PF's
address too. -/

namespace Ixgbe

open EventRun IndexedTable Function Multiset

/-- With the additions and removals of each unicast address. -/
structure UcTable where
  table : MacFilter
  synced : MacAddr → ℕ
  unsynced : MacAddr → ℕ

/-- Between two changes of the PF's own address. -/
inductive UcOp
  | ucSync (addr : MacAddr)
  | ucUnsync (addr : MacAddr)
  | vfAdd (addr : MacAddr) (pool : ℕ)
  | vfDel (addr : MacAddr) (pool : ℕ)
  deriving DecidableEq, Repr

def ucStep (cfg : AdapterCfg) (s : UcTable) : UcOp → UcTable
  | .ucSync addr =>
    let r := ucSync cfg s.table addr
    { s with
      table := r.2
      synced := if r.1 = 0 then Function.update s.synced addr (s.synced addr + 1) else s.synced }
  | .ucUnsync addr =>
    { s with
      table := ucUnsync cfg s.table addr
      unsynced := Function.update s.unsynced addr (s.unsynced addr + 1) }
  | .vfAdd addr pool => { s with table := (addMacFilter cfg.toRarCfg s.table addr pool).2 }
  | .vfDel addr pool => { s with table := (delMacFilter cfg.toRarCfg s.table addr pool).2 }

/-- The address was added before it is removed, and a VF has its own pool. -/
def UcOp.AfterSync (cfg : AdapterCfg) (s : UcTable) : UcOp → Prop
  | .ucSync _ => True
  | .ucUnsync addr => 0 < s.synced addr
  | .vfAdd _ pool => pool ≠ cfg.pf
  | .vfDel _ pool => pool ≠ cfg.pf

def UcOp.Matched (cfg : AdapterCfg) (s : UcTable) : UcOp → Prop
  | .ucSync _ => True
  | .ucUnsync addr => s.unsynced addr < s.synced addr
  | .vfAdd _ pool => pool ≠ cfg.pf
  | .vfDel _ pool => pool ≠ cfg.pf

def OwnInstalled (cfg : AdapterCfg) (hwAddr : MacAddr) (t : MacFilter) : Prop :=
  ∃ i < cfg.numRarEntries, (t.entries i).inUse = true ∧ (t.entries i).addr = hwAddr ∧
    (t.entries i).pool = cfg.pf

def OwnFirst (hwAddr : MacAddr) (t : MacFilter) : Prop :=
  (t.entries 0).inUse = true ∧ (t.entries 0).isDefault = true ∧ (t.entries 0).addr = hwAddr

def defaultUcTable (cfg : AdapterCfg) (t : MacFilter) (hwAddr : MacAddr) : UcTable where
  table := macSetDefaultFilter cfg.toRarCfg t hwAddr cfg.pf
  synced _ := 0
  unsynced _ := 0

section

variable {cfg : AdapterCfg} {hwAddr : MacAddr} {s : UcTable} {t : MacFilter}

structure OwnEntry (cfg : AdapterCfg) (hwAddr : MacAddr) (t : MacFilter) : Prop where
  first : OwnFirst hwAddr t
  pool : (t.entries 0).pool = cfg.pf

theorem zero_lt_numRarEntries (cfg : RarCfg) : 0 < cfg.numRarEntries :=
  lt_of_lt_of_le (by decide) cfg.num_ge

theorem OwnEntry.installed (h : OwnEntry cfg hwAddr t) : OwnInstalled cfg hwAddr t :=
  ⟨0, zero_lt_numRarEntries _, h.first.1, h.first.2.2, h.pool⟩

theorem OwnEntry.of_settled {t' : MacFilter} (h : OwnEntry cfg hwAddr t)
    (h0 : t'.entries 0 = t.entries 0 ∨ t'.entries 0 = (t.entries 0).synced) :
    OwnEntry cfg hwAddr t' := by
  rcases h0 with h0 | h0
  · exact ⟨by rw [OwnFirst, h0]; exact h.first, by rw [h0]; exact h.pool⟩
  · exact ⟨by rw [OwnFirst, h0]; exact h.first, by rw [h0]; exact h.pool⟩

theorem OwnEntry.add (h : OwnEntry cfg hwAddr t) (addr : MacAddr) (pool : ℕ) :
    OwnEntry cfg hwAddr (addMacFilter cfg.toRarCfg t addr pool).2 := by
  have hstep := addMacFilter_step cfg.toRarCfg t addr pool
  generalize addMacFilter cfg.toRarCfg t addr pool = r at hstep ⊢
  obtain ⟨r, t'⟩ := r
  generalize hg : t'.entries = g at hstep
  cases hstep with
  | zero _ => exact h.of_settled (.inl (by rw [hg]))
  | full _ _ => exact h.of_settled (.inl (by rw [hg]))
  | added i _ _ _ hfree _ hother =>
    refine h.of_settled ?_
    rw [hg]
    refine hother 0 fun hi => ?_
    rw [← hi, h.first.1] at hfree
    exact absurd hfree (by decide)

theorem OwnEntry.del (h : OwnEntry cfg hwAddr t) {addr : MacAddr} {pool : ℕ}
    (hne : addr ≠ hwAddr ∨ pool ≠ cfg.pf) :
    OwnEntry cfg hwAddr (delMacFilter cfg.toRarCfg t addr pool).2 := by
  have hstep := delMacFilter_step cfg.toRarCfg t addr pool
  generalize delMacFilter cfg.toRarCfg t addr pool = r at hstep ⊢
  obtain ⟨r, t'⟩ := r
  generalize hg : t'.entries = g at hstep
  cases hstep with
  | zero _ => exact h.of_settled (.inl (by rw [hg]))
  | absent _ _ => exact h.of_settled (.inl (by rw [hg]))
  | deleted i _ _ _ _ hpool haddr _ hother =>
    refine h.of_settled ?_
    rw [hg]
    refine hother 0 fun hi => ?_
    rw [← hi] at hpool haddr
    exact hne.elim (· (haddr.symm.trans h.first.2.2)) (· (hpool.symm.trans h.pool))

theorem OwnEntry.del_own (h : OwnEntry cfg hwAddr t) (h0 : hwAddr ≠ 0) :
    ((delMacFilter cfg.toRarCfg t hwAddr cfg.pf).2.entries 0).inUse = false := by
  have hfirst : IndexedTable.first cfg.numRarEntries
      (fun e : MacEntry => e.inUse && e.pool == cfg.pf && hwAddr == e.addr) t.entries = some 0 :=
    first_zero (zero_lt_numRarEntries _) (by simp [h.first.1, h.first.2.2, h.pool])
  unfold delMacFilter
  rw [if_neg h0, hfirst]
  simp [syncMacTable_entries, zero_lt_numRarEntries, MacEntry.synced]

/-- The first entry is the PF's, and the zero address was never added. -/
structure UcInv (cfg : AdapterCfg) (hwAddr : MacAddr) (s : UcTable) : Prop where
  own : OwnEntry cfg hwAddr s.table
  synced_zero : s.synced 0 = 0

theorem UcInv.start (t : MacFilter) : UcInv cfg hwAddr (defaultUcTable cfg t hwAddr) := by
  refine ⟨⟨⟨?_, ?_, ?_⟩, ?_⟩, rfl⟩ <;> simp [defaultUcTable, macSetDefaultFilter]

theorem UcInv.step (h : UcInv cfg hwAddr s) {op : UcOp} (hop : op.AfterSync cfg s)
    (hne : op ≠ .ucUnsync hwAddr) : UcInv cfg hwAddr (ucStep cfg s op) := by
  cases op with
  | ucSync addr =>
    refine ⟨h.own.add addr cfg.pf, ?_⟩
    dsimp only [ucStep]
    split_ifs with hok
    · by_cases h0 : addr = 0
      · subst h0
        exact absurd hok (by simp [Ixgbe.ucSync, addMacFilter, eInval])
      · rw [update_of_ne (Ne.symm h0)]
        exact h.synced_zero
    · exact h.synced_zero
  | ucUnsync addr => exact ⟨h.own.del (.inl fun hc => hne (by rw [hc])), h.synced_zero⟩
  | vfAdd addr pool => exact ⟨h.own.add addr pool, h.synced_zero⟩
  | vfDel addr pool => exact ⟨h.own.del (.inr hop), h.synced_zero⟩

end

/-- **The PF's own filter** stays in the first entry, all along a run in which only added addresses
are removed, exactly when the PF's own is not removed. -/
theorem own_filter_first_iff (cfg : AdapterCfg) (t : MacFilter) (hwAddr : MacAddr) (ops : List UcOp)
    (hops : Along (ucStep cfg) (UcOp.AfterSync cfg) (defaultUcTable cfg t hwAddr) ops) :
    After (ucStep cfg) (fun s => OwnInstalled cfg hwAddr s.table ∧ OwnFirst hwAddr s.table)
        (defaultUcTable cfg t hwAddr) ops ↔
      Along (ucStep cfg) (fun _ op => op ≠ .ucUnsync hwAddr) (defaultUcTable cfg t hwAddr) ops := by
  refine after_iff_along (UcOp.AfterSync cfg) (fun s op hs hop hok => hs.step hop hok)
    (fun s hs => ⟨hs.own.installed, hs.own.first⟩) (fun s op hs hop hbad hP => ?_)
    (UcInv.start t) hops
  obtain rfl : op = .ucUnsync hwAddr := not_not.mp hbad
  have h0 : hwAddr ≠ 0 := by
    rintro rfl
    exact absurd hop (by rw [UcOp.AfterSync, hs.synced_zero]; decide)
  exact absurd hP.2.1 (ne_true_of_eq_false (hs.own.del_own h0))

def zeroTable : MacFilter where
  entries _ := ⟨0, 0, false, false, false⟩
  rar := ⟨fun _ => 0, fun _ => 0, fun _ => 0, fun _ => 0⟩

theorem own_filter_first_churn :
    let cfg := oneVfAdapterCfg
    After (ucStep cfg) (fun s => OwnInstalled cfg 0x0250 s.table ∧ OwnFirst 0x0250 s.table)
      (defaultUcTable cfg zeroTable 0x0250)
      [.ucSync 0x0254, .vfAdd 0x0252 0, .ucUnsync 0x0254] := by
  intro cfg
  refine (own_filter_first_iff cfg zeroTable 0x0250
    [.ucSync 0x0254, .vfAdd 0x0252 0, .ucUnsync 0x0254] ?_).mpr ?_
  · refine ⟨trivial, (by decide : 0 ≠ oneVfAdapterCfg.pf), ?_, trivial⟩
    exact Nat.lt_of_lt_of_le Nat.zero_lt_one (by decide +kernel)
  · exact ⟨by decide, by decide, by decide, trivial⟩

/-- Its address is added once more and removed: the filter in the first entry goes. -/
theorem own_filter_first_lost :
    let cfg := oneVfAdapterCfg
    let s := defaultUcTable cfg zeroTable 0x0250
    Along (ucStep cfg) (UcOp.AfterSync cfg) s [.ucSync 0x0250, .ucUnsync 0x0250] ∧
      ¬ After (ucStep cfg) (fun s => OwnInstalled cfg 0x0250 s.table ∧ OwnFirst 0x0250 s.table) s
        [.ucSync 0x0250, .ucUnsync 0x0250] := by
  refine ⟨⟨trivial, Nat.lt_of_lt_of_le Nat.zero_lt_one (by decide +kernel), trivial⟩, fun h => ?_⟩
  exact absurd h.2.1.2.1 (by decide +kernel)

section

variable {cfg : AdapterCfg} {hwAddr : MacAddr} {s : UcTable}

/-- Installed once more than its additions outnumber its removals. -/
structure OwnCount (cfg : AdapterCfg) (hwAddr : MacAddr) (s : UcTable) : Prop where
  count : 1 + s.synced hwAddr ≤
    (s.table.filters cfg.toRarCfg).count (hwAddr, cfg.pf) + s.unsynced hwAddr
  matched : s.unsynced hwAddr ≤ s.synced hwAddr

theorem OwnCount.installed (h : OwnCount cfg hwAddr s) : OwnInstalled cfg hwAddr s.table := by
  have hpos : 0 < (s.table.filters cfg.toRarCfg).count (hwAddr, cfg.pf) := by
    have := h.count
    have := h.matched
    omega
  exact mem_filters.mp (count_pos.mp hpos)

theorem OwnCount.start (t : MacFilter) : OwnCount cfg hwAddr (defaultUcTable cfg t hwAddr) := by
  have hmem : (hwAddr, cfg.pf) ∈ (defaultUcTable cfg t hwAddr).table.filters cfg.toRarCfg :=
    mem_filters.mpr ⟨0, zero_lt_numRarEntries _, by simp [defaultUcTable, macSetDefaultFilter]⟩
  exact ⟨Nat.succ_le_of_lt (count_pos.mpr hmem), le_rfl⟩

theorem ucSync_filters (cfg : AdapterCfg) (t : MacFilter) (addr : MacAddr) :
    (Ixgbe.ucSync cfg t addr).2.filters cfg.toRarCfg = if (Ixgbe.ucSync cfg t addr).1 = 0 then
      (addr, cfg.pf) ::ₘ t.filters cfg.toRarCfg else t.filters cfg.toRarCfg := by
  have hret : (Ixgbe.ucSync cfg t addr).1 = 0 ↔
      0 ≤ (addMacFilter cfg.toRarCfg t addr cfg.pf).1 := min_eq_right_iff
  rcases addMacFilter_cases cfg.toRarCfg t addr cfg.pf with ⟨hneg, hsame, -⟩ | ⟨hok, -, -, hcons⟩
  · rw [if_neg fun hc => absurd (hret.mp hc) (not_le.mpr hneg)]
    exact hsame
  · rw [if_pos (hret.mpr hok)]
    exact hcons

theorem ucUnsync_count (cfg : AdapterCfg) (t : MacFilter) (addr hwAddr : MacAddr) :
    (t.filters cfg.toRarCfg).count (hwAddr, cfg.pf) ≤
      ((Ixgbe.ucUnsync cfg t addr).filters cfg.toRarCfg).count (hwAddr, cfg.pf) +
        if hwAddr = addr then 1 else 0 := by
  rw [Ixgbe.ucUnsync]
  by_cases h0 : addr = 0
  · rw [h0, delMacFilter_zero]
    exact Nat.le_add_right _ _
  · rw [delMacFilter_filters h0]
    by_cases haddr : hwAddr = addr
    · rw [if_pos haddr, haddr, count_erase_self]
      omega
    · rw [count_erase_of_ne fun hc => haddr (Prod.mk.inj hc).1]
      exact Nat.le_add_right _ _

theorem OwnCount.step (h : OwnCount cfg hwAddr s) {op : UcOp} (hop : op.Matched cfg s) :
    OwnCount cfg hwAddr (ucStep cfg s op) := by
  obtain ⟨hcount, hmatched⟩ := h
  cases op with
  | ucSync addr =>
    have hfilters := ucSync_filters cfg s.table addr
    by_cases hok : (Ixgbe.ucSync cfg s.table addr).1 = 0
    · rw [if_pos hok] at hfilters
      by_cases haddr : hwAddr = addr
      · subst haddr
        constructor <;> simp only [ucStep, if_pos hok, hfilters, update_self, count_cons_self] <;>
          omega
      · have hne : (hwAddr, cfg.pf) ≠ (addr, cfg.pf) := fun hc => haddr (Prod.mk.inj hc).1
        constructor <;> simpa only [ucStep, if_pos hok, hfilters, update_of_ne haddr,
          count_cons_of_ne hne]
    · rw [if_neg hok] at hfilters
      constructor <;> simpa only [ucStep, if_neg hok, hfilters]
  | ucUnsync addr =>
    have hone := ucUnsync_count cfg s.table addr hwAddr
    have hlt : s.unsynced addr < s.synced addr := hop
    by_cases haddr : hwAddr = addr
    · subst haddr
      rw [if_pos rfl] at hone
      constructor <;> simp only [ucStep, update_self] <;> omega
    · rw [if_neg haddr] at hone
      constructor <;> simp only [ucStep, update_of_ne haddr] <;> omega
  | vfAdd addr pool =>
    have hadd : MacStep cfg.toRarCfg (· = pool) s.table (ucStep cfg s (.vfAdd addr pool)).table :=
      .add addr pool rfl
    refine ⟨?_, hmatched⟩
    rw [hadd.count_filters (Ne.symm hop)]
    exact hcount
  | vfDel addr pool =>
    have hdel : MacStep cfg.toRarCfg (· = pool) s.table (ucStep cfg s (.vfDel addr pool)).table :=
      .del addr pool rfl
    refine ⟨?_, hmatched⟩
    rw [hdel.count_filters (Ne.symm hop)]
    exact hcount

/-- **The PF's own filter** stays installed if each removal has an addition of its own before. -/
theorem own_filter_installed (cfg : AdapterCfg) (t : MacFilter) (hwAddr : MacAddr) (ops : List UcOp)
    (hops : Along (ucStep cfg) (UcOp.Matched cfg) (defaultUcTable cfg t hwAddr) ops) :
    After (ucStep cfg) (fun s => OwnInstalled cfg hwAddr s.table)
      (defaultUcTable cfg t hwAddr) ops :=
  after_of_inv (fun s _ (hs : OwnCount cfg hwAddr s) hop => hs.step hop)
    (fun _ hs => hs.installed) (OwnCount.start t) hops

end

theorem own_filter_installed_churn :
    After (ucStep oneVfAdapterCfg) (fun s => OwnInstalled oneVfAdapterCfg 0x0250 s.table)
      (defaultUcTable oneVfAdapterCfg zeroTable 0x0250) [.ucSync 0x0250, .ucUnsync 0x0250] :=
  own_filter_installed _ _ _ _ ⟨trivial, Nat.lt_of_lt_of_le Nat.zero_lt_one (by decide +kernel),
    trivial⟩

end Ixgbe
