import Ixgbe.Library.EventRun
import Ixgbe.Mac.Table

/-! # The filter table and the receive address registers

RAL, RAH and MPSAR, which `ixgbe_clear_rar_generic` empties by a call of `ixgbe_clear_vmdq_generic`,
which calls it back. -/

namespace Ixgbe

open EventRun IndexedTable BitVec Function RarRegs MacEntry List

/-- The pool is `none` for `IXGBE_CLEAR_VMDQ_ALL`. -/
def clearPools (r : RarRegs) (rar : ℕ) : Option ℕ → RarRegs
  | none => { r with
      mpsarLo := update r.mpsarLo rar 0
      mpsarHi := update r.mpsarHi rar 0 }
  | some p =>
    if p < 32 then
      { r with mpsarLo := update r.mpsarLo rar (r.mpsarLo rar &&& ~~~(shl1 p)) }
    else { r with mpsarHi := update r.mpsarHi rar (r.mpsarHi rar &&& ~~~(shl1 (p - 32))) }

mutual

/-- It may call itself again; `none` when the fuel is out. -/
def clearRar (cfg : RarCfg) : ℕ → RarRegs → ℕ → Option RarRegs
  | 0, _, _ => none
  | fuel + 1, r, index =>
    if index ≥ cfg.numRarEntries then some r
    else clearVmdq cfg fuel (clearRarWrites r index) index none

def clearVmdq (cfg : RarCfg) : ℕ → RarRegs → ℕ → Option ℕ → Option RarRegs
  | 0, _, _, _ => none
  | fuel + 1, r, rar, vmdq =>
    if rar ≥ cfg.numRarEntries then some r
    else if r.mpsarLo rar = 0 ∧ r.mpsarHi rar = 0 then some r
    else
      let r := clearPools r rar vmdq
      -- was that the last pool using this address?
      if r.mpsarLo rar = 0 ∧ r.mpsarHi rar = 0 ∧ rar ≠ 0 ∧ rar ≠ cfg.sanMacRarIndex then
        clearRar cfg fuel r rar
      else some r

end

section

variable {cfg : RarCfg} {r : RarRegs}

theorem clearVmdq_empty (fuel : ℕ) {rar : ℕ} (hlo : r.mpsarLo rar = 0) (hhi : r.mpsarHi rar = 0)
    (vmdq : Option ℕ) : clearVmdq cfg (fuel + 1) r rar vmdq = some r := by
  rw [clearVmdq]
  split_ifs with h1 h2
  · rfl
  · rfl
  · exact absurd ⟨hlo, hhi⟩ h2

theorem clearRar_empty (fuel : ℕ) {index : ℕ} (hi : index < cfg.numRarEntries)
    (hlo : r.mpsarLo index = 0) (hhi : r.mpsarHi index = 0) :
    clearRar cfg (fuel + 2) r index = some (clearRarWrites r index) := by
  rw [clearRar, if_neg (not_le.mpr hi)]
  exact clearVmdq_empty fuel (r := clearRarWrites r index) hlo hhi none

theorem clearRar_eq (fuel : ℕ) (index : ℕ) :
    clearRar cfg (fuel + 4) r index = some (clearRarGeneric cfg r index) := by
  rw [clearRar, clearRarGeneric]
  by_cases hi : index ≥ cfg.numRarEntries
  · rw [if_pos hi, if_pos hi]
  rw [if_neg hi, if_neg hi, clearVmdq, if_neg hi]
  dsimp only
  split_ifs with hempty hagain hcall hcall
  · rfl
  · exact clearRar_empty fuel (not_le.mp hi) (update_self ..)
      (update_self ..)
  · exact absurd ⟨hagain.2.2.1, hagain.2.2.2⟩ hcall
  · exact absurd ⟨update_self .., update_self .., hcall⟩ hagain
  · rfl

theorem clearVmdq_isSome (fuel : ℕ) (rar : ℕ) (vmdq : Option ℕ) :
    (clearVmdq cfg (fuel + 3) r rar vmdq).isSome = true := by
  rw [clearVmdq]
  by_cases hi : rar ≥ cfg.numRarEntries
  · rw [if_pos hi]
    rfl
  split_ifs with hempty
  · rfl
  dsimp only
  split_ifs with hlast
  · rw [clearRar_empty fuel (not_le.mp hi) hlast.1 hlast.2.1]
    rfl
  · rfl

end

structure RarRow where
  ral : U32
  rah : U32
  mpsarLo : U32
  mpsarHi : U32
  deriving DecidableEq, Repr

def RarRegs.row (r : RarRegs) (i : ℕ) : RarRow := ⟨r.ral i, r.rah i, r.mpsarLo i, r.mpsarHi i⟩

def rahRest : U32 := ~~~(0x0000FFFF ||| rahAv)

def RarRow.set (w : RarRow) (addr : MacAddr) (vmdq : ℕ) : RarRow where
  ral := addr.extractLsb' 0 32
  rah := (w.rah &&& rahRest) ||| (addr.extractLsb' 32 16).setWidth 32 ||| rahAv
  mpsarLo := if vmdq < 32 then w.mpsarLo ||| shl1 vmdq else w.mpsarLo
  mpsarHi := if vmdq < 32 then w.mpsarHi else w.mpsarHi ||| shl1 (vmdq - 32)

def RarRow.clear (w : RarRow) : RarRow := ⟨0, w.rah &&& rahRest, 0, 0⟩

section

variable {cfg : RarCfg} {r : RarRegs} {i : ℕ}

theorem setRarGeneric_row (hi : i < cfg.numRarEntries) (addr : MacAddr) (vmdq j : ℕ) :
    (setRarGeneric cfg r i addr vmdq).row j =
      if j = i then (r.row i).set addr vmdq else r.row j := by
  rw [setRarGeneric, if_neg (not_le.mpr hi)]
  by_cases hj : j = i
  · subst hj
    by_cases hp : vmdq < 32
    · simp [row, RarRow.set, setVmdqGeneric, not_le.mpr hi, hp, rahRest]
    · simp [row, RarRow.set, setVmdqGeneric, not_le.mpr hi, hp, rahRest]
  · by_cases hp : vmdq < 32
    · simp [row, setVmdqGeneric, not_le.mpr hi, hp, hj]
    · simp [row, setVmdqGeneric, not_le.mpr hi, hp, hj]

theorem clearRarWrites_row (r : RarRegs) (i : ℕ) :
    (clearRarWrites r i).row i = ⟨0, r.rah i &&& rahRest, r.mpsarLo i, r.mpsarHi i⟩ := by
  simp [row, clearRarWrites, rahRest]

theorem clearRarGeneric_row (hi : i < cfg.numRarEntries) (j : ℕ) :
    (clearRarGeneric cfg r i).row j = if j = i then (r.row i).clear else r.row j := by
  rw [clearRarGeneric, if_neg (not_le.mpr hi)]
  dsimp only
  by_cases hj : j = i
  · subst hj
    rw [if_pos rfl]
    by_cases hempty : (clearRarWrites r j).mpsarLo j = 0 ∧ (clearRarWrites r j).mpsarHi j = 0
    · have hpools : r.mpsarLo j = 0 ∧ r.mpsarHi j = 0 := hempty
      rw [if_pos hempty, clearRarWrites_row, hpools.1, hpools.2]
      rfl
    · rw [if_neg hempty]
      split_ifs
      · -- the call back writes the same once more
        simp [RarRow.clear, row, clearRarWrites, rahRest, BitVec.and_assoc]
      · simp [RarRow.clear, row, clearRarWrites, rahRest]
  · rw [if_neg hj]
    split_ifs <;> simp [row, clearRarWrites, hj]

end

def RarRow.held (addr : MacAddr) (pool : ℕ) : RarRow where
  ral := addr.extractLsb' 0 32
  rah := (addr.extractLsb' 32 16).setWidth 32 ||| rahAv
  mpsarLo := if pool < 32 then shl1 pool else 0
  mpsarHi := if pool < 32 then 0 else shl1 (pool - 32)

def RarRow.empty : RarRow := ⟨0, 0, 0, 0⟩

def MacEntry.image (e : MacEntry) : RarRow := if e.inUse then .held e.addr e.pool else .empty

@[simp] theorem MacEntry.image_synced (e : MacEntry) : e.synced.image = e.image := rfl

def MacEntry.write (e : MacEntry) (w : RarRow) : RarRow :=
  if e.inUse then w.set e.addr e.pool else w.clear

theorem rah_and_rahRest (x : BitVec 16) : (x.setWidth 32 ||| rahAv) &&& rahRest = 0 := by
  have hlow : ∀ i < 16, rahRest.getLsbD i = false := by decide
  have hav : ∀ i < 32, (rahAv.getLsbD i && rahRest.getLsbD i) = false := by decide
  apply eq_of_getLsbD_eq
  intro i hi
  rw [getLsbD_and, getLsbD_or, Bool.and_or_distrib_right, hav i hi, Bool.or_false]
  by_cases h16 : i < 16
  · simp [hlow i h16]
  · simp [getLsbD_setWidth, getLsbD_of_ge x i (not_lt.mp h16)]

theorem MacEntry.image_rah (e : MacEntry) : e.image.rah &&& rahRest = 0 := by
  rw [image]
  split_ifs
  · exact rah_and_rahRest _
  · exact zero_and

theorem MacEntry.write_eq_image {e : MacEntry} {w : RarRow} (hrest : w.rah &&& rahRest = 0)
    (huse : e.inUse = true → w = .empty ∨ w = e.image) : e.write w = e.image := by
  rw [write]
  split_ifs with h
  · have himage : e.image = .held e.addr e.pool := if_pos h
    rw [himage] at huse ⊢
    rw [RarRow.set, hrest]
    rcases huse h with rfl | rfl
    · simp [RarRow.held, RarRow.empty]
    · -- the pool is in the list already
      by_cases hp : e.pool < 32 <;> simp [RarRow.held, hp]
  · rw [RarRow.clear, hrest, image, if_neg h]
    rfl

section

variable {cfg : RarCfg} {t : MacFilter} {i : ℕ}

theorem writeEntry_row (hi : i < cfg.numRarEntries) (j : ℕ) : (writeEntry cfg t i).rar.row j =
    if j = i then (t.entries i).write (t.rar.row i) else t.rar.row j := by
  rw [writeEntry, write]
  cases (t.entries i).inUse
  · exact clearRarGeneric_row hi j
  · exact setRarGeneric_row hi _ _ j

theorem foldl_writeEntry_row (p : MacEntry → Bool) (t : MacFilter) {n : ℕ}
    (hn : n ≤ cfg.numRarEntries) (j : ℕ) :
    ((range n).foldl
      (fun t i => if p (t.entries i) then writeEntry cfg t i else t) t).rar.row j
      = if j < n ∧ p (t.entries j) = true then (t.entries j).write (t.rar.row j)
        else t.rar.row j := by
  induction n generalizing j with
  | zero => simp
  | succ n ih =>
    have hentries := foldl_writeEntry_entries cfg p t n
    have hrow := ih (Nat.le_of_succ_le hn)
    rw [range_succ, foldl_append]
    generalize (range n).foldl (fun t i => if p (t.entries i) then writeEntry cfg t i else t) t
      = u at hentries hrow
    have hentry : u.entries n = t.entries n := by rw [hentries]; simp
    have hrown : u.rar.row n = t.rar.row n := by rw [hrow]; simp
    rw [foldl_cons, foldl_nil, hentry]
    by_cases hj : j = n
    · subst hj
      by_cases hp : p (t.entries j) = true
      · rw [if_pos hp, writeEntry_row hn, if_pos rfl, hentry, hrown,
          if_pos ⟨Nat.lt_succ_self j, hp⟩]
      · rw [if_neg hp, hrown, if_neg fun h => hp h.2]
    · have hlt : j < n + 1 ↔ j < n := by omega
      simp only [hlt]
      rw [← hrow j]
      split_ifs
      · rw [writeEntry_row hn, if_neg hj]
      · rfl

theorem syncMacTable_row (hi : i < cfg.numRarEntries) : (syncMacTable cfg t).rar.row i =
    if (t.entries i).modified = true then (t.entries i).write (t.rar.row i) else t.rar.row i := by
  rw [syncMacTable, foldl_writeEntry_row modified t le_rfl]
  simp [hi]

theorem fullSyncMacTable_row (hi : i < cfg.numRarEntries) :
    (fullSyncMacTable cfg t).rar.row i = (t.entries i).write (t.rar.row i) := by
  have h := foldl_writeEntry_row (fun _ => true) t (le_refl cfg.numRarEntries) i
  simpa [hi, fullSyncMacTable] using h

end

/-- **Coherence**: no entry waits, the pools in use exist, and the registers hold the entries. -/
structure RarCoherent (cfg : RarCfg) (t : MacFilter) : Prop where
  settled : ∀ i < cfg.numRarEntries, (t.entries i).modified = false
  pool_lt : ∀ i < cfg.numRarEntries, (t.entries i).inUse = true → (t.entries i).pool < 64
  row_eq : ∀ i < cfg.numRarEntries, t.rar.row i = (t.entries i).image

section

variable {cfg : RarCfg} {t : MacFilter}

theorem RarCoherent.rah_rest (h : RarCoherent cfg t) {i : ℕ} (hi : i < cfg.numRarEntries) :
    (t.rar.row i).rah &&& rahRest = 0 := by
  rw [h.row_eq i hi]
  exact image_rah _

theorem syncMacTable_coherent
    (hpool : ∀ i < cfg.numRarEntries, (t.entries i).inUse = true → (t.entries i).pool < 64)
    (hrest : ∀ i < cfg.numRarEntries, (t.rar.row i).rah &&& rahRest = 0)
    (hmod : ∀ i < cfg.numRarEntries, (t.entries i).modified = true → (t.entries i).inUse = true →
      t.rar.row i = .empty)
    (hkept : ∀ i < cfg.numRarEntries, (t.entries i).modified = false →
      t.rar.row i = (t.entries i).image) : RarCoherent cfg (syncMacTable cfg t) := by
  have hentry : ∀ i < cfg.numRarEntries, (syncMacTable cfg t).entries i = (t.entries i).synced :=
    fun i hi => by rw [syncMacTable_entries]; exact if_pos hi
  refine ⟨fun i hi => ?_, fun i hi huse => ?_, fun i hi => ?_⟩
  · rw [hentry i hi]
    rfl
  · rw [hentry i hi] at huse ⊢
    exact hpool i hi huse
  · rw [hentry i hi, image_synced, syncMacTable_row hi]
    split_ifs with hm
    · exact write_eq_image (hrest i hi) fun huse => .inl (hmod i hi hm huse)
    · exact hkept i hi (by simpa using hm)

theorem RarCoherent.update (h : RarCoherent cfg t) {i : ℕ} (e : MacEntry)
    (hm : e.modified = true) (huse : e.inUse = true → e.pool < 64 ∧ (t.entries i).inUse = false) :
    RarCoherent cfg (syncMacTable cfg { t with entries := update t.entries i e }) := by
  refine syncMacTable_coherent (fun j hj hju => ?_) (fun j hj => h.rah_rest hj)
    (fun j hj hjm hju => ?_) (fun j hj hjm => ?_)
  · by_cases hji : j = i
    · subst hji
      simp only [update_self] at hju ⊢
      exact (huse hju).1
    · simp only [update_of_ne hji] at hju ⊢
      exact h.pool_lt j hj hju
  · by_cases hji : j = i
    · subst hji
      simp only [update_self] at hju
      rw [h.row_eq j hj, image, (huse hju).2]
      rfl
    · simp only [update_of_ne hji, h.settled j hj] at hjm
      exact absurd hjm (by decide)
  · by_cases hji : j = i
    · subst hji
      simp only [update_self, hm] at hjm
      exact absurd hjm (by decide)
    · simp only [update_of_ne hji]
      exact h.row_eq j hj

theorem RarCoherent.addMacFilter (h : RarCoherent cfg t) (addr : MacAddr) {pool : ℕ}
    (hpool : pool < 64) : RarCoherent cfg (addMacFilter cfg t addr pool).2 := by
  unfold Ixgbe.addMacFilter
  split_ifs
  · exact h
  cases hf : first cfg.numRarEntries (fun e => !e.inUse) t.entries with
  | none => exact h
  | some i =>
    have hfree : (t.entries i).inUse = false := by simpa using (first_some hf).2
    exact h.update _ rfl fun _ => ⟨hpool, hfree⟩

theorem RarCoherent.delMacFilter (h : RarCoherent cfg t) (addr : MacAddr) (pool : ℕ) :
    RarCoherent cfg (delMacFilter cfg t addr pool).2 := by
  unfold Ixgbe.delMacFilter
  split_ifs
  · exact h
  cases first cfg.numRarEntries (fun e => e.inUse && e.pool == pool && addr == e.addr)
      t.entries with
  | none => exact h
  | some i => exact h.update _ rfl fun hc => absurd hc Bool.false_ne_true

theorem RarCoherent.fullSyncMacTable (h : RarCoherent cfg t) :
    RarCoherent cfg (fullSyncMacTable cfg t) := by
  have hentry : ∀ i < cfg.numRarEntries,
      (Ixgbe.fullSyncMacTable cfg t).entries i = (t.entries i).synced :=
    fun i hi => by rw [fullSyncMacTable_entries]; exact if_pos hi
  refine ⟨fun i hi => ?_, fun i hi huse => ?_, fun i hi => ?_⟩
  · rw [hentry i hi]
    rfl
  · rw [hentry i hi] at huse ⊢
    exact h.pool_lt i hi huse
  · rw [hentry i hi, image_synced, fullSyncMacTable_row hi]
    exact write_eq_image (h.rah_rest hi) fun _ => .inr (h.row_eq i hi)

theorem reset_coherent (hrest : ∀ i < cfg.numRarEntries, (t.rar.row i).rah &&& rahRest = 0)
    (addr : MacAddr) {pf : ℕ} (hpf : pf < 64) :
    RarCoherent cfg (macSetDefaultFilter cfg (flushSwMacTable cfg t) addr pf) := by
  have hnum : 0 < cfg.numRarEntries := lt_of_lt_of_le (by decide) cfg.num_ge
  have hflush : RarCoherent cfg (flushSwMacTable cfg t) := by
    refine syncMacTable_coherent (fun i hi huse => ?_) hrest (fun i hi _ huse => ?_)
      (fun i hi hm => ?_)
    · simp [hi] at huse
    · simp [hi] at huse
    · simp [hi] at hm
  have hempty : (flushSwMacTable cfg t).rar.row 0 = .empty := by
    rw [hflush.row_eq 0 hnum, image, if_neg]
    simp [flushSwMacTable, syncMacTable_entries, hnum, synced]
  have hrow : ∀ j, (macSetDefaultFilter cfg (flushSwMacTable cfg t) addr pf).rar.row j =
      if j = 0 then .held addr pf else (flushSwMacTable cfg t).rar.row j := by
    intro j
    rw [macSetDefaultFilter]
    rw [setRarGeneric_row hnum, hempty]
    have hset : RarRow.empty.set addr pf = .held addr pf :=
      write_eq_image (e := ⟨addr, pf, true, false, true⟩) zero_and fun _ => .inl rfl
    rw [hset]
  refine ⟨fun i hi => ?_, fun i hi huse => ?_, fun i hi => ?_⟩
  · by_cases h0 : i = 0
    · subst h0
      simp [macSetDefaultFilter]
    · simpa [macSetDefaultFilter, h0] using hflush.settled i hi
  · by_cases h0 : i = 0
    · subst h0
      simpa [macSetDefaultFilter] using hpf
    · simp only [macSetDefaultFilter, update_of_ne h0] at huse ⊢
      exact hflush.pool_lt i hi huse
  · rw [hrow]
    by_cases h0 : i = 0
    · subst h0
      simp [macSetDefaultFilter, image]
    · rw [if_neg h0, hflush.row_eq i hi]
      simp [macSetDefaultFilter, h0]

def RarRow.poolBit (w : RarRow) (p : ℕ) : Bool :=
  if p < 32 then w.mpsarLo.getLsbD p else w.mpsarHi.getLsbD (p - 32)

/-- Its address, valid, for exactly its pool; or nothing at all. -/
def RarRow.Serves (w : RarRow) (e : MacEntry) : Prop :=
  if e.inUse then
    w.ral = e.addr.extractLsb' 0 32 ∧ w.rah.setWidth 16 = e.addr.extractLsb' 32 16 ∧
      w.rah.getLsbD 31 = true ∧ ∀ p < 64, w.poolBit p = true ↔ p = e.pool
  else w.ral = 0 ∧ w.rah.getLsbD 31 = false ∧ w.mpsarLo = 0 ∧ w.mpsarHi = 0

theorem RarRow.held_poolBit (addr : MacAddr) {pool p : ℕ} (hpool : pool < 64) (hp : p < 64) :
    (RarRow.held addr pool).poolBit p = true ↔ p = pool := by
  rw [RarRow.poolBit, RarRow.held]
  by_cases h1 : p < 32
  · by_cases h2 : pool < 32
    · simp [h1, h2]
    · simp [h1, h2]
      omega
  · by_cases h2 : pool < 32
    · simp [h1, h2]
      omega
    · simp [h1, h2]
      omega

theorem held_rah (x : BitVec 16) :
    (x.setWidth 32 ||| rahAv).setWidth 16 = x ∧ (x.setWidth 32 ||| rahAv).getLsbD 31 = true := by
  constructor
  · have hav : ∀ i < 16, rahAv.getLsbD i = false := by decide
    apply eq_of_getLsbD_eq
    intro i hi
    rw [getLsbD_setWidth, getLsbD_or, hav i hi, getLsbD_setWidth]
    simp [hi, show i < 32 by omega]
  · have hav : rahAv.getLsbD 31 = true := by decide
    rw [getLsbD_or, hav, Bool.or_true]

theorem RarCoherent.serves (h : RarCoherent cfg t) {i : ℕ} (hi : i < cfg.numRarEntries) :
    (t.rar.row i).Serves (t.entries i) := by
  rw [h.row_eq i hi, RarRow.Serves, image]
  split_ifs with huse
  · exact ⟨rfl, (held_rah _).1, (held_rah _).2, fun p hp =>
      RarRow.held_poolBit _ (h.pool_lt i hi huse) hp⟩
  · exact ⟨rfl, rfl, rfl, rfl⟩

/-- Adding fails exactly if every entry is in use, and changes nothing then. -/
def AddExact (cfg : RarCfg) (t : MacFilter) (addr : MacAddr) (pool : ℕ) : Prop :=
  ((addMacFilter cfg t addr pool).1 < 0 ↔ ∀ i < cfg.numRarEntries, (t.entries i).inUse = true) ∧
    ((addMacFilter cfg t addr pool).1 < 0 → (addMacFilter cfg t addr pool).2 = t)

theorem addMacFilter_exact {addr : MacAddr} (haddr : addr ≠ 0) (pool : ℕ) :
    AddExact cfg t addr pool := by
  unfold AddExact addMacFilter
  rw [if_neg haddr]
  cases hf : first cfg.numRarEntries (fun e => !e.inUse) t.entries with
  | none =>
    have hneg : eNoMem < 0 := by decide
    refine ⟨iff_of_true hneg fun i hi => ?_, fun _ => rfl⟩
    simpa using first_none hf hi
  | some i =>
    obtain ⟨hi, hfree⟩ := first_some hf
    have hok : ¬ (i : ℤ) < 0 := by omega
    refine ⟨iff_of_false hok fun hall => ?_, fun hneg => absurd hneg hok⟩
    simp [hall i hi] at hfree

/-- A deletion frees exactly one matching entry, or finds none and changes nothing. -/
def DelExact (cfg : RarCfg) (t : MacFilter) (addr : MacAddr) (pool : ℕ) : Prop :=
  (∃ i < cfg.numRarEntries, (t.entries i).inUse = true ∧ (t.entries i).addr = addr ∧
      (t.entries i).pool = pool ∧ (delMacFilter cfg t addr pool).1 = 0 ∧
      (delMacFilter cfg t addr pool).2.entries =
        update t.entries i { t.entries i with inUse := false }) ∨
    (delMacFilter cfg t addr pool).1 < 0 ∧ (delMacFilter cfg t addr pool).2 = t ∧
      (addr = 0 ∨ ∀ i < cfg.numRarEntries,
        ¬ ((t.entries i).inUse = true ∧ (t.entries i).addr = addr ∧ (t.entries i).pool = pool))

theorem RarCoherent.delMacFilter_exact (h : RarCoherent cfg t) (addr : MacAddr) (pool : ℕ) :
    DelExact cfg t addr pool := by
  unfold DelExact Ixgbe.delMacFilter
  split
  case isTrue h0 =>
    exact .inr ⟨(by decide : eInval < 0), rfl, .inl h0⟩
  cases hf : first cfg.numRarEntries (fun e => e.inUse && e.pool == pool && addr == e.addr)
      t.entries with
  | none =>
    refine .inr ⟨(by decide : eNoMem < 0), rfl, .inr fun i hi hc => ?_⟩
    have hno := first_none hf hi
    simp [hc.1, hc.2.1, hc.2.2] at hno
  | some i =>
    obtain ⟨hi, hhit⟩ := first_some hf
    simp only [Bool.and_eq_true, beq_iff_eq] at hhit
    refine .inl ⟨i, hi, hhit.1.1, hhit.2.symm, hhit.1.2, rfl, ?_⟩
    rw [syncMacTable_entries]
    funext j
    by_cases hji : j = i
    · subst hji
      simp [hi, synced, h.settled j hi]
    · by_cases hj : j < cfg.numRarEntries
      · simp [hj, hji, synced_of_not_modified (h.settled j hj)]
      · simp [hj, hji]

end

inductive MacOp
  | add (addr : MacAddr) (pool : ℕ)
  | del (addr : MacAddr) (pool : ℕ)
  | fullSync
  | reset (hwAddr : MacAddr)

def macStep (cfg : RarCfg) (pf : ℕ) (t : MacFilter) : MacOp → MacFilter
  | .add addr pool => (addMacFilter cfg t addr pool).2
  | .del addr pool => (delMacFilter cfg t addr pool).2
  | .fullSync => fullSyncMacTable cfg t
  | .reset hwAddr => macSetDefaultFilter cfg (flushSwMacTable cfg t) hwAddr pf

def MacOp.PoolOk : MacOp → Prop
  | .add _ pool => pool ≤ 63
  | _ => True

theorem RarCoherent.step {cfg : RarCfg} {t : MacFilter} (h : RarCoherent cfg t) {pf : ℕ}
    (hpf : pf ≤ 63) {op : MacOp} (hop : op.PoolOk) : RarCoherent cfg (macStep cfg pf t op) := by
  cases op with
  | add addr pool => exact h.addMacFilter addr (Nat.lt_succ_of_le hop)
  | del addr pool => exact h.delMacFilter addr pool
  | fullSync => exact h.fullSyncMacTable
  | reset hwAddr => exact reset_coherent (fun i hi => h.rah_rest hi) hwAddr (Nat.lt_succ_of_le hpf)

/-- **Table and registers** agree after every operation; adding fails exactly if the table is full,
deleting frees exactly one entry, and a failure changes nothing. -/
theorem mac_table_coherent (cfg : RarCfg) (pf : ℕ) (hpf : pf ≤ 63) (t : MacFilter)
    (hzero : ∀ i, t.rar.row i = ⟨0, 0, 0, 0⟩) (hwAddr : MacAddr) (ops : List MacOp)
    (hops : ∀ op ∈ ops, op.PoolOk) :
    After (macStep cfg pf)
        (fun s => (∀ i < cfg.numRarEntries, (s.rar.row i).Serves (s.entries i)) ∧
          (∀ addr ≠ 0, ∀ pool, AddExact cfg s addr pool) ∧
          ∀ addr pool, DelExact cfg s addr pool) t (.reset hwAddr :: ops) ∧
      ∀ (r : RarRegs) (index : ℕ) (vmdq : Option ℕ), ∃ fuel,
        clearRar cfg fuel r index = some (clearRarGeneric cfg r index) ∧
          (clearVmdq cfg fuel r index vmdq).isSome = true := by
  refine ⟨?_, fun r index vmdq => ⟨4, clearRar_eq 0 index, clearVmdq_isSome 1 index vmdq⟩⟩
  have hreset : RarCoherent cfg (macStep cfg pf t (.reset hwAddr)) :=
    reset_coherent (fun i _ => by rw [hzero]; exact BitVec.zero_and) hwAddr (Nat.lt_succ_of_le hpf)
  have hexact : ∀ s, RarCoherent cfg s →
      (∀ i < cfg.numRarEntries, (s.rar.row i).Serves (s.entries i)) ∧
        (∀ addr ≠ 0, ∀ pool, AddExact cfg s addr pool) ∧ ∀ addr pool, DelExact cfg s addr pool :=
    fun s hs => ⟨fun i hi => hs.serves hi, fun _ haddr pool => addMacFilter_exact haddr pool,
      hs.delMacFilter_exact⟩
  have hstep : ∀ s op, RarCoherent cfg s → op.PoolOk → RarCoherent cfg (macStep cfg pf s op) :=
    fun s op hs hop => hs.step hpf hop
  exact ⟨hexact _ hreset, after_of_inv hstep hexact hreset (along_of_forall _ ops hops)⟩

theorem num_ge_all : 127 ≤ 128 := by decide

theorem num_le_all : 128 ≤ 128 := by decide

def allRars : RarCfg := ⟨128, 0, num_ge_all, num_le_all⟩

theorem mac_table_coherent_add :
    let cfg := allRars
    let t : MacFilter := ⟨fun _ => ⟨0, 0, false, false, false⟩,
      ⟨fun _ => 0, fun _ => 0, fun _ => 0, fun _ => 0⟩⟩
    After (macStep cfg 1)
      (fun s => (∀ i < cfg.numRarEntries, (s.rar.row i).Serves (s.entries i)) ∧
        (∀ addr ≠ 0, ∀ pool, AddExact cfg s addr pool) ∧ ∀ addr pool, DelExact cfg s addr pool)
      t [.reset 0x0250, .add 0x0252 0, .fullSync, .del 0x0252 0, .reset 0x0250] :=
  (mac_table_coherent _ 1 (by decide) _ (fun _ => rfl) 0x0250
    [.add 0x0252 0, .fullSync, .del 0x0252 0, .reset 0x0250] (by simp [MacOp.PoolOk])).1

end Ixgbe
