import Ixgbe.Fdir.ClsU32
import Ixgbe.Fdir.Update

/-! # What the classifier's calls do

Which rules were installed through which table (`ClsState.Owns`), and what child tables have
recorded (`ClsState.childLoc`). -/

namespace Ixgbe

open Function List Option FdirFilter ClsState Nat

variable {s : ClsState} {c : ClsConfig} {o : FdirOutcome} {k : Knode} {r : FdirFilter} {queue : U8}
  {running : Bool}

def ClsState.Owns (s : ClsState) (t loc : ℕ) : Prop :=
  (∃ r ∈ s.fdir.filterList, r.location = loc) ∧ s.installedVia loc = t

def ClsState.InRange (s : ClsState) : Prop :=
  ∀ r ∈ s.fdir.filterList, 1 ≤ r.location ∧ r.location ≤ maxHwEntries

def IsLink (t : ℕ) : Prop := 1 ≤ t ∧ t < maxLinkHandle

instance (t : ℕ) : Decidable (IsLink t) := inferInstanceAs (Decidable (_ ∧ _))

@[simp] theorem ClsState.setChildLoc_fdir (s : ClsState) (t j : ℕ) (b : Bool) :
    (s.setChildLoc t j b).fdir = s.fdir := rfl

section

variable {t j : ℕ} {b : Bool}

theorem ClsState.setChildLoc_jumpTables_self :
    (s.setChildLoc t j b).jumpTables t = (s.jumpTables t).map fun jump =>
      { jump with childLocMap := update jump.childLocMap j b } := update_self ..

theorem ClsState.setChildLoc_jumpTables_of_ne {t t' j : ℕ} {b : Bool} (h : t' ≠ t) :
    (s.setChildLoc t j b).jumpTables t' = s.jumpTables t' := update_of_ne h ..

theorem ClsState.setChildLoc_owns {t j t' l : ℕ} {b : Bool} :
    (s.setChildLoc t j b).Owns t' l ↔ s.Owns t' l := Iff.rfl

theorem ClsState.childLoc_setChildLoc_self :
    (s.setChildLoc t j b).childLoc t j = (b && (s.jumpTables t).isSome) := by
  rw [childLoc, setChildLoc_jumpTables_self]
  cases s.jumpTables t <;> simp

theorem ClsState.childLoc_setChildLoc_of_ne {t j t' j' : ℕ} {b : Bool} (h : t' ≠ t ∨ j' ≠ j) :
    (s.setChildLoc t j b).childLoc t' j' = s.childLoc t' j' := by
  by_cases ht : t' = t
  · subst ht
    have hj := h.resolve_left fun hne => hne rfl
    rw [childLoc, setChildLoc_jumpTables_self, childLoc]
    cases s.jumpTables t' <;> simp [update_of_ne hj]
  · rw [childLoc, setChildLoc_jumpTables_of_ne ht, childLoc]

theorem ClsState.childLoc_eq_false {t : ℕ} (h : s.jumpTables t = none) (j : ℕ) :
    s.childLoc t j = false := by
  rw [childLoc, h, any_none]

theorem ClsState.linkHdl_setChildLoc (handle : U32) (t' : ℕ) :
    (((s.setChildLoc t j b).jumpTables t').any fun jump => jump.linkHdl == handle) =
      ((s.jumpTables t').any fun jump => jump.linkHdl == handle) := by
  by_cases ht : t' = t
  · subst ht
    rw [setChildLoc_jumpTables_self, Option.any_map]
  · rw [setChildLoc_jumpTables_of_ne ht]

theorem ClsState.findLink_setChildLoc (handle : U32) :
    (s.setChildLoc t j b).findLink handle = s.findLink handle := by
  exact congrArg (List.find? · _) (funext fun t' => linkHdl_setChildLoc handle t')

end

theorem ClsState.isLink_of_findLink {handle : U32} {t : ℕ} (h : s.findLink handle = some t) :
    IsLink t := by
  have hmem := List.mem_of_find?_eq_some h
  rw [mem_range'_1] at hmem
  exact ⟨hmem.1, by rw [maxLinkHandle] at hmem ⊢; omega⟩

theorem toNat_ofNat_loc {loc : ℕ} (h : loc ≤ maxHwEntries) : (BitVec.ofNat 16 loc).toNat = loc := by
  exact mod_eq_of_lt (h.trans_lt (by decide))

def Clears (running erase : Bool) : Prop := running = true → erase = true

def ClsState.removeRule (s : ClsState) (running erase : Bool) (loc : ℕ) : ClsState :=
  { s with fdir :=
      (updateEthtoolFdirEntry running erase s.fdir none (BitVec.ofNat 16 loc)).1 }

theorem ClsState.removeRule_kept (h : s.fdir.Kept) (running erase : Bool) (loc : ℕ) :
    (s.removeRule running erase loc).fdir.Kept :=
  (updateEthtoolFdirEntry_step h running erase none _).kept_state h
    (swIdx_of_mem_none _)

theorem ClsState.mem_removeRule (h : s.fdir.Kept) {erase : Bool} {loc : ℕ}
    (hloc : loc ≤ maxHwEntries) :
    r ∈ (s.removeRule running erase loc).fdir.filterList ↔
      r ∈ s.fdir.filterList ∧ ¬ (r.location = loc ∧ Clears running erase) := by
  -- the location fits in the 16 bits of the rule
  have hidx : ∀ r : FdirFilter, r.swIdx = BitVec.ofNat 16 loc ↔ r.location = loc := fun r => by
    rw [← location_eq_iff, toNat_ofNat_loc hloc]
  have hstore : r ∈ (s.fdir.store none (BitVec.ofNat 16 loc)).filterList ↔
      r ∈ s.fdir.filterList ∧ r.location ≠ loc := by
    rw [h.mem_store (swIdx_of_mem_none _), Ne, hidx]
    simp
  have hstep := updateEthtoolFdirEntry_step h running erase none (BitVec.ofNat 16 loc)
  rw [removeRule]
  generalize updateEthtoolFdirEntry running erase s.fdir none (BitVec.ofNat 16 loc) = res at hstep
  cases hstep with
  | absent hfree =>
    refine hstore.trans (and_congr_right fun hr => ?_)
    have hne : r.location ≠ loc := mt (hidx r).mpr (hfree r hr)
    exact iff_of_true hne fun hand => hne hand.1
  | kept _ _ hstale =>
    refine hstore.trans (and_congr_right fun _ => not_congr (and_iff_left ?_).symm)
    -- without an input, the entry is stale as soon as the interface is up
    exact fun hrun => absurd ⟨hrun, fun i hi => absurd hi (not_mem_none i)⟩ hstale
  | erased _ _ _ hok =>
    exact hstore.trans (and_congr_right fun _ => not_congr (and_iff_left fun _ => hok).symm)
  | stuck _ _ hstale hfail =>
    refine (and_iff_left fun hand => ?_).symm
    exact absurd (hand.2 hstale.1) (by rw [hfail]; decide)

theorem ClsState.owns_removeRule (h : s.fdir.Kept) {erase : Bool} {loc t l : ℕ}
    (hloc : loc ≤ maxHwEntries) :
    (s.removeRule running erase loc).Owns t l ↔
      s.Owns t l ∧ ¬ (l = loc ∧ Clears running erase) := by
  constructor
  · rintro ⟨⟨r, hr, rfl⟩, hvia⟩
    obtain ⟨hmem, hstay⟩ := (mem_removeRule h hloc).mp hr
    exact ⟨⟨⟨r, hmem, rfl⟩, hvia⟩, hstay⟩
  · rintro ⟨⟨⟨r, hmem, rfl⟩, hvia⟩, hstay⟩
    exact ⟨⟨r, (mem_removeRule h hloc).mpr ⟨hmem, hstay⟩, rfl⟩, hvia⟩

theorem deleteChild_fst (running : Bool) (erase : ℕ → Bool) (t : ℕ) (x : ClsState × ℤ) (j : ℕ) :
    (deleteChild running erase t x j).1 = if x.1.childLoc t j then
      (x.1.removeRule running (erase (j + 1)) (j + 1)).setChildLoc t j false else x.1 := by
  rw [deleteChild]
  split <;> rfl

/-- The first `n` locations of table `t` have been gone through. -/
structure ChildrenGone (running : Bool) (erase : ℕ → Bool) (s : ClsState) (t n : ℕ)
    (s' : ClsState) : Prop where
  kept : s'.fdir.Kept
  via : s'.installedVia = s.installedVia
  mem : ∀ r, r ∈ s'.fdir.filterList ↔ r ∈ s.fdir.filterList ∧
    ¬ ∃ j < n, s.childLoc t j = true ∧ r.location = j + 1 ∧ Clears running (erase (j + 1))
  here : ∀ j, s'.childLoc t j = (s.childLoc t j && decide (n ≤ j))
  others : ∀ t' ≠ t, s'.jumpTables t' = s.jumpTables t'

theorem ChildrenGone.succ {erase : ℕ → Bool} {t n : ℕ} {x : ClsState × ℤ} (hn : n < maxHwEntries)
    (h : ChildrenGone running erase s t n x.1) :
    ChildrenGone running erase s t (n + 1) (deleteChild running erase t x n).1 := by
  -- the locations from `n` on are still as they were
  have hbit : x.1.childLoc t n = s.childLoc t n := by
    rw [h.here, decide_eq_true le_rfl, Bool.and_true]
  rw [deleteChild_fst, hbit]
  cases hn' : s.childLoc t n with
  | false =>
    rw [if_neg (by decide)]
    refine ⟨h.kept, h.via, fun r => (h.mem r).trans (and_congr_right fun _ => not_congr ?_), ?_,
      h.others⟩
    · constructor
      · exact fun ⟨j, hj, hrest⟩ => ⟨j, lt_succ_of_lt hj, hrest⟩
      · rintro ⟨j, hj, hset, hrest⟩
        have hne : j ≠ n := by
          rintro rfl
          rw [hn'] at hset
          cases hset
        exact ⟨j, lt_of_le_of_ne (Nat.lt_succ_iff.mp hj) hne, hset, hrest⟩
    · intro j
      rw [h.here]
      by_cases hj : j = n
      · rw [hj, hn', Bool.false_and, Bool.false_and]
      · exact congrArg _ (decide_eq_decide.mpr ⟨fun hle => Nat.lt_of_le_of_ne hle (Ne.symm hj),
          le_of_succ_le⟩)
  | true =>
    rw [if_pos rfl]
    refine ⟨removeRule_kept h.kept .., h.via, fun r => ?_, fun j => ?_, fun t' ht' => ?_⟩
    · rw [setChildLoc_fdir, mem_removeRule h.kept hn, h.mem, and_assoc, ← not_or]
      refine and_congr_right fun _ => not_congr ⟨?_, ?_⟩
      · rintro (⟨j, hj, hrest⟩ | ⟨hloc, hclears⟩)
        · exact ⟨j, lt_succ_of_lt hj, hrest⟩
        · exact ⟨n, lt_succ_self n, hn', hloc, hclears⟩
      · rintro ⟨j, hj, hset, hloc, hclears⟩
        rcases Nat.lt_succ_iff_lt_or_eq.mp hj with hj | rfl
        · exact .inl ⟨j, hj, hset, hloc, hclears⟩
        · exact .inr ⟨hloc, hclears⟩
    · by_cases hj : j = n
      · rw [hj, childLoc_setChildLoc_self, Bool.false_and,
          decide_eq_false (not_succ_le_self n), Bool.and_false]
      · rw [childLoc_setChildLoc_of_ne (.inr hj)]
        refine (h.here j).trans (congrArg _ (decide_eq_decide.mpr ?_))
        exact ⟨fun hle => Nat.lt_of_le_of_ne hle (Ne.symm hj), le_of_succ_le⟩
    · exact (update_of_ne ht' ..).trans (h.others t' ht')

theorem foldl_deleteChild (h : s.fdir.Kept) (erase : ℕ → Bool) (t : ℕ) {n : ℕ}
    (hn : n ≤ maxHwEntries) (err : ℤ) :
    ChildrenGone running erase s t n
      ((range n).foldl (deleteChild running erase t) (s, err)).1 := by
  induction n with
  | zero => exact ⟨h, rfl, fun r => by simp, fun j => by simp, fun _ _ => rfl⟩
  | succ n ih =>
    rw [range_succ, foldl_append, foldl_cons, foldl_nil]
    exact (ih (le_of_succ_le hn)).succ hn

theorem deleteLink_gone (h : s.fdir.Kept) (running : Bool) (erase : ℕ → Bool) (t : ℕ) :
    ∃ s', ChildrenGone running erase s t maxHwEntries s' ∧
      (deleteLink running erase s t).1 =
        { s' with jumpTables := update s'.jumpTables t none } :=
  ⟨_, foldl_deleteChild h erase t le_rfl 0, rfl⟩

/-- A rule with another hash is at the location, and its erase fails. -/
def Stuck (running erase : Bool) (s : ClsState) (r : FdirFilter) : Prop :=
  running = true ∧ erase = false ∧
    ∃ rule ∈ s.fdir.filterList, rule.swIdx = r.swIdx ∧ rule.filter.bktHash ≠ r.filter.bktHash

@[simp] theorem installKnode_jumpTables :
    (installKnode c o s k r queue).jumpTables = s.jumpTables := by
  rw [installKnode]
  split <;> rfl

theorem installKnode_cases (h : s.fdir.Kept) :
    (installKnode c o s k r queue).fdir.Kept ∧
      ((o.write = true ∧ ¬ Stuck c.running o.erase s r) ∧
        (∀ x, x ∈ (installKnode c o s k r queue).fdir.filterList ↔
          x = r ∨ x ∈ s.fdir.filterList ∧ x.swIdx ≠ r.swIdx) ∧
        (installKnode c o s k r queue).installedVia =
          update s.installedVia (handleLoc k.handle) (userHtid k.handle) ∨
      (o.write = false ∨ Stuck c.running o.erase s r) ∧
        (installKnode c o s k r queue).fdir.filterList = s.fdir.filterList ∧
        (installKnode c o s k r queue).installedVia = s.installedVia) := by
  rw [installKnode]
  cases hwrite : o.write with
  | false => exact ⟨h, .inr ⟨.inl rfl, rfl, rfl⟩⟩
  | true =>
    have hkept : (s.fdir.write r queue).Kept := ⟨h.sorted, h.count⟩
    have hi := swIdx_of_mem r
    have hstep := updateEthtoolFdirEntry_step hkept c.running o.erase (some r) r.swIdx
    have hkept' := hstep.kept_state hkept hi
    generalize updateEthtoolFdirEntry c.running o.erase (s.fdir.write r queue) (some r) r.swIdx =
      res at hstep hkept'
    -- a completed update is a store, on a state with the same list
    have hmem : ∀ f : FdirState, f.Kept → f.filterList = s.fdir.filterList → ∀ x,
        x ∈ (f.store (some r) r.swIdx).filterList ↔
          x = r ∨ x ∈ s.fdir.filterList ∧ x.swIdx ≠ r.swIdx := by
      intro f hf hlist x
      rw [hf.mem_store hi, hlist, mem_some_iff, eq_comm]
    -- an update whose erase is not needed, or succeeds, is not stuck
    have hnot : (∀ rule ∈ s.fdir.filterList, rule.swIdx = r.swIdx →
        Stale c.running rule (some r) → o.erase = true) → ¬ Stuck c.running o.erase s r := by
      rintro hdone ⟨hrun, hfail, rule, hrule, hidx, hbkt⟩
      have hok := hdone rule hrule hidx ⟨hrun, fun i hi => mem_some_iff.mp hi ▸ hbkt⟩
      exact absurd hok (by rw [hfail]; decide)
    refine ⟨hkept', ?_⟩
    cases hstep with
    | absent hfree =>
      refine .inl ⟨⟨rfl, hnot fun rule hrule hidx => absurd hidx (hfree rule hrule)⟩,
        hmem _ hkept rfl, rfl⟩
    | kept hrule hidx hstale =>
      refine .inl ⟨⟨rfl, hnot fun rule' hrule' hidx' hstale' => ?_⟩, hmem _ hkept rfl, rfl⟩
      -- a location has one rule
      rw [h.sorted.eq_of_key hrule' hrule
        (congrArg BitVec.toNat (hidx'.trans hidx.symm))] at hstale'
      exact absurd hstale' hstale
    | @erased rule _ _ _ hok =>
      exact .inl ⟨⟨rfl, hnot fun _ _ _ _ => hok⟩,
        hmem ((s.fdir.write r queue).erase rule) ⟨h.sorted, h.count⟩ rfl, rfl⟩
    | stuck hrule hidx hstale hfail =>
      exact .inr ⟨.inr ⟨hstale.1, hfail, _, hrule, hidx, hstale.2 r rfl⟩, rfl, rfl⟩

theorem installKnode_owns (h : s.fdir.Kept) (hloc : handleLoc k.handle ≤ maxHwEntries)
    (hidx : r.swIdx = BitVec.ofNat 16 (handleLoc k.handle)) (hwrite : o.write = true)
    (hstuck : ¬ Stuck c.running o.erase s r) (t l : ℕ) :
    (installKnode c o s k r queue).Owns t l ↔
      if l = handleLoc k.handle then t = userHtid k.handle else s.Owns t l := by
  have hr : r.location = handleLoc k.handle := by
    rw [location, hidx, toNat_ofNat_loc hloc]
  have hsw : ∀ x : FdirFilter, x.swIdx = r.swIdx ↔ x.location = handleLoc k.handle := fun x => by
    rw [← location_eq_iff, ← hr, location, location]
  rcases (installKnode_cases h).2 with ⟨-, hmem, hvia⟩ | ⟨hfail | hfail, -⟩
  · rw [ClsState.Owns, hvia]
    by_cases hl : l = handleLoc k.handle
    · subst hl
      rw [if_pos rfl, update_self]
      exact ⟨fun hown => hown.2.symm, fun ht => ⟨⟨r, (hmem r).mpr (.inl rfl), hr⟩, ht.symm⟩⟩
    · rw [if_neg hl, update_of_ne hl, ClsState.Owns]
      refine and_congr_left fun _ => exists_congr fun x => and_congr_left fun hx => ?_
      rw [hmem, or_iff_right (fun heq => hl (by rw [← hx, heq, hr])), Ne, hsw, hx]
      exact and_iff_left hl
  · exact absurd hwrite (by rw [hfail]; decide)
  · exact absurd hfail hstuck

theorem installKnode_owns_of_not (h : s.fdir.Kept)
    (hfail : o.write = false ∨ Stuck c.running o.erase s r) (t l : ℕ) :
    (installKnode c o s k r queue).Owns t l ↔ s.Owns t l := by
  rcases (installKnode_cases h).2 with ⟨⟨hwrite, hnot⟩, -⟩ | ⟨-, hlist, hvia⟩
  · rcases hfail with hfail | hfail
    · exact absurd hwrite (by rw [hfail]; decide)
    · exact absurd hfail hnot
  · rw [ClsState.Owns, hlist, hvia, ClsState.Owns]

theorem installKnode_inRange (h : s.fdir.Kept) (hs : s.InRange) (hpos : 1 ≤ handleLoc k.handle)
    (hloc : handleLoc k.handle ≤ maxHwEntries)
    (hidx : r.swIdx = BitVec.ofNat 16 (handleLoc k.handle)) :
    (installKnode c o s k r queue).InRange := by
  intro x hx
  rcases (installKnode_cases h).2 with ⟨-, hmem, -⟩ | ⟨-, hlist, -⟩
  · rcases (hmem x).mp hx with rfl | ⟨hx, -⟩
    · rw [location, hidx, toNat_ofNat_loc hloc]
      exact ⟨hpos, hloc⟩
    · exact hs x hx
  · exact hs x (hlist ▸ hx)

def Prepared (c : ClsConfig) (alloc : Bool) (s : ClsState) (k : Knode) (r : FdirFilter)
    (queue : U8) : Prop :=
  ∃ fields, checkKnode c s k = some fields ∧ userHtid k.linkHandle = 0 ∧
    (prepareKnode c alloc s k fields).2 = .ok (r, queue)

theorem Prepared.eq {alloc : Bool} {r' : FdirFilter} {queue' : U8}
    (h : Prepared c alloc s k r queue) (h' : Prepared c alloc s k r' queue') : r = r' := by
  obtain ⟨fields, hcheck, -, hres⟩ := h
  obtain ⟨fields', hcheck', -, hres'⟩ := h'
  obtain rfl := Option.some.inj (hcheck.symm.trans hcheck')
  have heq := hres.symm.trans hres'
  simp only [Except.ok.injEq, Prod.mk.injEq] at heq
  exact heq.1

theorem checkKnode_table {fields : List MatField} (h : checkKnode c s k = some fields) :
    userHtid k.handle = rootUhtid ∨
      userHtid k.handle < maxLinkHandle ∧ (s.jumpTables (userHtid k.handle)).isSome := by
  rw [checkKnode] at h
  split at h
  · cases h
  split at h
  · cases h
  rw [fieldPtr] at h
  split at h
  · exact .inl (by assumption)
  split at h
  · cases h
  · rename_i hlt
    obtain ⟨jump, hjump, -⟩ := map_eq_some_iff.mp h
    exact .inr ⟨not_le.mp hlt, isSome_iff_exists.mpr ⟨jump, hjump⟩⟩

theorem mem_links {t : ℕ} : t ∈ range' 1 (maxLinkHandle - 1) ↔ IsLink t := by
  rw [mem_range'_1]
  rfl

theorem prepareKnode_cases (c : ClsConfig) (alloc : Bool) (s : ClsState) (k : Knode)
    (fields : List MatField) :
    ∃ m res, prepareKnode c alloc s k fields = ({ s.fdir with mask := m }, res) ∧
      ∀ r queue, res = .ok (r, queue) → r.swIdx = BitVec.ofNat 16 (handleLoc k.handle) ∧
        (userHtid k.handle ≠ rootUhtid → (s.jumpTables (userHtid k.handle)).isSome →
          ∀ t, IsLink t → s.childLoc t (handleLoc k.handle - 1) = false) := by
  rw [prepareKnode]
  cases alloc with
  | false => exact ⟨s.fdir.mask, .error eNoMem, rfl, fun _ _ h => nomatch h⟩
  | true =>
    rw [if_neg (by decide)]
    split
    · exact ⟨s.fdir.mask, .error eInval, rfl, fun _ _ h => nomatch h⟩
    rename_i htaken
    cases parseTcActions c.queues c.vfIfindex k.exts with
    | none => exact ⟨s.fdir.mask, .error eInval, rfl, fun _ _ h => nomatch h⟩
    | some act =>
      dsimp only
      rcases applyMask_cases c.cloudMode s.fdir (s.knodeInput k fields).2 with
        ⟨m, err, heq, herr⟩ | heq
      · rw [heq]
        exact ⟨m, .error err, if_pos herr, fun _ _ h => nomatch h⟩
      · rw [heq]
        refine ⟨_, _, if_neg (not_not.mpr rfl), fun r queue h => ?_⟩
        cases h
        refine ⟨rfl, fun hroot hsome t ht => ?_⟩
        -- `locTaken` has looked at every child table
        by_contra hbit
        rw [locTaken, childTable, if_neg hroot, hsome, Bool.true_and] at htaken
        exact htaken (any_eq_true.mpr ⟨t, mem_links.mpr ht, by simpa using hbit⟩)

def ClsState.withMask (s : ClsState) (m : AtrInput) : ClsState :=
  { s with fdir := { s.fdir with mask := m } }

def ClsState.withLink (s : ClsState) (link : ℕ) (jump : JumpTable) : ClsState :=
  { s with jumpTables := Function.update s.jumpTables link (some jump) }

theorem ClsState.withLink_jumpTables_self {link : ℕ} {jump : JumpTable} :
    (s.withLink link jump).jumpTables link = some jump := update_self ..

theorem ClsState.withLink_jumpTables_of_ne {t link : ℕ} {jump : JumpTable} (h : t ≠ link) :
    (s.withLink link jump).jumpTables t = s.jumpTables t := update_of_ne h ..

inductive ConfigureStep (c : ClsConfig) (o : FdirOutcome) (s : ClsState) (k : Knode) :
    ClsState → Prop
  | refused {m : AtrInput} (hnot : ∀ r queue, ¬ Prepared c o.alloc s k r queue) :
    ConfigureStep c o s k (s.withMask m)
  | linked {jump : JumpTable} (hnot : ∀ r queue, ¬ Prepared c o.alloc s k r queue)
    (hlink : IsLink (userHtid k.linkHandle))
    (hfree : ∀ old, s.jumpTables (userHtid k.linkHandle) = some old → old.linkHdl = 0)
    (hhdl : jump.linkHdl = k.handle) (hmap : ∀ j, jump.childLocMap j = false) :
    ConfigureStep c o s k (s.withLink (userHtid k.linkHandle) jump)
  | root {m : AtrInput} {r : FdirFilter} {queue : U8} (hprep : Prepared c o.alloc s k r queue)
    (hidx : r.swIdx = BitVec.ofNat 16 (handleLoc k.handle))
    (hroot : userHtid k.handle = rootUhtid) :
    ConfigureStep c o s k (installKnode c o (s.withMask m) k r queue)
  | child {m : AtrInput} {r : FdirFilter} {queue : U8} (hprep : Prepared c o.alloc s k r queue)
    (hidx : r.swIdx = BitVec.ofNat 16 (handleLoc k.handle))
    (hroot : userHtid k.handle ≠ rootUhtid) (hlt : userHtid k.handle < maxLinkHandle)
    (hsome : (s.jumpTables (userHtid k.handle)).isSome)
    (hfree : ∀ t, IsLink t → s.childLoc t (handleLoc k.handle - 1) = false) :
    ConfigureStep c o s k ((installKnode c o (s.withMask m) k r queue).setChildLoc
      (userHtid k.handle) (handleLoc k.handle - 1) true)

theorem configureLink_cases (alloc : Bool) (s : ClsState) (k : Knode) (fields : List MatField)
    (hlink : userHtid k.linkHandle ≠ 0) :
    (configureLink alloc s k fields).1 = s ∨
      IsLink (userHtid k.linkHandle) ∧
        (∀ old, s.jumpTables (userHtid k.linkHandle) = some old → old.linkHdl = 0) ∧
        ∃ jump, (configureLink alloc s k fields).1 = s.withLink (userHtid k.linkHandle) jump ∧
          jump.linkHdl = k.handle ∧ ∀ j, jump.childLocMap j = false := by
  rw [configureLink]
  split
  · exact .inl rfl
  rename_i hlt
  split
  · exact .inl rfl
  split
  · exact .inl rfl
  rename_i hany
  split
  · exact .inl rfl
  split
  · exact .inl rfl
  · refine .inr ⟨⟨pos_of_ne_zero hlink, not_le.mp hlt⟩, fun old hold => ?_, _, rfl, rfl,
      fun _ => rfl⟩
    simpa [hold] using hany

theorem configureClsu32_step (c : ClsConfig) (o : FdirOutcome) (s : ClsState) (k : Knode) :
    ConfigureStep c o s k (configureClsu32 c o s k).1 := by
  rw [configureClsu32]
  cases hcheck : checkKnode c s k with
  | none =>
    refine .refused (m := s.fdir.mask) fun r queue ⟨fields, hsome, _⟩ => ?_
    rw [hcheck] at hsome
    cases hsome
  | some fields =>
    dsimp only
    by_cases hlink : userHtid k.linkHandle ≠ 0
    · have hnot : ∀ r queue, ¬ Prepared c o.alloc s k r queue := fun _ _ ⟨_, _, hzero, _⟩ =>
        hlink hzero
      rw [if_pos hlink]
      rcases configureLink_cases o.alloc s k fields hlink with
        heq | ⟨hlink', hfree, jump, heq, hhdl, hmap⟩
      · rw [heq]
        exact .refused (m := s.fdir.mask) hnot
      · rw [heq]
        exact .linked hnot hlink' hfree hhdl hmap
    · rw [if_neg hlink]
      obtain ⟨m, res, heq, hok⟩ := prepareKnode_cases c o.alloc s k fields
      -- the checks decide on the rule alone
      have hprep : ∀ r queue, Prepared c o.alloc s k r queue ↔ res = .ok (r, queue) := by
        intro r queue
        constructor
        · rintro ⟨fields', hcheck', -, hres⟩
          cases hcheck.symm.trans hcheck'
          rw [heq] at hres
          exact hres
        · exact fun hres => ⟨fields, hcheck, not_not.mp hlink, by rw [heq, hres]⟩
      rw [heq]
      cases res with
      | error err =>
        exact .refused (m := m) fun r queue hp => nomatch (hprep r queue).mp hp
      | ok out =>
        obtain ⟨r, queue⟩ := out
        obtain ⟨hidx, hfree⟩ := hok r queue rfl
        have hp := (hprep r queue).mpr rfl
        dsimp only
        by_cases hroot : userHtid k.handle = rootUhtid
        · rw [if_neg (not_not.mpr hroot)]
          exact .root (m := m) hp hidx hroot
        · obtain ⟨hlt, hsome⟩ := (checkKnode_table hcheck).resolve_left hroot
          rw [if_pos hroot]
          exact .child (m := m) hp hidx hroot hlt hsome (hfree hroot hsome)

end Ixgbe
