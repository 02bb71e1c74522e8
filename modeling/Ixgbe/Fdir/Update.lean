import Ixgbe.Fdir.Rules

/-! # What the rule routines do

Inversion lemmas (`FdirUpdateStep`, `FdirAddStep`). Every update of the list is one of a finite map,
`FdirState.store`. -/

namespace Ixgbe

open SortedTable Option FdirFilter FdirState

variable {s : FdirState} {input : Option FdirFilter} {swIdx : U16} {r rule : FdirFilter}

/-- The list is sorted by location, and counted. -/
structure FdirState.Kept (s : FdirState) : Prop where
  sorted : Sorted location s.filterList
  count : s.filterCount = s.filterList.length

theorem FdirFilter.location_eq_iff : r.location = swIdx.toNat ↔ r.swIdx = swIdx :=
  BitVec.toNat_inj

theorem FdirFilter.swIdx_of_mem (r : FdirFilter) : ∀ i ∈ some r, i.swIdx = r.swIdx := by
  rintro i ⟨⟩
  rfl

theorem FdirFilter.swIdx_of_mem_none (swIdx : U16) :
    ∀ i ∈ (none : Option FdirFilter), i.swIdx = swIdx :=
  fun i hi => absurd hi (not_mem_none i)

def FdirState.store (s : FdirState) (input : Option FdirFilter) (swIdx : U16) : FdirState :=
  { s with
    filterList := before location swIdx.toNat s.filterList ++ input.toList ++
      rest location swIdx.toNat s.filterList
    filterCount := s.filterCount -
      (holder location swIdx.toNat s.filterList).toList.length + input.toList.length }

theorem FdirState.store_none (s : FdirState) (swIdx : U16) :
    (s.store none swIdx).filterList =
      SortedTable.erase location swIdx.toNat s.filterList := by
  simp [store, SortedTable.erase]

theorem FdirState.store_some (s : FdirState) (hr : r.swIdx = swIdx) :
    (s.store (some r) swIdx).filterList = put location r s.filterList := by
  subst hr
  simp [store, put, location]

theorem FdirState.Kept.mem_store (h : s.Kept) (hi : ∀ i ∈ input, i.swIdx = swIdx) :
    r ∈ (s.store input swIdx).filterList ↔ r ∈ input ∨ r ∈ s.filterList ∧ r.swIdx ≠ swIdx := by
  cases input with
  | none =>
    rw [store_none, mem_erase h.sorted, Ne, location_eq_iff]
    simp
  | some i =>
    have hi : i.swIdx = swIdx := hi i rfl
    rw [store_some s hi, mem_put h.sorted, ← hi, Ne, location,
      location, BitVec.toNat_inj, mem_some_iff, eq_comm]

theorem FdirState.Kept.store (h : s.Kept) (hi : ∀ i ∈ input, i.swIdx = swIdx) :
    (s.store input swIdx).Kept := by
  have hlen := length_erase location swIdx.toNat s.filterList
  cases input with
  | none =>
    refine ⟨?_, ?_⟩
    · rw [store_none]
      exact sorted_erase h.sorted _
    · rw [store_none, store, h.count]
      simp only [toList_none, List.length_nil]
      omega
  | some i =>
    have hi : i.swIdx = swIdx := hi i rfl
    refine ⟨?_, ?_⟩
    · rw [store_some s hi]
      exact sorted_put h.sorted i
    · rw [store_some s hi, length_put, store, h.count, location, hi]
      simp only [toList_some, List.length_singleton]
      omega

theorem FdirState.Kept.find_eq_some (h : s.Kept) {l : U32} :
    findEthtoolFdirEntry s l = some r ↔ r ∈ s.filterList ∧ r.location = l.toNat :=
  holder_eq_some h.sorted

theorem FdirState.Kept.find_store (h : s.Kept) (hi : ∀ i ∈ input, i.swIdx = swIdx) (l : U32) :
    findEthtoolFdirEntry (s.store input swIdx) l =
      if l.toNat = swIdx.toNat then input else findEthtoolFdirEntry s l := by
  ext r
  rw [(h.store hi).find_eq_some, h.mem_store hi]
  by_cases hl : l.toNat = swIdx.toNat
  · -- the location itself: the rule there is the input, or gone
    rw [if_pos hl, hl, location_eq_iff]
    constructor
    · rintro ⟨hr | ⟨-, hne⟩, heq⟩
      · exact hr
      · exact absurd heq hne
    · exact fun hr => ⟨.inl hr, hi r hr⟩
  · rw [if_neg hl, h.find_eq_some]
    constructor
    · rintro ⟨hr | ⟨hr, -⟩, heq⟩
      · exact absurd (heq.symm.trans (location_eq_iff.mpr (hi r hr))) hl
      · exact ⟨hr, heq⟩
    · exact fun ⟨hr, heq⟩ => ⟨.inr ⟨hr, fun hsw =>
        hl (heq.symm.trans (location_eq_iff.mpr hsw))⟩, heq⟩

@[simp] theorem FdirState.store_hw (s : FdirState) (input : Option FdirFilter) (swIdx : U16) :
    (s.store input swIdx).hw = s.hw := rfl

/-- The interface is up, and the input does not take the hardware entry over. -/
def Stale (running : Bool) (rule : FdirFilter) (input : Option FdirFilter) : Prop :=
  running = true ∧ ∀ i ∈ input, rule.filter.bktHash ≠ i.filter.bktHash

/-- What `ixgbe_update_ethtool_fdir_entry` can do. -/
inductive FdirUpdateStep (running erase : Bool) (s : FdirState) (input : Option FdirFilter)
    (swIdx : U16) : FdirState × ℤ → Prop
  | absent (hfree : ∀ rule ∈ s.filterList, rule.swIdx ≠ swIdx) :
    FdirUpdateStep running erase s input swIdx
      (s.store input swIdx, if input.isSome then success else eInval)
  /-- The old rule goes, and nothing has to be done in the hardware. -/
  | kept {rule : FdirFilter} (hmem : rule ∈ s.filterList) (hidx : rule.swIdx = swIdx)
    (hstale : ¬ Stale running rule input) :
    FdirUpdateStep running erase s input swIdx (s.store input swIdx, success)
  /-- The old rule goes from the hardware too. -/
  | erased {rule : FdirFilter} (hmem : rule ∈ s.filterList) (hidx : rule.swIdx = swIdx)
    (hstale : Stale running rule input) (hok : erase = true) :
    FdirUpdateStep running erase s input swIdx ((s.erase rule).store input swIdx, success)
  /-- The hardware command fails, and the list stays. -/
  | stuck {rule : FdirFilter} (hmem : rule ∈ s.filterList) (hidx : rule.swIdx = swIdx)
    (hstale : Stale running rule input) (hfail : erase = false) :
    FdirUpdateStep running erase s input swIdx (s, eInval)

theorem stale_iff {running : Bool} : Stale running rule input ↔
    (running && input.all fun i => rule.filter.bktHash != i.filter.bktHash) = true := by
  cases input <;> simp [Stale]

theorem relinkEntry_eq (s : FdirState) (input : Option FdirFilter) (swIdx : U16) :
    relinkEntry s input swIdx = (s.store input swIdx,
      if input.isSome || (holder location swIdx.toNat s.filterList).isSome then success
      else eInval) := by
  cases input with
  | none => simp [relinkEntry, store]
  | some i => simp [relinkEntry, store]

theorem updateEthtoolFdirEntry_step (h : s.Kept) (running erase : Bool)
    (input : Option FdirFilter) (swIdx : U16) :
    FdirUpdateStep running erase s input swIdx
      (updateEthtoolFdirEntry running erase s input swIdx) := by
  rw [updateEthtoolFdirEntry]
  cases hold : holder location swIdx.toNat s.filterList with
  | none =>
    -- no rule has the location: an input is linked, and without one the call fails
    have hend := relinkEntry_eq s input swIdx
    rw [hold, isSome_none, Bool.or_false] at hend
    rw [filter_none, if_neg (by simp), elim_none, hend]
    exact .absent fun rule hr hsw =>
      (holder_eq_none h.sorted).mp hold rule hr (location_eq_iff.mpr hsw)
  | some rule =>
    obtain ⟨hmem, hloc⟩ := (holder_eq_some h.sorted).mp hold
    have hidx := location_eq_iff.mp hloc
    -- the rest of the update is the same on the state without the hardware entry
    have hend : ∀ s', s'.filterList = s.filterList →
        relinkEntry s' input swIdx = (s'.store input swIdx, success) := by
      intro s' hlist
      rw [relinkEntry_eq, hlist, hold, isSome_some, Bool.or_true, if_pos rfl]
    -- the erase comes before the list is changed
    by_cases hstale : Stale running rule input
    · rw [filter_some, if_pos (stale_iff.mp hstale)]
      cases erase with
      | false => exact .stuck hmem hidx hstale rfl
      | true =>
        rw [if_neg (by simp), elim_some, hend (s.erase rule) rfl]
        exact .erased hmem hidx hstale rfl
    · rw [filter_some, if_neg (mt stale_iff.mpr hstale), if_neg (by simp), elim_none, hend s rfl]
      exact .kept hmem hidx hstale

theorem FdirUpdateStep.kept_state {running erase : Bool} {res : FdirState × ℤ} (h : s.Kept)
    (hi : ∀ i ∈ input, i.swIdx = swIdx) (hstep : FdirUpdateStep running erase s input swIdx res) :
    res.1.Kept := by
  cases hstep with
  | absent => exact h.store hi
  | kept => exact h.store hi
  | @erased rule => exact (FdirState.Kept.mk (s := s.erase rule) h.sorted h.count).store hi
  | stuck => exact h

theorem applyMask_cases (cloudMode : Bool) (s : FdirState) (mask : AtrInput) :
    (∃ m err, applyMask cloudMode s mask = ({ s with mask := m }, err) ∧ err ≠ success) ∨
      applyMask cloudMode s mask = ({ s with mask := mask }, success) := by
  rw [applyMask]
  split
  · by_cases hok : fdirSetInputMask mask cloudMode = success
    · exact .inr (by rw [hok])
    · exact .inl ⟨mask, _, rfl, hok⟩
  · split
    · exact .inl ⟨s.mask, eInval, rfl, by decide⟩
    · rename_i hmask
      exact .inr (by rw [← not_not.mp hmask])

theorem checkFlowSpec_error {c : FdirConfig} {alloc : Bool} {fsp : FlowSpec} {err : ℤ}
    (h : checkFlowSpec c alloc fsp = .error err) : err ≠ success := by
  rw [checkFlowSpec] at h
  split at h
  · cases h
    decide
  split at h
  · cases h
    decide
  split at h
  · cases h
    decide
  split at h
  · cases h
    decide
  split at h
  · cases h
    decide
  · cases h

theorem checkFlowSpec_ok {c : FdirConfig} {alloc : Bool} {fsp : FlowSpec} {queue : U8}
    {filter mask : AtrInput} (h : checkFlowSpec c alloc fsp = .ok (queue, filter, mask)) :
    addQueue c.queues fsp.ringCookie = some queue ∧ fsp.location.toNat < c.pballoc.locations ∧
      fsp.parse = some (filter, mask) := by
  rw [checkFlowSpec] at h
  split at h
  · cases h
  split at h
  · cases h
  rename_i hqueue
  split at h
  · cases h
  rename_i hloc
  split at h
  · cases h
  split at h
  · cases h
  · rename_i hparse
    cases h
    exact ⟨hqueue, not_le.mp hloc, hparse⟩

theorem prepareEntry_cases (c : FdirConfig) (alloc : Bool) (s : FdirState) (fsp : FlowSpec) :
    (∃ m err, prepareEntry c alloc s fsp = ({ s with mask := m }, .error err) ∧ err ≠ success) ∨
      ∃ queue filter mask, checkFlowSpec c alloc fsp = .ok (queue, filter, mask) ∧
        prepareEntry c alloc s fsp = ({ s with mask := mask }, .ok (fsp.rule filter mask, queue)) ∧
        matchEthtoolFdirEntry s (fsp.rule filter mask) = false := by
  rw [prepareEntry]
  cases hcheck : checkFlowSpec c alloc fsp with
  | error err => exact .inl ⟨s.mask, err, rfl, checkFlowSpec_error hcheck⟩
  | ok res =>
    obtain ⟨queue, filter, mask⟩ := res
    dsimp only
    rcases applyMask_cases c.cloudMode s mask with ⟨m, err, heq, herr⟩ | heq
    · -- the mask differs from that of the other rules, or the hardware cannot match it
      rw [heq]
      exact .inl ⟨m, eInval, if_pos herr, by decide⟩
    · rw [heq]
      cases hmatch : matchEthtoolFdirEntry s (fsp.rule filter mask) with
      | true => exact .inl ⟨mask, eInval, if_pos hmatch, by decide⟩
      | false => exact .inr ⟨queue, filter, mask, rfl,
        if_neg (Bool.eq_false_iff.mp hmatch), hmatch⟩

/-- The mask is set, and the rule is in the hardware if the interface is up. -/
def FdirState.program (s : FdirState) (running : Bool) (mask : AtrInput) (r : FdirFilter)
    (queue : U8) : FdirState :=
  if running then { s with mask := mask }.write r queue else { s with mask := mask }

@[simp] theorem FdirState.program_filterList (s : FdirState) (running : Bool) (mask : AtrInput)
    (r : FdirFilter) (queue : U8) : (s.program running mask r queue).filterList = s.filterList := by
  cases running <;> rfl

theorem FdirState.Kept.program (h : s.Kept) (running : Bool) (mask : AtrInput) (r : FdirFilter)
    (queue : U8) : (s.program running mask r queue).Kept := by
  cases running <;> exact ⟨h.sorted, h.count⟩

/-- What `ixgbe_add_ethtool_fdir_entry` can do. -/
inductive FdirAddStep (c : FdirConfig) (o : FdirOutcome) (s : FdirState) (fsp : FlowSpec) :
    FdirState × ℤ → Prop
  /-- A check or the hardware refuses the rule. -/
  | refused {m : AtrInput} {err : ℤ} (herr : err ≠ success)
    (hfail : ∀ input queue, (prepareEntry c o.alloc s fsp).2 = .ok (input, queue) →
      c.running = true ∧ o.write = false) :
    FdirAddStep c o s fsp ({ s with mask := m }, err)
  /-- The rule is written to the hardware and then to the list. -/
  | programmed {queue : U8} {filter mask : AtrInput} {res : FdirState × ℤ}
    (hcheck : checkFlowSpec c o.alloc fsp = .ok (queue, filter, mask))
    (hprep : (prepareEntry c o.alloc s fsp).2 = .ok (fsp.rule filter mask, queue))
    (hnew : matchEthtoolFdirEntry s (fsp.rule filter mask) = false)
    (hwrite : c.running = true → o.write = true)
    (hstep : FdirUpdateStep c.running o.erase
      (s.program c.running mask (fsp.rule filter mask) queue) (some (fsp.rule filter mask))
      (fsp.rule filter mask).swIdx res) :
    FdirAddStep c o s fsp (res.1, success)

theorem addEthtoolFdirEntry_step (h : s.Kept) (c : FdirConfig) (o : FdirOutcome)
    (fsp : FlowSpec) : FdirAddStep c o s fsp (addEthtoolFdirEntry c o s fsp) := by
  rw [addEthtoolFdirEntry]
  rcases prepareEntry_cases c o.alloc s fsp with
    ⟨m, err, heq, herr⟩ | ⟨queue, filter, mask, hcheck, heq, hnew⟩
  · rw [heq]
    refine .refused herr fun input queue hok => ?_
    rw [heq] at hok
    cases hok
  · have hprep : (prepareEntry c o.alloc s fsp).2 = .ok (fsp.rule filter mask, queue) := by
      rw [heq]
    rw [heq]
    dsimp only
    -- the filter is written only while the interface is up
    by_cases hfail : (c.running && !o.write) = true
    · rw [if_pos hfail]
      refine .refused (by decide) fun _ _ _ => ?_
      simpa using hfail
    · rw [if_neg hfail]
      refine .programmed hcheck hprep hnew (fun hrun => ?_)
        (updateEthtoolFdirEntry_step (h.program c.running mask (fsp.rule filter mask) queue)
          _ _ _ _)
      simpa [hrun] using hfail

end Ixgbe
