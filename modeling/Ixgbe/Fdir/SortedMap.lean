import Ixgbe.Fdir.Update
import Ixgbe.Queues.Sriov

/-! # The rule list as a finite map

`ixgbe_del_ethtool_fdir_entry` hands a 32-bit location to a `u16`, so a large one deletes another
rule. -/

namespace Ixgbe

open EventRun FdirFilter List

inductive FdirCall
  | add (fsp : FlowSpec)
  | del (location : U32)

structure FdirEvent where
  config : FdirConfig
  outcome : FdirOutcome
  call : FdirCall

section

variable (s : FdirState) (e : FdirEvent)

def FdirEvent.exec (s : FdirState) : FdirState × ℤ :=
  match e.call with
  | .add fsp => addEthtoolFdirEntry e.config e.outcome s fsp
  | .del location => delEthtoolFdirEntry e.config e.outcome s location

def fdirStep : FdirState := (e.exec s).1

def FdirState.Empty : Prop := s.filterList = [] ∧ s.filterCount = 0

def FdirEvent.Quiet : Prop :=
  e.config.running = true → e.outcome.write = true ∧ e.outcome.erase = true

/-- The masked match with its hash, at the location, with the action. -/
def FlowSpec.Asks (fsp : FlowSpec) (r : FdirFilter) : Prop :=
  ∃ filter mask, fsp.parse = some (filter, mask) ∧ r = fsp.rule filter mask

/-- The call does to the list what it should do to a sorted finite map. -/
def MapStep : Prop :=
  (fdirStep s e).Kept ∧ match e.call with
  | .add fsp => (e.exec s).2 = success → ∃ r, fsp.Asks r ∧
      findEthtoolFdirEntry (fdirStep s e) fsp.location = some r ∧
      (∀ r' ∈ (fdirStep s e).filterList, r'.filter = r.filter → r'.action = r.action →
        r'.location = fsp.location.toNat) ∧
      ∀ l ≠ fsp.location, findEthtoolFdirEntry (fdirStep s e) l = findEthtoolFdirEntry s l
  | .del location =>
      ((e.exec s).2 = success ↔ ∃ r ∈ s.filterList, r.location = location.toNat) ∧
      ∀ r, r ∈ (fdirStep s e).filterList ↔ r ∈ s.filterList ∧ r.location ≠ location.toNat

/-- A delete's location has 16 bits, or its lower 16 bits are no rule's location. -/
def FdirEvent.Fits : Prop :=
  match e.call with
  | .add _ => True
  | .del location => location.toNat < 2 ^ 16 ∨
      ∀ r ∈ s.filterList, r.location ≠ location.toNat % 2 ^ 16

end

variable {s : FdirState} {e : FdirEvent} {input : Option FdirFilter} {swIdx : U16}

variable {res : FdirState × ℤ} {c : FdirConfig} {fsp : FlowSpec}

theorem FdirUpdateStep.filterList_eq {running erase : Bool} (hquiet : running = true → erase = true)
    (hstep : FdirUpdateStep running erase s input swIdx res) :
    res.1.filterList = (s.store input swIdx).filterList := by
  cases hstep with
  | absent => rfl
  | kept => rfl
  | erased => rfl
  | stuck _ _ hstale hfail => exact absurd (hquiet hstale.1) (by rw [hfail]; decide)

theorem FdirAddStep.kept_state {o : FdirOutcome} (h : s.Kept) (hadd : FdirAddStep c o s fsp res) :
    res.1.Kept := by
  cases hadd with
  | refused => exact ⟨h.sorted, h.count⟩
  | programmed _ _ _ _ hstep =>
    have hkept := hstep.kept_state (h.program ..) (swIdx_of_mem _)
    exact hkept

theorem FdirState.Kept.step (h : s.Kept) (e : FdirEvent) : (fdirStep s e).Kept := by
  rw [fdirStep, FdirEvent.exec]
  cases e.call with
  | add fsp => exact (addEthtoolFdirEntry_step h e.config e.outcome fsp).kept_state h
  | del location =>
    exact (updateEthtoolFdirEntry_step h _ _ none _).kept_state h (swIdx_of_mem_none _)

theorem action_ne_of_not_match {r rule : FdirFilter} (hnew : matchEthtoolFdirEntry s r = false)
    (hmem : rule ∈ s.filterList) (hfilter : rule.filter = r.filter) : rule.action ≠ r.action := by
  intro haction
  refine Bool.eq_false_iff.mp hnew (any_eq_true.mpr ⟨rule, hmem, ?_⟩)
  rw [hfilter, haction, beq_self_eq_true, beq_self_eq_true, Bool.and_self]

theorem toNat_swIdx_of_check {alloc : Bool} {queue : U8}
    {filter mask : AtrInput} (h : checkFlowSpec c alloc fsp = .ok (queue, filter, mask)) :
    (fsp.rule filter mask).location = fsp.location.toNat := by
  have hlt := (checkFlowSpec_ok h).2.1.trans (FdirPballoc.locations_lt _)
  rw [location, FlowSpec.rule, BitVec.toNat_setWidth, Nat.mod_eq_of_lt hlt]

theorem FdirAddStep.map {o : FdirOutcome}
    (h : s.Kept) (hquiet : c.running = true → o.erase = true) (hadd : FdirAddStep c o s fsp res)
    (hret : res.2 = success) :
    ∃ r, fsp.Asks r ∧ findEthtoolFdirEntry res.1 fsp.location = some r ∧
      (∀ r' ∈ res.1.filterList, r'.filter = r.filter → r'.action = r.action →
        r'.location = fsp.location.toNat) ∧
      ∀ l ≠ fsp.location, findEthtoolFdirEntry res.1 l = findEthtoolFdirEntry s l := by
  cases hadd with
  | refused herr => exact absurd hret herr
  | @programmed queue filter mask res hcheck _ hnew _ hstep =>
    obtain ⟨-, -, hparse⟩ := checkFlowSpec_ok hcheck
    have hloc := toNat_swIdx_of_check hcheck
    have hkept := h.program c.running mask (fsp.rule filter mask) queue
    have hi := swIdx_of_mem (fsp.rule filter mask)
    have hlist := hstep.filterList_eq hquiet
    have hfind : ∀ l, findEthtoolFdirEntry res.1 l = if l.toNat = fsp.location.toNat then
        some (fsp.rule filter mask) else findEthtoolFdirEntry s l := by
      intro l
      rw [findEthtoolFdirEntry, hlist, ← findEthtoolFdirEntry, hkept.find_store hi l,
        findEthtoolFdirEntry, FdirState.program_filterList, ← findEthtoolFdirEntry, ← hloc]
      rfl
    refine ⟨fsp.rule filter mask, ⟨filter, mask, hparse, rfl⟩, ?_, ?_, ?_⟩
    · rw [hfind, if_pos rfl]
    · -- another rule with this match and action would have been found before
      intro r' hr' hfilter haction
      rw [hlist, hkept.mem_store hi, FdirState.program_filterList] at hr'
      rcases hr' with hr' | ⟨hmem, -⟩
      · rw [← Option.mem_some_iff.mp hr', hloc]
      · exact absurd haction (action_ne_of_not_match hnew hmem hfilter)
    · intro l hl
      rw [hfind, if_neg (mt BitVec.toNat_inj.mp hl)]

theorem FdirUpdateStep.map {running erase : Bool} (h : s.Kept)
    (hquiet : running = true → erase = true)
    (hstep : FdirUpdateStep running erase s none swIdx res) :
    (res.2 = success ↔ ∃ r ∈ s.filterList, r.location = swIdx.toNat) ∧
      ∀ r, r ∈ res.1.filterList ↔ r ∈ s.filterList ∧ r.location ≠ swIdx.toNat := by
  have hlist := hstep.filterList_eq hquiet
  refine ⟨?_, fun r => ?_⟩
  · cases hstep with
    | absent hfree =>
      refine iff_of_false (show eInval ≠ success by decide) fun ⟨r, hr, hloc⟩ => ?_
      exact hfree r hr (location_eq_iff.mp hloc)
    | kept hmem hidx => exact iff_of_true rfl ⟨_, hmem, location_eq_iff.mpr hidx⟩
    | erased hmem hidx => exact iff_of_true rfl ⟨_, hmem, location_eq_iff.mpr hidx⟩
    | stuck _ _ hstale hfail => exact absurd (hquiet hstale.1) (by rw [hfail]; decide)
  · rw [hlist, FdirState.store_none, SortedTable.mem_erase h.sorted]

theorem FdirState.Empty.kept (h : s.Empty) : s.Kept := by
  refine ⟨?_, ?_⟩
  · rw [h.1]
    exact List.Pairwise.nil
  · rw [h.1, h.2]
    rfl

theorem mapStep_iff_fits (h : s.Kept) (hquiet : e.Quiet) : MapStep s e ↔ e.Fits s := by
  have hkept := h.step e
  rw [MapStep, FdirEvent.Fits, and_iff_right hkept]
  have herase : e.config.running = true → e.outcome.erase = true := fun hrun => (hquiet hrun).2
  rw [fdirStep, FdirEvent.exec]
  cases e.call with
  | add fsp =>
    exact iff_of_true (fun hret =>
      (addEthtoolFdirEntry_step h e.config e.outcome fsp).map h herase hret) trivial
  | del location =>
    obtain ⟨hret, hmem⟩ := (updateEthtoolFdirEntry_step h e.config.running e.outcome.erase none
      (location.setWidth 16)).map h herase
    rw [BitVec.toNat_setWidth] at hret hmem
    constructor
    · rintro ⟨hret', hmem'⟩
      refine or_iff_not_imp_left.mpr fun hbig r hr hloc => ?_
      -- the rule at the lower 16 bits is deleted, though its location is another one
      have hne : r.location ≠ location.toNat := by
        intro heq
        omega
      exact ((hmem r).mp ((hmem' r).mpr ⟨hr, hne⟩)).2 hloc
    · rintro (hlt | hfree)
      · rw [Nat.mod_eq_of_lt hlt] at hret hmem
        exact ⟨hret, hmem⟩
      · have hnone : ∀ r ∈ s.filterList, r.location ≠ location.toNat := by
          intro r hr heq
          have hlt : r.location < 2 ^ 16 := r.swIdx.isLt
          refine hfree r hr ?_
          rw [heq, Nat.mod_eq_of_lt (heq ▸ hlt)]
        refine ⟨hret.trans (iff_of_false ?_ ?_), fun r => (hmem r).trans ?_⟩
        · exact fun ⟨r, hr, hloc⟩ => hfree r hr hloc
        · exact fun ⟨r, hr, hloc⟩ => hnone r hr hloc
        · exact and_congr_right fun hr => iff_of_true (hfree r hr) (hnone r hr)

/-- **The rule list is a sorted finite map**, in every run from no rules, exactly when every delete
has a location that fits. -/
theorem fdir_map_iff_fits (s : FdirState) (hs : s.Empty) (es : List FdirEvent)
    (hquiet : ∀ e ∈ es, e.Quiet) :
    Along fdirStep MapStep s es ↔ Along fdirStep (fun s e => e.Fits s) s es := by
  have hstep : ∀ s (e : FdirEvent), FdirState.Kept s → e.Quiet → e.Fits s → (fdirStep s e).Kept :=
    fun s e h _ _ => h.step e
  exact along_iff_along (fun _ (e : FdirEvent) => e.Quiet) hstep
    (fun s e h hq => mapStep_iff_fits h hq) hs.kept (along_of_forall s es hquiet)

def fdirConfig (running : Bool) : FdirConfig where
  queues := initInterruptScheme probedAdapter
  perfectCapable := true
  pballoc := .kb64
  cloudMode := false
  running := running

def allFine : FdirOutcome := ⟨true, true, true⟩

def tcpFlow (k : U8) (ring : U64) (location : U32) : FlowSpec where
  flowType := .tcpV4
  ext := false
  hU i := if i = 0 then (0x00000a : BitVec 24).setWidth 32 ||| (k.setWidth 32 <<< 24) else 0
  mU i := if i = 0 then 0xffffffff else 0
  hExt := ⟨0, 0, 0⟩
  mExt := ⟨0, 0, 0⟩
  ringCookie := ring
  location := location

def noRules : FdirState := ⟨[], 0, AtrInput.zero, fun _ => none⟩

def aliasRun : List FdirEvent :=
  [⟨fdirConfig false, allFine, .add (tcpFlow 1 0 5)⟩, ⟨fdirConfig false, allFine, .del 65541⟩]

theorem fdir_map_iff_fits_add_replace :
    Along fdirStep MapStep noRules
      [⟨fdirConfig true, allFine, .add (tcpFlow 1 0 5)⟩,
        ⟨fdirConfig true, allFine, .add (tcpFlow 2 1 5)⟩,
        ⟨fdirConfig true, allFine, .del 6⟩, ⟨fdirConfig true, allFine, .del 5⟩] := by
  refine (fdir_map_iff_fits noRules ⟨rfl, rfl⟩ _ ?_).mpr
    ⟨trivial, trivial, .inl (by decide), .inl (by decide), trivial⟩
  unfold FdirEvent.Quiet
  decide

/-- **The delete at 65541 removes the rule at 5**, and reports success. -/
theorem delete_removes_aliased_rule :
    (∀ e ∈ aliasRun, e.Quiet) ∧ ¬ Along fdirStep MapStep noRules aliasRun ∧
      (run fdirStep noRules aliasRun).filterList = [] := by
  have hrule : (fdirStep noRules ⟨fdirConfig false, allFine,
      .add (tcpFlow 1 0 5)⟩).filterList.map FdirFilter.location = [5] := by decide +kernel
  have hnone : (run fdirStep noRules aliasRun).filterList = [] := by decide +kernel
  refine ⟨by unfold FdirEvent.Quiet; decide, ?_, hnone⟩
  · rintro ⟨-, ⟨-, -, hmem⟩, -⟩
    obtain ⟨r, hr, hloc⟩ := mem_map.mp (hrule ▸ mem_singleton_self 5)
    have hr' := (hmem r).mpr ⟨hr, by rw [hloc]; decide⟩
    exact not_mem_nil (hnone ▸ hr')

end Ixgbe
