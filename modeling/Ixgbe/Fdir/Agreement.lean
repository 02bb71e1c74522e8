import Ixgbe.Fdir.SortedMap

/-! # Software and hardware rules

With the interface up, the hardware has the listed rules. An add ignores whether the old filter
could be erased. -/

namespace Ixgbe

open EventRun FdirState FdirFilter

variable {s : FdirState} {e : FdirEvent} {input : Option FdirFilter} {swIdx : U16}
  {r rule : FdirFilter} {k : U16 × U16} {queue : U8}

def FdirState.hwKeys (s : FdirState) : Set (U16 × U16) := {k | (s.hw k).isSome}

def FdirState.ruleKeys (s : FdirState) : Set (U16 × U16) :=
  {k | ∃ rule ∈ s.filterList, rule.key = k}

theorem FdirState.mem_hwKeys_write : k ∈ (s.write r queue).hwKeys ↔ k = r.key ∨ k ∈ s.hwKeys := by
  by_cases hk : k = r.key
  · simp [hwKeys, write, hk]
  · simp [hwKeys, write, hk]

theorem FdirState.mem_hwKeys_erase : k ∈ (s.erase r).hwKeys ↔ k ≠ r.key ∧ k ∈ s.hwKeys := by
  by_cases hk : k = r.key
  · simp [hwKeys, erase, hk]
  · simp [hwKeys, erase, hk]

theorem FdirState.Kept.mem_ruleKeys_store (h : s.Kept) (hi : ∀ i ∈ input, i.swIdx = swIdx) :
    k ∈ (s.store input swIdx).ruleKeys ↔
      (∃ i ∈ input, i.key = k) ∨ k ∈ s.ruleKeys ∧ k.2 ≠ swIdx := by
  constructor
  · rintro ⟨rule, hmem, rfl⟩
    rcases (h.mem_store hi).mp hmem with hmem | ⟨hmem, hne⟩
    · exact .inl ⟨rule, hmem, rfl⟩
    · exact .inr ⟨⟨rule, hmem, rfl⟩, hne⟩
  · rintro (⟨i, hmem, rfl⟩ | ⟨⟨rule, hmem, rfl⟩, hne⟩)
    · exact ⟨i, (h.mem_store hi).mpr (.inl hmem), rfl⟩
    · exact ⟨rule, (h.mem_store hi).mpr (.inr ⟨hmem, hne⟩), rfl⟩

theorem FdirState.Kept.key_eq (h : s.Kept) (hmem : rule ∈ s.filterList) (hk : k ∈ s.ruleKeys)
    (hidx : k.2 = rule.swIdx) : k = rule.key := by
  obtain ⟨rule', hmem', rfl⟩ := hk
  rw [h.sorted.eq_of_key hmem' hmem (congrArg BitVec.toNat hidx)]

theorem FdirUpdateStep.agree {erase : Bool} {res : FdirState × ℤ} (h : s.Kept)
    (hi : ∀ i ∈ input, i.swIdx = swIdx)
    (hagree : ∀ k, k ∈ s.hwKeys ↔ (∃ i ∈ input, i.key = k) ∨ k ∈ s.ruleKeys)
    (hstep : FdirUpdateStep true erase s input swIdx res) :
    res.1.hwKeys = res.1.ruleKeys ∨ res = (s, eInval) ∧ erase = false ∧
      ∃ rule ∈ s.filterList, rule.swIdx = swIdx ∧ Stale true rule input := by
  cases hstep with
  | absent hfree =>
    refine .inl (Set.ext fun k => ?_)
    rw [h.mem_ruleKeys_store hi]
    refine (hagree k).trans (or_congr_right (iff_self_and.mpr ?_))
    rintro ⟨rule, hmem, rfl⟩
    exact hfree rule hmem
  | @kept rule hmem hidx hstale =>
    refine .inl (Set.ext fun k => ?_)
    rw [h.mem_ruleKeys_store hi]
    refine (hagree k).trans ⟨?_, Or.imp_right And.left⟩
    rintro (hin | hk)
    · exact .inl hin
    · by_cases hk2 : k.2 = swIdx
      · -- the input has the key of the old rule
        obtain ⟨i, hmemi, hbkt⟩ : ∃ i ∈ input, rule.filter.bktHash = i.filter.bktHash := by
          by_contra hno
          exact hstale ⟨rfl, fun i hmemi hbkt => hno ⟨i, hmemi, hbkt⟩⟩
        refine .inl ⟨i, hmemi, ?_⟩
        rw [h.key_eq hmem hk (hk2.trans hidx.symm), key, key, hbkt, hidx, hi i hmemi]
      · exact .inr ⟨hk, hk2⟩
  | @erased rule hmem hidx hstale =>
    refine .inl (Set.ext fun k => ?_)
    have hkept : (s.erase rule).Kept := ⟨h.sorted, h.count⟩
    rw [hkept.mem_ruleKeys_store hi]
    refine mem_hwKeys_erase.trans ((and_congr_right fun _ => hagree k).trans ⟨?_, ?_⟩)
    · rintro ⟨hne, hin | hk⟩
      · exact .inl hin
      · -- the old rule's key was the only one of the location
        exact .inr ⟨hk, fun hk2 => hne (h.key_eq hmem hk (hk2.trans hidx.symm))⟩
    · rintro (⟨i, hmemi, rfl⟩ | ⟨hk, hk2⟩)
      · exact ⟨fun heq => hstale.2 i hmemi (congrArg Prod.fst heq).symm, .inl ⟨i, hmemi, rfl⟩⟩
      · exact ⟨fun heq => hk2 (heq ▸ hidx), .inr hk⟩
  | stuck hmem hidx hstale hfail => exact .inr ⟨rfl, hfail, _, hmem, hidx, hstale⟩

structure FdirRun where
  state : FdirState
  ret : ℤ

def FdirRun.step (x : FdirRun) (e : FdirEvent) : FdirRun := ⟨(e.exec x.state).1, (e.exec x.state).2⟩

def FdirRun.Agrees (x : FdirRun) : Prop :=
  x.ret = success → x.state.hwKeys = x.state.ruleKeys

/-- A rule of another hash is replaced, and the erase of the old one fails. -/
def FdirEvent.Leaks (s : FdirState) (e : FdirEvent) : Prop :=
  match e.call with
  | .add fsp => e.outcome.write = true ∧ e.outcome.erase = false ∧
      ∃ input queue, (prepareEntry e.config e.outcome.alloc s fsp).2 = .ok (input, queue) ∧
        ∃ rule ∈ s.filterList, rule.swIdx = input.swIdx ∧
          rule.filter.bktHash ≠ input.filter.bktHash
  | .del _ => False

structure FdirRun.Inv (x : FdirRun) : Prop where
  kept : x.state.Kept
  agree : x.state.hwKeys = x.state.ruleKeys

theorem FdirState.mem_hwKeys_program (hagree : s.hwKeys = s.ruleKeys) (mask : AtrInput) :
    k ∈ (s.program true mask r queue).hwKeys ↔
      (∃ i ∈ some r, i.key = k) ∨ k ∈ (s.program true mask r queue).ruleKeys := by
  refine mem_hwKeys_write.trans (or_congr ?_ (Set.ext_iff.mp hagree k))
  simp [eq_comm]

section

variable {c : FdirConfig} {o : FdirOutcome} {fsp : FlowSpec} {res : FdirState × ℤ}

theorem FdirAddStep.agree (h : s.Kept) (hagree : s.hwKeys = s.ruleKeys) (hrun : c.running = true)
    (hok : ¬ FdirEvent.Leaks s ⟨c, o, .add fsp⟩) (hadd : FdirAddStep c o s fsp res) :
    res.1.hwKeys = res.1.ruleKeys := by
  cases hadd with
  | refused => exact hagree
  | @programmed queue filter mask res _ hprep _ hwrite hstep =>
    rw [hrun] at hstep
    rcases hstep.agree (h.program ..) (swIdx_of_mem _)
      (fun k => mem_hwKeys_program hagree mask) with
      hdone | ⟨-, hfail, rule, hmem, hidx, hstale⟩
    · exact hdone
    · exact absurd ⟨hwrite hrun, hfail, _, queue, hprep, rule, hmem, hidx, hstale.2 _ rfl⟩ hok

theorem FdirAddStep.disagree (h : s.Kept) (hagree : s.hwKeys = s.ruleKeys) (hrun : c.running = true)
    (hbad : FdirEvent.Leaks s ⟨c, o, .add fsp⟩) (hadd : FdirAddStep c o s fsp res) :
    res.2 = success ∧ res.1.hwKeys ≠ res.1.ruleKeys := by
  obtain ⟨hwrite, herase, input, queue, hprep, rule, hmem, hidx, hbkt⟩ := hbad
  cases hadd with
  | refused _ hfail => exact absurd (hfail input queue hprep).2 (by rw [hwrite]; decide)
  | @programmed queue' filter mask res _ hprep' _ _ hstep =>
    obtain ⟨rfl, rfl⟩ : input = fsp.rule filter mask ∧ queue = queue' := by
      have heq := hprep.symm.trans hprep'
      simpa using heq
    rw [hrun] at hstep
    have hkept := h.program true mask (fsp.rule filter mask) queue
    refine ⟨rfl, fun heq => ?_⟩
    have hmem' : rule ∈ (s.program true mask (fsp.rule filter mask) queue).filterList := hmem
    have hstale : Stale true rule (some (fsp.rule filter mask)) :=
      ⟨rfl, fun i hi => Option.mem_some_iff.mp hi ▸ hbkt⟩
    cases hstep with
    | absent hfree => exact hfree rule hmem' hidx
    | kept hm hidx' hnot =>
      rw [hkept.sorted.eq_of_key hm hmem' (congrArg BitVec.toNat (hidx'.trans hidx.symm))] at hnot
      exact hnot hstale
    | erased _ _ _ hok => exact absurd hok (by rw [herase]; decide)
    | stuck =>
      -- the hardware has the key of the input, the list has another one at its location
      have hin : (fsp.rule filter mask).key ∈
          (s.program true mask (fsp.rule filter mask) queue).hwKeys :=
        (mem_hwKeys_program hagree mask).mpr (.inl ⟨_, rfl, rfl⟩)
      have hkey := hkept.key_eq hmem' (heq ▸ hin) hidx.symm
      exact hbkt (congrArg Prod.fst hkey).symm

end

theorem FdirRun.Inv.step {x : FdirRun} (h : x.Inv) (hrun : e.config.running = true)
    (hok : ¬ e.Leaks x.state) : (x.step e).Inv := by
  refine ⟨h.kept.step e, ?_⟩
  obtain ⟨c, o, call⟩ := e
  cases call with
  | add fsp => exact (addEthtoolFdirEntry_step h.kept c o fsp).agree h.kept h.agree hrun hok
  | del location =>
    have hstep := updateEthtoolFdirEntry_step h.kept c.running o.erase none (location.setWidth 16)
    show (updateEthtoolFdirEntry c.running o.erase x.state none (location.setWidth 16)).1.hwKeys =
      (updateEthtoolFdirEntry c.running o.erase x.state none (location.setWidth 16)).1.ruleKeys
    rw [show c.running = true from hrun] at hstep ⊢
    rcases hstep.agree h.kept (swIdx_of_mem_none _) (fun k => by simp [h.agree]) with
      hdone | ⟨hsame, -⟩
    · exact hdone
    · rw [hsame, h.agree]

theorem FdirRun.Inv.not_agrees {x : FdirRun} (h : x.Inv) (hrun : e.config.running = true)
    (hbad : e.Leaks x.state) : ¬ (x.step e).Agrees := by
  obtain ⟨c, o, call⟩ := e
  cases call with
  | add fsp =>
    obtain ⟨hret, hne⟩ :=
      (addEthtoolFdirEntry_step h.kept c o fsp).disagree h.kept h.agree hrun hbad
    exact fun hagree => hne (hagree hret)
  | del location => exact hbad.elim

/-- **Hardware and software agree** after every call that returned 0 exactly when no call leaks a
filter. -/
theorem fdir_agree_iff_no_leak (s : FdirState) (hs : s.Empty) (hhw : ∀ k, s.hw k = none)
    (es : List FdirEvent) (hrun : ∀ e ∈ es, e.config.running = true) :
    After FdirRun.step FdirRun.Agrees ⟨s, success⟩ es ↔
      Along FdirRun.step (fun x e => ¬ e.Leaks x.state) ⟨s, success⟩ es := by
  have hstart : FdirRun.Inv ⟨s, success⟩ := by
    refine ⟨hs.kept, Set.ext fun k => iff_of_false ?_ ?_⟩
    · simp [FdirState.hwKeys, hhw k]
    · simp [FdirState.ruleKeys, hs.1]
  have hstep : ∀ (x : FdirRun) (e : FdirEvent), x.Inv → e.config.running = true →
      ¬ e.Leaks x.state → (x.step e).Inv := fun x e h hr hok => h.step hr hok
  exact after_iff_along (fun _ e => e.config.running = true) hstep (fun x h _ => h.agree)
    (fun x e h hr hbad => h.not_agrees hr (not_not.mp hbad)) hstart (along_of_forall _ es hrun)

theorem fdir_agree_iff_no_leak_replace :
    After FdirRun.step FdirRun.Agrees ⟨noRules, success⟩
      [⟨fdirConfig true, allFine, .add (tcpFlow 1 0 5)⟩,
        ⟨fdirConfig true, allFine, .add (tcpFlow 2 1 5)⟩,
        ⟨fdirConfig true, ⟨true, true, false⟩, .del 5⟩] := by
  exact (fdir_agree_iff_no_leak noRules ⟨rfl, rfl⟩ (fun _ => rfl) _ (by decide)).mpr
    ⟨fun h => absurd h.2.1 (by decide), fun h => absurd h.2.1 (by decide), not_false, trivial⟩

def leakRun : List FdirEvent :=
  [⟨fdirConfig true, allFine, .add (tcpFlow 1 0 5)⟩,
    ⟨fdirConfig true, ⟨true, true, false⟩, .add (tcpFlow 2 1 5)⟩]

/-- The hardware has both filters and the list the old rule. -/
theorem replaced_filter_leaks :
    (∀ e ∈ leakRun, e.config.running = true) ∧
      ¬ After FdirRun.step FdirRun.Agrees ⟨noRules, success⟩ leakRun := by
  have hret : (run FdirRun.step ⟨noRules, success⟩ leakRun).ret = success := by decide +kernel
  have hhw : ((run FdirRun.step ⟨noRules, success⟩ leakRun).state.hw (926, 5)).isSome = true := by
    decide +kernel
  have hlist : (run FdirRun.step ⟨noRules, success⟩ leakRun).state.filterList.map key =
      [(4461, 5)] := by decide +kernel
  refine ⟨by decide, ?_⟩
  rintro ⟨-, hagree, -⟩
  obtain ⟨rule, hmem, hkey⟩ := (Set.ext_iff.mp (hagree hret) (926, 5)).mp hhw
  have hin : rule.key ∈ [((4461, 5) : U16 × U16)] := hlist ▸ List.mem_map_of_mem hmem
  rw [hkey] at hin
  exact absurd hin (by decide)

end Ixgbe
