import Ixgbe.Dcb.Netlink

/-! # The indices of DCB netlink requests

Three calls store a byte that is later an index: `setnumtcs`, the two `set_pg_tc_cfg` and
`ieee_setets`. **`Dcb.Bounded`**: all that is stored is in range. -/

namespace Ixgbe

open EventRun Traced Function List Bool

instance decInRange : DecidablePred DcbUse.InRange
  | .tcConfig i | .bwPercentage i | .waterMark i | .fcrt i => inferInstanceAs (Decidable (i < 8))
  | .numTc n => inferInstanceAs (Decidable (n ≤ 8))

structure DcbConfig.Bounded (c : DcbConfig) : Prop where
  pgTcs_le : c.pgTcs.toNat ≤ 8
  bwgId_lt : ∀ i < 8, ∀ dir, ((c.tcConfig i).path dir).bwgId.toNat < 8

def IeeeEts.Bounded (ets : IeeeEts) : Prop := ∀ up < 8, (ets.prioTc up).toNat < 8

/-- **All that is stored is in range.** -/
structure Dcb.Bounded (s : Dcb) : Prop where
  dcbCfg : s.dcbCfg.Bounded
  tempDcbCfg : s.tempDcbCfg.Bounded
  ieeeEts : ∀ ets, s.ieeeEts = some ets → ets.Bounded
  numTc_le : s.numTc ≤ 8

abbrev InRangeSat {α : Type} (Q : α → Prop) (x : Traced DcbUse α) : Prop := Sat DcbUse.InRange Q x

section Reads

variable {cfg : DcbConfig} {dir : DcbDir} {up : ℕ} {map : ℕ → ℕ}

theorem sat_tcFromUp : ∀ {tc : ℕ}, tc < 8 → InRangeSat (· < 8) (tcFromUp cfg dir up tc)
  | 0, _ => sat_pure (by decide)
  | tc + 1, h =>
    sat_bind (sat_emit h) fun _ _ =>
      sat_ite (fun _ => sat_pure h) fun _ => sat_tcFromUp (Nat.lt_of_succ_lt h)

theorem sat_dcbGetTcFromUp (h : cfg.Bounded) : InRangeSat (· < 8) (dcbGetTcFromUp cfg dir up) := by
  have hle := h.pgTcs_le
  exact sat_ite (fun _ => sat_pure (by decide)) fun _ => sat_tcFromUp (by omega)

theorem sat_dcbUnpackMapCee (h : cfg.Bounded) :
    InRangeSat (fun map => ∀ up, map up < 8) (dcbUnpackMapCee cfg dir) :=
  sat_table fun _ => sat_dcbGetTcFromUp h

theorem sat_dcbUnpackPfcCee (h : ∀ up, map up < 8) :
    InRangeSat (fun _ => True) (dcbUnpackPfcCee cfg map) :=
  (sat_table fun up => sat_bind (sat_emit (h up)) fun _ _ =>
    sat_pure (Q := fun _ => True) trivial).mono fun _ _ => trivial

theorem linkPercentageReads_inRange (h : cfg.Bounded) :
    ∀ u ∈ linkPercentageReads cfg dir, u.InRange := by
  intro u hu
  obtain ⟨i, hi, hmem⟩ := mem_flatMap.mp hu
  have hlt : i < 8 := mem_range.mp hi
  rcases mem_cons.mp hmem with rfl | hmem
  · exact hlt
  · rw [mem_singleton.mp hmem]
    exact h.bwgId_lt i hlt dir

theorem bwgId_creditsOfTc (c m : ℕ) (i : ℕ) (d : DcbDir) :
    ((creditsOfTc cfg c m dir i).path d).bwgId = ((cfg.tcConfig i).path d).bwgId := by
  unfold creditsOfTc
  dsimp only
  by_cases hd : d = dir
  · subst hd
    rw [update_self]
  · rw [update_of_ne hd]

theorem sat_dcbCalculateTcCreditsCee (h : cfg.Bounded) (maxFrame : ℕ) :
    InRangeSat DcbConfig.Bounded (dcbCalculateTcCreditsCee cfg maxFrame dir) := by
  refine sat_bind (sat_emits (linkPercentageReads_inRange h)) fun _ _ =>
    sat_bind (sat_emits (linkPercentageReads_inRange h)) fun _ _ => sat_pure ⟨h.pgTcs_le, ?_⟩
  intro i hi d
  dsimp only
  rw [if_pos hi, bwgId_creditsOfTc]
  exact h.bwgId_lt i hi d

theorem le_foldl_max (map : ℕ → ℕ) (is : List ℕ) (m : ℕ) :
    m ≤ is.foldl (fun m i => if map i > m then map i else m) m ∧
      ∀ i ∈ is, map i ≤ is.foldl (fun m i => if map i > m then map i else m) m := by
  induction is generalizing m with
  | nil => exact ⟨le_rfl, fun _ hi => absurd hi not_mem_nil⟩
  | cons j is ih =>
    obtain ⟨hm, his⟩ := ih (if map j > m then map j else m)
    have hj : m ≤ (if map j > m then map j else m) ∧ map j ≤ (if map j > m then map j else m) := by
      split <;> omega
    refine ⟨hj.1.trans hm, fun i hi => ?_⟩
    rcases mem_cons.mp hi with rfl | hi
    · exact hj.2.trans hm
    · exact his i hi

variable {n : ℕ} {pfcEn : ℕ → Bool}

theorem foldl_max_lt (is : List ℕ) (his : ∀ i ∈ is, map i < n) {m : ℕ} (hm : m < n) :
    is.foldl (fun m i => if map i > m then map i else m) m < n := by
  induction is generalizing m with
  | nil => exact hm
  | cons j is ih =>
    refine ih (fun i hi => his i (mem_cons_of_mem _ hi)) ?_
    have hj := his j (mem_cons_self ..)
    beta_reduce
    split <;> assumption

theorem le_maxTcOf (map : ℕ → ℕ) (hup : up < 8) : map up ≤ maxTcOf map :=
  (le_foldl_max map (List.range 8) 0).2 up (mem_range.mpr hup)

theorem maxTcOf_lt (h : ∀ up < 8, map up < 8) : maxTcOf map < 8 :=
  foldl_max_lt (List.range 8) (fun i hi => h i (mem_range.mp hi)) (by decide)

theorem inRange_map_range (f : ℕ → DcbUse) (hf : ∀ i < 8, (f i).InRange) {is : List ℕ}
    (his : is.Sublist (List.range n)) (hn : n ≤ 8) : ∀ u ∈ is.map f, u.InRange := by
  intro u hu
  obtain ⟨i, hi, rfl⟩ := mem_map.mp hu
  exact hf i ((mem_range.mp (his.subset hi)).trans_le hn)

theorem sat_emits_range (f : ℕ → DcbUse) (hf : ∀ i < 8, (f i).InRange) :
    InRangeSat (fun _ => True) (emits ((List.range 8).map f)) :=
  sat_emits (inRange_map_range f hf (List.Sublist.refl _) le_rfl)

theorem sat_dcbConfigPfc82599 (h : ∀ up < 8, map up < 8) :
    InRangeSat (fun _ => True) (dcbConfigPfc82599 pfcEn map) := by
  have hmax := maxTcOf_lt h
  refine sat_bind (sat_emits fun u hu => ?_) fun _ _ => sat_bind (sat_emits ?_) fun _ _ =>
    sat_pure trivial
  · obtain ⟨i, hi, hmem⟩ := mem_flatMap.mp hu
    have hlt : i < 8 := by
      have := mem_range.mp hi
      omega
    split at hmem
    · rcases mem_cons.mp hmem with rfl | hmem
      · exact hlt
      · rw [mem_singleton.mp hmem]
        exact hlt
    · rw [mem_singleton.mp hmem]
      exact hlt
  · exact inRange_map_range .fcrt (fun _ hi => hi) (drop_sublist ..) le_rfl

theorem mem_dcbConfigPfc82599 {i : ℕ} (hi : i ≤ maxTcOf map) :
    .fcrt i ∈ (dcbConfigPfc82599 pfcEn map).trace := by
  refine mem_append_left _ (mem_flatMap.mpr ⟨i, mem_range.mpr (by omega), ?_⟩)
  split
  · exact mem_cons_of_mem _ (mem_singleton.mpr rfl)
  · exact mem_singleton.mpr rfl

theorem sat_dcbConfigPfc {mac : MacType} (h : ∀ up < 8, map up < 8) :
    InRangeSat (fun _ => True) (dcbConfigPfc mac pfcEn map) :=
  sat_ite (fun _ => sat_pure trivial) fun _ => sat_dcbConfigPfc82599 h

theorem sat_dcbHwConfigCee {mac : MacType} (h : cfg.Bounded) :
    InRangeSat (fun _ => True) (dcbHwConfigCee mac cfg) := by
  refine sat_bind (sat_emits fun u hu => ?_) fun _ _ =>
    sat_bind (sat_dcbUnpackMapCee h) fun map hmap =>
      sat_ite (fun _ => sat_pure trivial) fun _ =>
        sat_ite (fun _ => sat_bind (sat_dcbUnpackPfcCee hmap) fun _ _ =>
          sat_dcbConfigPfc fun up _ => hmap up) fun _ => sat_pure trivial
  obtain ⟨_, _, hmem⟩ := mem_flatMap.mp hu
  exact inRange_map_range .tcConfig (fun _ hi => hi) (List.Sublist.refl _) le_rfl u hmem

theorem sat_fcEnable (ret : ℤ) : InRangeSat (fun _ => True) (fcEnable ret) :=
  sat_bind (sat_emits_range .waterMark fun _ hi => hi) fun _ _ =>
    sat_bind (sat_emits_range .fcrt fun _ hi => hi) fun _ _ => sat_pure trivial

theorem sat_pbthreshSetup (h : n ≤ 8) : InRangeSat (fun _ => True) (pbthreshSetup n) := by
  have hle : (if n = 0 then 1 else n) ≤ 8 := by split <;> omega
  exact sat_bind (sat_emits (inRange_map_range .waterMark (fun _ hi => hi)
    (List.Sublist.refl _) hle))
    fun _ _ => sat_emits (inRange_map_range .waterMark (fun _ hi => hi)
      (drop_sublist ..) le_rfl)

end Reads

section Calls

variable {h : DcbHost} {env : DcbEnv} {s : Dcb}

section

variable (hs : s.Bounded)

include hs

theorem Dcb.Bounded.initInterruptScheme (env : DcbEnv) : (s.initInterruptScheme env).Bounded := by
  unfold Dcb.initInterruptScheme
  split
  · exact hs
  · by_cases hn : s.numTc > 1
    · simp only [if_pos hn]
      exact ⟨⟨show (1 : U8).toNat ≤ 8 by decide, hs.dcbCfg.bwgId_lt⟩, { hs.tempDcbCfg with },
        hs.ieeeEts, Nat.zero_le 8⟩
    · simp only [if_neg hn]
      exact { hs with dcbCfg := ⟨show (1 : U8).toNat ≤ 8 by decide, hs.dcbCfg.bwgId_lt⟩ }

theorem Dcb.Bounded.withCfg {cfg : DcbConfig} (hcfg : cfg.Bounded) :
    Dcb.Bounded { s with dcbCfg := cfg } :=
  { hs with dcbCfg := hcfg }

theorem sat_applyPg : InRangeSat Dcb.Bounded (s.applyPg h env) :=
  sat_bind (sat_dcbCalculateTcCreditsCee hs.dcbCfg _) fun _ hcfg =>
    sat_bind (sat_dcbCalculateTcCreditsCee hcfg _) fun _ hcfg =>
      sat_bind (sat_dcbHwConfigCee hcfg) fun _ _ => sat_pure (hs.withCfg hcfg)

theorem sat_configureDcb : InRangeSat Dcb.Bounded (s.configureDcb h env) := by
  refine sat_ite (fun _ => sat_pure hs) fun _ => sat_ite (fun _ => ?_) fun _ => sat_applyPg hs
  cases hpfc : s.ieeePfc with
  | none => exact sat_pure hs
  | some pfcEn =>
    cases hets : s.ieeeEts with
    | none => exact sat_pure hs
    | some ets => exact sat_bind (sat_dcbConfigPfc (hs.ieeeEts ets hets)) fun _ _ => sat_pure hs

theorem sat_restart : InRangeSat Dcb.Bounded (s.restart h env) := by
  have hs' := hs.initInterruptScheme env
  exact sat_ite (fun _ => sat_bind (sat_pbthreshSetup hs'.numTc_le) fun _ _ => sat_configureDcb hs')
    fun _ => sat_pure hs'

theorem sat_setNumTc {n : ℕ} (hn : n ≤ 8) : InRangeSat Dcb.Bounded (s.setNumTc h n) :=
  sat_ite (fun _ => sat_pure hs) fun _ => sat_bind (sat_emit hn) fun _ _ =>
    sat_pure { hs with numTc_le := hn }

theorem sat_setPrioTcMap : InRangeSat (fun _ => True) s.setPrioTcMap :=
  sat_ite (fun _ => sat_bind (sat_dcbUnpackMapCee hs.dcbCfg) fun _ _ => sat_pure trivial)
    fun _ => sat_pure trivial

theorem sat_setupTc (tc : ℕ) : InRangeSat (fun r => r.2.Bounded) (s.setupTc h env tc) := by
  refine sat_ite (fun _ => sat_pure hs) fun hle => sat_ite (fun _ => ?_) fun _ => ?_
  · refine sat_ite (fun _ => sat_bind (sat_restart hs) fun _ hs' => sat_pure hs') fun _ => ?_
    have htc : tc ≤ 8 := (not_lt.mp hle).trans hs.dcbCfg.pgTcs_le
    refine sat_bind (sat_setNumTc hs htc) fun t ht => sat_bind (sat_setPrioTcMap ht) fun _ _ => ?_
    have ht' : Dcb.Bounded { t with dcbEnabled := true } := { ht with }
    exact sat_bind (sat_restart ht') fun _ hs' => sat_pure hs'
  · exact sat_bind (sat_restart ⟨{ hs.dcbCfg with }, { hs.tempDcbCfg with }, hs.ieeeEts,
      Nat.zero_le 8⟩) fun _ hs' => sat_pure hs'

end

theorem sat_stateOf {α : Type} {x : Traced DcbUse (α × Dcb)}
    (hx : InRangeSat (fun r => r.2.Bounded) x) : InRangeSat Dcb.Bounded (stateOf x) :=
  sat_bind hx fun _ hr => sat_pure hr

theorem sat_setState (hs : s.Bounded) (state : U8) :
    InRangeSat (fun r => r.2.Bounded) (s.setState h env state) :=
  sat_ite (fun _ => sat_pure hs) fun _ => sat_ite (fun _ => sat_pure hs) fun _ =>
    sat_bind (sat_setupTc hs _) fun _ hr => sat_pure hr

theorem toNat_unlessUndefined_lt {new old : U8} (hnew : new = 0xff ∨ new.toNat < 8)
    (hold : old.toNat < 8) : (unlessUndefined new old).toNat < 8 := by
  unfold unlessUndefined
  split
  · exact hold
  case isFalse hff =>
    exact hnew.resolve_left hff

section

variable (hs : s.Bounded)

include hs

theorem Dcb.Bounded.withTempTc {tc : ℕ} {c : DcbTcConfig} {b : Bool}
    (hc : tc < 8 → ∀ dir, (c.path dir).bwgId.toNat < 8) :
    Dcb.Bounded { s with tempDcbCfg :=
      { s.tempDcbCfg with
        tcConfig := update s.tempDcbCfg.tcConfig tc c
        pfcModeEnable := b } } := by
  refine ⟨hs.dcbCfg, ⟨hs.tempDcbCfg.pgTcs_le, ?_⟩, hs.ieeeEts, hs.numTc_le⟩
  exact (forall_update_iff s.tempDcbCfg.tcConfig fun i c =>
    i < 8 → ∀ dir, (c.path dir).bwgId.toNat < 8).mpr ⟨hc, fun i _ => hs.tempDcbCfg.bwgId_lt i⟩

theorem sat_setPgTcCfg {dir : DcbDir} {tc : ℤ} {prio bwgId bwPct upMap : U8}
    (hok : 0 ≤ tc → tc < 8 → bwgId = 0xff ∨ bwgId.toNat < 8) :
    InRangeSat Dcb.Bounded (s.setPgTcCfg dir tc prio bwgId bwPct upMap) := by
  refine sat_ite (fun _ => sat_pure hs) fun hrange => ?_
  have hlt : tc.toNat < 8 := by omega
  have hold := hs.tempDcbCfg.bwgId_lt _ hlt
  refine sat_bind (sat_emit hlt) fun _ _ => sat_pure (hs.withTempTc fun _ => ?_)
  refine (forall_update_iff _ fun _ (p : DcbTcPath) => p.bwgId.toNat < 8).mpr
    ⟨?_, fun d _ => hold d⟩
  exact toNat_unlessUndefined_lt (hok (by omega) (by omega)) (hold dir)

theorem sat_setPgBwgCfg {dir : DcbDir} {bwgId : ℤ} {bwPct : U8} :
    InRangeSat Dcb.Bounded (s.setPgBwgCfg dir bwgId bwPct) := by
  refine sat_ite (fun _ => sat_pure hs) fun hrange => ?_
  have hlt : bwgId.toNat < 8 := by omega
  exact sat_bind (sat_emit hlt) fun _ _ => sat_pure
    { hs with tempDcbCfg := { hs.tempDcbCfg with } }

theorem sat_setPfcCfg {up : ℕ} {pfc : U8} : InRangeSat Dcb.Bounded (s.setPfcCfg up pfc) :=
  sat_bind (sat_dcbGetTcFromUp hs.tempDcbCfg) fun tc htc => sat_bind (sat_emit htc) fun _ _ =>
    sat_pure (hs.withTempTc fun _ dir => hs.tempDcbCfg.bwgId_lt tc htc dir)

theorem sat_getPfcCfg {up : ℕ} : InRangeSat (fun _ => True) (s.getPfcCfg up) :=
  sat_bind (sat_dcbGetTcFromUp hs.dcbCfg) fun _ htc => sat_bind (sat_emit htc) fun _ _ =>
    sat_pure trivial

theorem Dcb.Bounded.setnumtcs {tcid : NumTcsAttr} {num : U8}
    (hok : tcid = .pg → s.dcbEnabled = true → num.toNat ≤ 8) :
    (s.setnumtcs tcid num).2.Bounded := by
  unfold Dcb.setnumtcs
  split
  case isTrue hd =>
    cases tcid with
    | pg => exact hs.withCfg ⟨hok rfl hd, hs.dcbCfg.bwgId_lt⟩
    | pfc => exact hs.withCfg { hs.dcbCfg with }
    | other => exact hs
  · exact hs

theorem sat_copyDcbCfg : InRangeSat (fun r => r.2.Bounded) (s.copyDcbCfg h env) := by
  refine sat_bind (sat_emits_range .tcConfig fun _ hi => hi) fun _ _ =>
    sat_bind (sat_emits_range .bwPercentage fun _ hi => hi) fun _ _ =>
      sat_bind (sat_emits_range .tcConfig fun _ hi => hi) fun _ _ =>
        sat_pure (hs.withCfg ⟨hs.dcbCfg.pgTcs_le, fun i hi dir => ?_⟩)
  dsimp only
  rw [if_pos hi]
  exact hs.tempDcbCfg.bwgId_lt i hi dir

end

theorem sat_applyPfc {prioTc : ℕ → ℕ} (hprio : ∀ up, prioTc up < 8) :
    InRangeSat (fun _ => True) (s.applyPfc h env prioTc) :=
  sat_ite (fun _ => sat_bind (sat_dcbUnpackPfcCee hprio) fun _ _ =>
    sat_dcbConfigPfc fun up _ => hprio up) fun _ => sat_fcEnable _

theorem Dcb.Bounded.withBitmap (hs : s.Bounded) (b : DcbSetBitmap) :
    Dcb.Bounded { s with dcbSetBitmap := b } := { hs with }

theorem sat_setAllPg (hs : s.Bounded) (b : DcbSetBitmap) :
    InRangeSat (fun r => r.2.Bounded) (s.setAllPg h env b) :=
  sat_ite (fun _ => sat_bind (sat_applyPg hs) fun _ ht => sat_pure ht) fun _ => sat_pure hs

theorem sat_setAllPfc {prioTc : ℕ → ℕ} (hprio : ∀ up, prioTc up < 8) (b : DcbSetBitmap)
    (ret : DcbHwChg) : InRangeSat (fun _ => True) (s.setAllPfc h env b prioTc ret) :=
  sat_ite (fun _ => sat_bind (sat_applyPfc hprio) fun _ _ => sat_pure trivial) fun _ =>
    sat_pure trivial

theorem sat_setAllApp (hs : s.Bounded) (b : DcbSetBitmap) (ret : DcbHwChg) :
    InRangeSat (fun r => r.2.Bounded) (s.setAllApp h env b ret) :=
  sat_ite (fun _ => sat_bind (sat_restart hs) fun _ ht => sat_pure ht) fun _ => sat_pure hs

theorem sat_setAll (hs : s.Bounded) : InRangeSat (fun r => r.2.Bounded) (s.setAll h env) :=
  sat_ite (fun _ => sat_pure hs) fun _ => sat_bind (sat_copyDcbCfg hs) fun _ hr =>
    sat_ite (fun _ => sat_pure hr) fun _ =>
      sat_bind (sat_dcbUnpackMapCee hr.dcbCfg) fun _ hprio =>
        sat_bind (sat_setAllPg hr _) fun _ ht =>
          sat_bind (sat_setAllPfc hprio _ _) fun _ _ =>
            sat_bind (sat_setAllApp ht _ _) fun _ hu =>
              sat_pure { hu with }

theorem sat_applyEts (hs : s.Bounded) (maxTc : ℕ) (mapChg : Bool) :
    InRangeSat (fun r => r.2.Bounded) (s.applyEts h env maxTc mapChg) :=
  sat_ite (fun _ => sat_setupTc hs _) fun _ =>
    sat_ite (fun _ => sat_bind (sat_restart hs) fun _ ht => sat_pure ht) fun _ => sat_pure hs

theorem sat_ieeeSetets (hs : s.Bounded) {ets : IeeeEts}
    (hok : dcbxVerIeee s.dcbxCap = true → (s.ieeeEts.isSome ∨ env.allocEts = true) → ets.Bounded) :
    InRangeSat (fun r => r.2.Bounded) (s.ieeeSetets h env ets) := by
  refine sat_ite (fun _ => sat_pure hs) fun hieee => sat_ite (fun _ => sat_pure hs) fun halloc => ?_
  have hets : ets.Bounded := by
    refine hok (not_eq_false _ ▸ hieee) ?_
    cases hsome : s.ieeeEts with
    | none =>
      rw [hsome] at halloc
      exact Or.inr (eq_true_of_not_eq_false fun hf => halloc ⟨rfl, hf⟩)
    | some e => exact Or.inl rfl
  have hs' : Dcb.Bounded { s with ieeeEts := some ets } :=
    { hs with ieeeEts := fun e he => Option.some.inj he ▸ hets }
  exact sat_ite (fun _ => sat_pure hs') fun _ => sat_bind (sat_applyEts hs' _ _) fun _ hr =>
    sat_pure hr

theorem sat_ieeeSetpfc (hs : s.Bounded) {pfcEn : U8} :
    InRangeSat (fun r => r.2.Bounded) (s.ieeeSetpfc h env pfcEn) := by
  refine sat_ite (fun _ => sat_pure hs) fun _ => sat_ite (fun _ => sat_pure hs) fun _ => ?_
  have hs' : Dcb.Bounded { s with ieeePfc := some pfcEn } := { hs with }
  refine sat_ite (fun _ => ?_) fun _ => sat_bind (sat_fcEnable _) fun _ _ => sat_pure hs'
  cases hets : s.ieeeEts with
  | none => exact sat_pure { hs with ieeeEts := fun _ he => (nomatch he) }
  | some ets =>
    exact sat_bind (sat_dcbConfigPfc (hs.ieeeEts ets hets)) fun _ _ =>
      sat_pure { hs with ieeeEts := fun e he => hs.ieeeEts e (hets.trans he) }

theorem IeeeEts.zero_bounded : IeeeEts.zero.Bounded := fun _ _ => show (0 : U8).toNat < 8 by decide

theorem sat_setdcbx (hs : s.Bounded) {mode : U8} :
    InRangeSat (fun r => r.2.Bounded) (s.setdcbx h env mode) := by
  have hs' : Dcb.Bounded { s with dcbxCap := mode } := { hs with }
  have hets {t : Dcb} (ht : t.Bounded) :
      InRangeSat (fun r => r.2.Bounded) (t.ieeeSetets h env IeeeEts.zero) :=
    sat_ieeeSetets ht fun _ _ => IeeeEts.zero_bounded
  refine sat_ite (fun _ => sat_pure hs) fun _ => sat_ite (fun _ => sat_pure hs) fun _ =>
    sat_ite (fun _ => ?_) fun _ => sat_ite (fun _ => ?_) fun _ => ?_
  · exact sat_bind (hets hs') fun _ ht => sat_bind (sat_ieeeSetpfc ht) fun _ hu => sat_pure hu
  · exact sat_bind (sat_setAll (hs'.withBitmap _)) fun _ ht => sat_pure ht
  · exact sat_bind (hets hs') fun _ ht => sat_bind (sat_ieeeSetpfc ht) fun _ hu =>
      sat_bind (sat_setupTc hu _) fun _ hv => sat_pure hv

def DcbCall.Ok (env : DcbEnv) (s : Dcb) : DcbCall → Prop
  | .setPgTcCfgTx tc _ bwgId _ _ => 0 ≤ tc → tc < 8 → bwgId = 0xff ∨ bwgId.toNat < 8
  | .setPgTcCfgRx tc _ bwgId _ _ => 0 ≤ tc → tc < 8 → bwgId = 0xff ∨ bwgId.toNat < 8
  | .setnumtcs tcid num => tcid = .pg → s.dcbEnabled = true → num.toNat ≤ 8
  | .ieeeSetets ets =>
    dcbxVerIeee s.dcbxCap = true → (s.ieeeEts.isSome ∨ env.allocEts = true) → ets.Bounded
  | _ => True

theorem DcbCall.Ok.sat {c : DcbCall} (hok : c.Ok env s) (hs : s.Bounded) :
    InRangeSat Dcb.Bounded (c.run h env s) := by
  cases c with
  | setState state => exact sat_stateOf (sat_setState hs state)
  | setPgTcCfgTx tc prio bwgId bwPct upMap => exact sat_setPgTcCfg hs hok
  | setPgTcCfgRx tc prio bwgId bwPct upMap => exact sat_setPgTcCfg hs hok
  | setPgBwgCfgTx bwgId bwPct => exact sat_setPgBwgCfg hs
  | setPgBwgCfgRx bwgId bwPct => exact sat_setPgBwgCfg hs
  | setPfcCfg up pfc => exact sat_setPfcCfg hs
  | getPfcCfg up => exact sat_bind (sat_getPfcCfg hs) fun _ _ => sat_pure hs
  | setnumtcs tcid num => exact sat_pure (hs.setnumtcs hok)
  | setAll => exact sat_stateOf (sat_setAll hs)
  | ieeeSetets ets => exact sat_stateOf (sat_ieeeSetets hs hok)
  | ieeeSetpfc pfcEn => exact sat_stateOf (sat_ieeeSetpfc hs)
  | setdcbx mode => exact sat_stateOf (sat_setdcbx hs)

end Calls

def DcbEvent.InRange (h : DcbHost) (s : Dcb) (e : DcbEvent) : Prop :=
  ∀ u ∈ (e.call.run h e.env s).trace, u.InRange

def DcbEvent.Ok (s : Dcb) (e : DcbEvent) : Prop := e.call.Ok e.env s

/-- Whatever calls follow that meet the condition, their indices are in range. -/
def Dcb.Safe (h : DcbHost) (s : Dcb) : Prop :=
  ∀ es, Along (dcbStep h) (fun s e => e.Ok s) s es →
    Along (dcbStep h) (fun s e => e.InRange h s) s es

section Unsafe

variable {h : DcbHost} {env : DcbEnv} {s : Dcb}

theorem Dcb.Bounded.safe (hs : s.Bounded) : s.Safe h := by
  intro es hok
  exact along_of_inv (fun t e (ht : t.Bounded) (he : e.Ok t) => (DcbCall.Ok.sat he ht).2)
    (fun t e ht he => (DcbCall.Ok.sat he ht).1) hs hok

theorem not_safe_of_not_inRange {e : DcbEvent} (hok : e.Ok s) (hbad : ¬ e.InRange h s) :
    ¬ s.Safe h :=
  fun hsafe => hbad (hsafe [e] ⟨hok, trivial⟩).1

def quietEnv : DcbEnv :=
  { reopens := false
    msix := true
    allocEts := true
    allocPfc := true
    rtrup2tc := fun _ => 0
    fcoeUpChanged := false
    maxFrame := 1522
    xdpProg := false
    fcRet := 0 }

theorem not_safe_of_pgTcs (hpg : 8 < s.dcbCfg.pgTcs.toNat) : ¬ s.Safe h := by
  refine not_safe_of_not_inRange (e := ⟨.getPfcCfg 0, quietEnv⟩) trivial fun hin => ?_
  obtain ⟨tc, htc⟩ : ∃ tc, s.dcbCfg.pgTcs.toNat - 1 = tc + 1 := ⟨s.dcbCfg.pgTcs.toNat - 2, by omega⟩
  have hne : s.dcbCfg.pgTcs ≠ 0 := by
    intro h0
    rw [h0] at hpg
    exact absurd hpg (by decide)
  have hmem : .tcConfig (tc + 1) ∈ (dcbGetTcFromUp s.dcbCfg .tx 0).trace := by
    unfold dcbGetTcFromUp
    rw [if_neg hne, htc]
    exact mem_bind_left _ (mem_singleton.mpr rfl)
  have hlt : tc + 1 < 8 := hin _ (mem_bind_left _ (mem_bind_left _ hmem))
  omega

theorem not_safe_of_ieeeEts (hmac : h.mac ≠ .macE610) (hieee : dcbxVerIeee s.dcbxCap = true)
    {ets : IeeeEts} (hets : s.ieeeEts = some ets) (hbad : ¬ ets.Bounded) : ¬ s.Safe h := by
  obtain ⟨up, hup, hge⟩ : ∃ up, up < 8 ∧ 8 ≤ (ets.prioTc up).toNat := by
    unfold IeeeEts.Bounded at hbad
    push Not at hbad
    exact hbad
  refine not_safe_of_not_inRange (e := ⟨.ieeeSetpfc 1, quietEnv⟩) trivial fun hin => ?_
  have hmem : .fcrt 8 ∈ (s.ieeeSetpfc h quietEnv 1).trace := by
    unfold Dcb.ieeeSetpfc
    rw [if_neg (by rw [hieee]; decide), if_neg (fun hc => absurd hc.2 (by decide)),
      if_pos (by decide)]
    simp only [hets]
    refine mem_bind_left _ ?_
    unfold dcbConfigPfc
    rw [if_neg hmac]
    exact mem_dcbConfigPfc82599 (hge.trans (le_maxTcOf (fun up => (ets.prioTc up).toNat) hup))
  exact absurd (hin _ (mem_bind_left _ hmem)) (by decide)

variable {i : ℕ} {dir : DcbDir}

theorem bwgId_copyDcbCfg (hi : i < 8) (dir : DcbDir) :
    (((s.copyDcbCfg h env).val.2.dcbCfg.tcConfig i).path dir).bwgId =
      ((s.tempDcbCfg.tcConfig i).path dir).bwgId := by
  change ((if i < 8 then _ else _ : DcbTcConfig).path dir).bwgId = _
  rw [if_pos hi]
  rfl

theorem mem_linkPercentageReads {cfg : DcbConfig} (hi : i < 8) :
    .bwPercentage ((cfg.tcConfig i).path dir).bwgId.toNat ∈ linkPercentageReads cfg dir :=
  mem_flatMap.mpr ⟨i, mem_range.mpr hi,
    mem_cons_of_mem _ (mem_singleton.mpr rfl)⟩

theorem bwgId_dcbCalculateTcCreditsCee (cfg : DcbConfig) (maxFrame i : ℕ) (dir d : DcbDir) :
    (((dcbCalculateTcCreditsCee cfg maxFrame dir).val.tcConfig i).path d).bwgId =
      ((cfg.tcConfig i).path d).bwgId := by
  change ((if i < 8 then _ else _ : DcbTcConfig).path d).bwgId = _
  by_cases hi : i < 8
  · rw [if_pos hi, bwgId_creditsOfTc]
  · rw [if_neg hi]

theorem mem_applyPg (hi : i < 8) (dir : DcbDir) :
    .bwPercentage ((s.dcbCfg.tcConfig i).path dir).bwgId.toNat ∈ (s.applyPg h env).trace := by
  cases dir with
  | tx => exact mem_bind_left _ (mem_bind_left _ (mem_linkPercentageReads hi))
  | rx =>
    refine mem_bind_right (mem_bind_left _ (mem_bind_left _ ?_))
    exact mem_linkPercentageReads hi

theorem pgDiffers_of_bwgId {src dst : DcbConfig} (hi : i < 8)
    (hne : ((dst.tcConfig i).path dir).bwgId ≠ ((src.tcConfig i).path dir).bwgId) :
    pgDiffers src dst dir = true := by
  have hbwg : pathDiffers src dst dir DcbTcPath.bwgId = true :=
    any_eq_true.mpr ⟨i, mem_range.mpr hi, bne_iff_ne.mpr hne⟩
  unfold pgDiffers
  rw [hbwg, Bool.or_true, Bool.true_or, Bool.true_or, Bool.true_or]

def DcbSetBitmap.pg (b : DcbSetBitmap) : DcbDir → Bool
  | .tx => b.pgTx
  | .rx => b.pgRx

theorem mem_setAll (hcee : dcbxVerCee s.dcbxCap = true) (hi : i < 8)
    (hpg : (s.dcbSetBitmap.or (s.copyDcbCfg h env).val.1).pg dir = true) :
    .bwPercentage ((s.tempDcbCfg.tcConfig i).path dir).bwgId.toNat ∈ (s.setAll h env).trace := by
  have hne : s.dcbSetBitmap.or (s.copyDcbCfg h env).val.1 ≠ .clear := by
    intro hc
    rw [hc] at hpg
    cases dir <;> exact absurd hpg (by decide)
  have hor : ((s.dcbSetBitmap.or (s.copyDcbCfg h env).val.1).pgTx ||
      (s.dcbSetBitmap.or (s.copyDcbCfg h env).val.1).pgRx) = true := by
    cases dir with
    | tx => exact or_eq_true_iff.mpr (Or.inl hpg)
    | rx => exact or_eq_true_iff.mpr (Or.inr hpg)
  unfold Dcb.setAll
  rw [if_neg (by rw [hcee]; decide)]
  refine mem_bind_right ?_
  change _ ∈ (if s.dcbSetBitmap.or (s.copyDcbCfg h env).val.1 = DcbSetBitmap.clear then _ else _ :
    Traced DcbUse (DcbHwChg × Dcb)).trace
  rw [if_neg hne]
  refine mem_bind_right (mem_bind_left _ ?_)
  change _ ∈ (if ((s.dcbSetBitmap.or (s.copyDcbCfg h env).val.1).pgTx ||
    (s.dcbSetBitmap.or (s.copyDcbCfg h env).val.1).pgRx) = true then _ else _ :
    Traced DcbUse (DcbHwChg × Dcb)).trace
  rw [if_pos hor, ← bwgId_copyDcbCfg hi dir]
  exact mem_bind_left _ (mem_applyPg hi dir)

theorem not_safe_of_tempDcbCfg (hs : s.dcbCfg.Bounded) (dir : DcbDir) (hi : i < 8)
    (hbad : 8 ≤ ((s.tempDcbCfg.tcConfig i).path dir).bwgId.toNat) : ¬ s.Safe h := by
  have hout (env : DcbEnv) (call : DcbCall) (hok : call.Ok env s)
      (hmem : .bwPercentage ((s.tempDcbCfg.tcConfig i).path dir).bwgId.toNat ∈
        (call.run h env s).trace) : ¬ s.Safe h :=
    not_safe_of_not_inRange (e := ⟨call, env⟩) hok fun hin => (hbad.trans_lt (hin _ hmem)).false
  by_cases hcee : dcbxVerCee s.dcbxCap = true
  · have hne : ((s.dcbCfg.tcConfig i).path dir).bwgId ≠
        ((s.tempDcbCfg.tcConfig i).path dir).bwgId := by
      intro heq
      have hlt := hs.bwgId_lt i hi dir
      rw [heq] at hlt
      omega
    have hdiff : pgDiffers s.tempDcbCfg s.dcbCfg dir = true := pgDiffers_of_bwgId hi hne
    refine hout quietEnv .setAll trivial (mem_bind_left _ (mem_setAll hcee hi ?_))
    cases dir with
    | tx => exact or_eq_true_iff.mpr (Or.inr hdiff)
    | rx => exact or_eq_true_iff.mpr (Or.inr hdiff)
  · have hmode : (0x05 : U8) ≠ s.dcbxCap := by
      intro heq
      rw [← heq] at hcee
      exact hcee (by decide)
    refine hout quietEnv (.setdcbx 0x05) trivial (mem_bind_left _ ?_)
    unfold Dcb.setdcbx
    rw [if_neg (by decide), if_neg hmode, if_neg (by decide), if_pos (by decide)]
    refine mem_bind_left _ (mem_setAll (s := { s with
      dcbxCap := 0x05, dcbSetBitmap := s.dcbSetBitmap.or .all })
      (show dcbxVerCee 0x05 = true by decide) hi ?_)
    cases dir with
    | tx => exact or_eq_true_iff.mpr (Or.inl (Bool.or_true _))
    | rx => exact or_eq_true_iff.mpr (Or.inl (Bool.or_true _))

theorem not_safe_setnumtcs {tcid : NumTcsAttr} {num : U8}
    (hbad : ¬ (tcid = .pg → s.dcbEnabled = true → num.toNat ≤ 8)) :
    ¬ (s.setnumtcs tcid num).2.Safe h := by
  obtain ⟨rfl, hstored⟩ := Classical.not_imp.mp hbad
  obtain ⟨hd, hnum⟩ := Classical.not_imp.mp hstored
  refine not_safe_of_pgTcs ?_
  unfold Dcb.setnumtcs
  rw [if_pos hd]
  exact not_le.mp hnum

theorem not_safe_setPgTcCfg (hs : s.Bounded) {tc : ℤ} {prio bwgId bwPct upMap : U8}
    (hbad : ¬ (0 ≤ tc → tc < 8 → bwgId = 0xff ∨ bwgId.toNat < 8)) :
    ¬ (s.setPgTcCfg dir tc prio bwgId bwPct upMap).val.Safe h := by
  obtain ⟨hpos, hbad⟩ := Classical.not_imp.mp hbad
  obtain ⟨hlt, hbwg⟩ := Classical.not_imp.mp hbad
  obtain ⟨hff, hge⟩ := not_or.mp hbwg
  have hrange : ¬ (tc < 0 ∨ tc ≥ 8) := by omega
  unfold Dcb.setPgTcCfg
  rw [if_neg hrange]
  refine not_safe_of_tempDcbCfg hs.dcbCfg dir (i := tc.toNat) (by omega) ?_
  dsimp only [val_bind, val_pure]
  rw [update_self]
  dsimp only
  rw [update_self]
  unfold unlessUndefined
  rw [if_neg hff]
  exact not_lt.mp hge

section

variable (h : DcbHost) (env : DcbEnv)

def Dcb.SameIeee (s t : Dcb) : Prop := t.ieeeEts = s.ieeeEts ∧ t.dcbxCap = s.dcbxCap

theorem sameIeee_initInterruptScheme (s : Dcb) : s.SameIeee (s.initInterruptScheme env) := by
  unfold Dcb.initInterruptScheme
  split
  · exact ⟨rfl, rfl⟩
  · dsimp only
    split <;> exact ⟨rfl, rfl⟩

theorem sameIeee_configureDcb (s : Dcb) : s.SameIeee (s.configureDcb h env).val := by
  unfold Dcb.configureDcb
  split
  · exact ⟨rfl, rfl⟩
  · split
    · split <;> exact ⟨rfl, rfl⟩
    · exact ⟨rfl, rfl⟩

theorem Dcb.SameIeee.trans {t u : Dcb} (hst : s.SameIeee t) (htu : t.SameIeee u) : s.SameIeee u :=
  ⟨htu.1.trans hst.1, htu.2.trans hst.2⟩

theorem sameIeee_restart (s : Dcb) : s.SameIeee (s.restart h env).val := by
  have hinit := sameIeee_initInterruptScheme env s
  change s.SameIeee (if env.reopens = true then _ else _ : Traced DcbUse Dcb).val
  split
  · exact hinit.trans (sameIeee_configureDcb h env _)
  · exact hinit

theorem sameIeee_setNumTc (n : ℕ) (s : Dcb) : s.SameIeee (s.setNumTc h n).val := by
  unfold Dcb.setNumTc
  split <;> exact ⟨rfl, rfl⟩

theorem sameIeee_setupTc (tc : ℕ) (s : Dcb) : s.SameIeee (s.setupTc h env tc).val.2 := by
  unfold Dcb.setupTc
  split
  · exact ⟨rfl, rfl⟩
  · split
    · split
      · exact sameIeee_restart h env s
      · have hset := sameIeee_setNumTc h tc s
        have hon : s.SameIeee { (s.setNumTc h tc).val with dcbEnabled := true } := hset
        exact hon.trans (sameIeee_restart h env _)
    · exact sameIeee_restart h env _

theorem sameIeee_applyEts (maxTc : ℕ) (mapChg : Bool) (s : Dcb) :
    s.SameIeee (s.applyEts h env maxTc mapChg).val.2 := by
  unfold Dcb.applyEts
  split
  · exact sameIeee_setupTc h env maxTc s
  · split
    · exact sameIeee_restart h env s
    · exact ⟨rfl, rfl⟩

end

theorem not_safe_ieeeSetets (hmac : h.mac ≠ .macE610) {ets : IeeeEts}
    (hbad : ¬ (dcbxVerIeee s.dcbxCap = true → (s.ieeeEts.isSome ∨ env.allocEts = true) →
      ets.Bounded)) : ¬ (s.ieeeSetets h env ets).val.2.Safe h := by
  obtain ⟨hieee, hstored⟩ := Classical.not_imp.mp hbad
  obtain ⟨halloc, hets⟩ := Classical.not_imp.mp hstored
  have hkept : Dcb.SameIeee { s with ieeeEts := some ets } (s.ieeeSetets h env ets).val.2 := by
    unfold Dcb.ieeeSetets
    rw [if_neg (by rw [hieee]; decide), if_neg]
    · dsimp only
      split
      · exact ⟨rfl, rfl⟩
      · exact sameIeee_applyEts h env _ _ _
    · rintro ⟨hnone, hfail⟩
      rcases halloc with hsome | htrue
      · rw [Option.isNone_iff_eq_none.mp hnone] at hsome
        exact absurd hsome (by decide)
      · rw [htrue] at hfail
        exact absurd hfail (by decide)
  refine not_safe_of_ieeeEts hmac ?_ hkept.1 hets
  rw [hkept.2]
  exact hieee

theorem DcbCall.not_safe_of_not_ok (hmac : h.mac ≠ .macE610) (hs : s.Bounded) {c : DcbCall}
    (hbad : ¬ c.Ok env s) : ¬ (c.run h env s).val.Safe h := by
  cases c with
  | setPgTcCfgTx tc prio bwgId bwPct upMap => exact not_safe_setPgTcCfg hs hbad
  | setPgTcCfgRx tc prio bwgId bwPct upMap => exact not_safe_setPgTcCfg hs hbad
  | setnumtcs tcid num => exact not_safe_setnumtcs hbad
  | ieeeSetets ets => exact not_safe_ieeeSetets hmac hbad
  | _ => exact absurd trivial hbad

end Unsafe

theorem dcbCfgInit_bounded : dcbCfgInit.Bounded :=
  ⟨by decide, fun _ _ _ => show (0 : U8).toNat < 8 by decide⟩

theorem dcbInit_bounded : dcbInit.Bounded :=
  ⟨dcbCfgInit_bounded, dcbCfgInit_bounded, fun _ he => (nomatch he), Nat.zero_le 8⟩

/-- **The indices of netlink requests** stay in range exactly when no call stores a byte out of
range. -/
theorem dcb_indices_iff (h : DcbHost) (hmac : h.mac ≠ .macE610) (es : List DcbEvent) :
    Along (dcbStep h) (fun s e => e.InRange h s ∧ (dcbStep h s e).Safe h) dcbInit es ↔
      Along (dcbStep h) (fun s e => e.Ok s) dcbInit es := by
  refine along_iff_along (fun _ _ => True)
    (fun s e (hs : s.Bounded) _ (hok : e.Ok s) => (DcbCall.Ok.sat hok hs).2)
    (fun s e hs _ => ⟨fun hsafe => ?_, fun hok => ?_⟩) dcbInit_bounded
    (along_of_forall (q := fun _ => True) _ es fun _ _ => trivial)
  · by_contra hbad
    exact DcbCall.not_safe_of_not_ok hmac hs hbad hsafe.2
  · obtain ⟨hin, hs'⟩ := DcbCall.Ok.sat (h := h) hok hs
    exact ⟨hin, hs'.safe⟩

def dcbHost82599 : DcbHost := ⟨.mac82599EB, false, 16⟩

theorem dcb_indices_last_group :
    Along (dcbStep dcbHost82599)
      (fun s e => e.InRange dcbHost82599 s ∧ (dcbStep dcbHost82599 s e).Safe dcbHost82599) dcbInit
      [⟨.setState 1, quietEnv⟩, ⟨.setPgTcCfgTx 3 0xff 7 0xff 0x08, quietEnv⟩,
        ⟨.setAll, quietEnv⟩] :=
  (dcb_indices_iff dcbHost82599 (by decide) _).mpr
    ⟨trivial, fun _ _ => Or.inr (by decide), trivial, trivial⟩

/-- Each time the call before the last stores an 8 or a 9. -/
theorem dcb_index_eight :
    ¬ DcbEvent.InRange dcbHost82599 (run (dcbStep dcbHost82599) dcbInit
        [⟨.setState 1, quietEnv⟩, ⟨.setnumtcs .pg 9, quietEnv⟩]) ⟨.getPfcCfg 0, quietEnv⟩ ∧
      (run (dcbStep dcbHost82599) dcbInit
        [⟨.setState 1, quietEnv⟩, ⟨.setnumtcs .pg 9, quietEnv⟩, ⟨.setState 0, quietEnv⟩,
          ⟨.setState 1, quietEnv⟩]).numTc = 9 ∧
      ¬ DcbEvent.InRange dcbHost82599 (run (dcbStep dcbHost82599) dcbInit
        [⟨.setPgTcCfgTx 0 0xff 8 0xff 0xff, quietEnv⟩]) ⟨.setAll, quietEnv⟩ ∧
      ¬ DcbEvent.InRange dcbHost82599 (run (dcbStep dcbHost82599) dcbInit
        [⟨.setdcbx 0x09, quietEnv⟩, ⟨.ieeeSetets { IeeeEts.zero with prioTc := fun _ => 8 },
          quietEnv⟩])
        ⟨.ieeeSetpfc 1, quietEnv⟩ := by
  refine ⟨fun hin => ?_, by decide, fun hin => ?_, fun hin => ?_⟩
  · exact absurd (hin (.tcConfig 8) (by decide)) (by decide)
  · exact absurd (hin (.bwPercentage 8) (by decide)) (by decide)
  · exact absurd (hin (.fcrt 8) (by decide)) (by decide)

end Ixgbe
