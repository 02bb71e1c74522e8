import Ixgbe.Library.Traced
import Ixgbe.Hw.Basic

/-! # Module options

`ixgbe_check_options` (`ixgbe_param.c`) with `module_param_array`. Of options that set nothing else
modelled only the reads are kept. -/

namespace Ixgbe

open Traced

inductive Param
  | intMode | interruptType | mq | dca | rss | vmdq | maxVfs | vepa | itr | lliPort | lliSize
  | lliPush | lliEType | lliVlanP | fdirPballoc | atrSampleRate | fcoe | lro | allowUnsupportedSfp
  | dmacWatchdog | vxlanRx | mdd
  deriving DecidableEq

/-- 33 entries, the first `num` given; beyond, `value` is what is in memory. -/
structure ParamArrays where
  value : Param → ℕ → U32
  num : Param → ℕ
  num_le : ∀ p, num p ≤ 33

/-- The board. The 82598EB has no `MacType`. -/
structure BoardEnv where
  mac : Option MacType
  online : ℕ
  online_pos : 1 ≤ online
  bdNumber : ℕ

structure Options where
  msixCapable : Bool
  msiCapable : Bool
  mqCapable : Bool
  sriovCapable : Bool
  vmdqEnabled : Bool
  sriovEnabled : Bool
  rssLimit : ℕ
  fdirLimit : ℕ
  vmdqLimit : ℕ
  maxVfs : ℕ
  rxItrSetting : ℕ
  txItrSetting : ℕ
  watchdogTimer : ℕ

/-- By its type and default. No option is a list. -/
inductive OptionType
  | enable
  | range (min max : ℕ)

def OptionType.Accepts (dflt v : ℕ) : OptionType → Prop
  | .enable => v = 1 ∨ v = 0
  | .range min max => min ≤ v ∧ v ≤ max ∨ v = dflt

instance (dflt v : ℕ) : (t : OptionType) → Decidable (t.Accepts dflt v)
  | .enable => inferInstanceAs (Decidable (_ ∨ _))
  | .range _ _ => inferInstanceAs (Decidable (_ ∨ _))

/-- Whether `ixgbe_validate_option` returns 0, and the value it leaves. -/
def validateOption (t : OptionType) (dflt : ℕ) (value : U32) : Bool × ℕ :=
  if value = -1 then (true, dflt)
  else if t.Accepts dflt value.toNat then (true, value.toNat)
  else (false, dflt)

section

variable (a : ParamArrays) (b : BoardEnv)

abbrev OptionReads := Traced (Param × ℕ)

def readParam (p : Param) : OptionReads U32 := do
  emit (p, b.bdNumber)
  pure (a.value p b.bdNumber)

def Given (p : Param) : Prop := b.bdNumber < a.num p

instance (p : Param) : Decidable (Given a b p) := inferInstanceAs (Decidable (_ < _))

/-- The guard, the read and the check that most options share. -/
def optionValue (p : Param) (t : OptionType) (dflt : ℕ) : OptionReads ℕ :=
  if Given a b p then do
    let v ← readParam a b p
    pure (validateOption t dflt v).2
  else pure dflt

def BoardEnv.fromX550 : Bool := b.mac.any fun m => decide (MacType.macX550.rank ≤ m.rank)

def BoardEnv.maxRssIndices : ℕ := if b.fromX550 then 63 else 16

/-- `MSIX_CAPABLE` and `MSI_CAPABLE` for the interrupt mode. -/
def interruptMode (mode : ℕ) (msix msi : Bool) : Bool × Bool :=
  match mode with
  | 2 => (msix, msi)
  | 1 => (!msi && msix, msi)
  | _ => (false, false)

def checkInterruptMode (msix msi : Bool) : OptionReads (Bool × Bool) :=
  if Given a b .intMode ∨ Given a b .interruptType then
    readParam a b .intMode >>= fun v =>
      (if v = -1 then readParam a b .interruptType else pure v) >>= fun v =>
        pure (interruptMode (validateOption (.range 0 2) 2 v).2 msix msi)
  else pure (msix, msix)

/-- The setting has 16 bits. -/
def itrSetting (itr : U32) : ℕ :=
  if itr = 0 then 0 else if itr = 1 then 1
  else (1000000 / (validateOption (.range 956 488281) 1 itr).2) <<< 2 % 2 ^ 16

def checkItr : OptionReads ℕ :=
  if Given a b .itr then readParam a b .itr >>= fun v => pure (itrSetting v) else pure 1

/-- The array is read before it is known whether the board has an entry. -/
def checkRss : OptionReads (Option ℕ) :=
  readParam a b .rss >>= fun v =>
    let rss := (validateOption (.range 0 b.maxRssIndices) 0 v).2
    pure (if Given a b .rss ∧ rss ≠ 0 then some rss else none)

/-- The low latency options, for which `ixgbe_lli_supported` reads `LLIPush`. -/
def lliReads (p : Param) : List Param :=
  match b.mac with
  | some .mac82599EB =>
    .lliPush :: if 0 < (a.value .lliPush b.bdNumber).toInt then [] else [p]
  | some .macX540 => [p]
  | _ => []

def BoardEnv.Supports : Param → Bool
  | .fdirPballoc | .atrSampleRate => b.mac.isSome
  | .fcoe => b.mac.any fun m => m != .macX550EMx && m != .macX550EMa
  | .mdd => b.fromX550
  | _ => true

def otherReads : List Param :=
  let others : List Param := [.dca, .vepa, .fdirPballoc, .atrSampleRate, .fcoe, .lro,
    .allowUnsupportedSfp, .vxlanRx, .mdd]
  let lli : List Param := [.lliPort, .lliSize, .lliPush, .lliEType, .lliVlanP]
  others.filter (fun p => b.Supports p ∧ Given a b p) ++
    (lli.filter (fun p => Given a b p)).flatMap (lliReads a b)

def checkOptions (s : Options) : OptionReads Options := do
  let (msix, msi) ← checkInterruptMode a b s.msixCapable s.msiCapable
  let mq ← optionValue a b .mq .enable 1
  let mq := mq != 0 && msix
  let given ← checkRss a b
  let rss := given.getD (min b.maxRssIndices b.online)
  let vmdq ← optionValue a b .vmdq (.range 0 (if b.mac.isNone then 16 else 64)) 0
  let vfs ← optionValue a b .maxVfs (.range 0 63) 0
  let sriov := vfs != 0 && s.sriovCapable && mq
  let itr ← checkItr a b
  let watchdog ← optionValue a b .dmacWatchdog
    (if b.fromX550 ∧ itr ≠ 0 then .range 41 10000 else .range 0 0) 0
  emits ((otherReads a b).map (·, b.bdNumber))
  pure { s with
    msixCapable := msix
    msiCapable := msi
    mqCapable := mq
    fdirLimit := given.getD s.fdirLimit
    rssLimit := if rss > 1 ∧ !mq then 1 else rss
    vmdqEnabled := decide (vmdq > 1) && mq
    vmdqLimit := if vmdq > 1 ∧ !mq then 0 else vmdq
    sriovEnabled := sriov
    maxVfs := if sriov then vfs else 0
    rxItrSetting := itr
    txItrSetting := itr
    watchdogTimer := watchdog }

end

structure Sanitised (b : BoardEnv) (x : OptionReads Options) : Prop where
  reads : ∀ r ∈ x.trace, r.2 ≤ 32
  itr : x.val.rxItrSetting = 0 ∨ x.val.rxItrSetting = 1 ∨
    ∃ r, 956 ≤ r ∧ r ≤ 488281 ∧ x.val.rxItrSetting = (1000000 / r) <<< 2
  rss : 1 ≤ x.val.rssLimit ∧ x.val.rssLimit ≤ b.maxRssIndices
  virt : x.val.vmdqEnabled ∨ x.val.sriovEnabled → x.val.mqCapable ∧ x.val.msixCapable
  watchdog : x.val.watchdogTimer = 0 ∨ 41 ≤ x.val.watchdogTimer ∧ x.val.watchdogTimer ≤ 10000

variable {a : ParamArrays} {b : BoardEnv}

theorem validateOption_range (min max dflt : ℕ) (v : U32) :
    (validateOption (.range min max) dflt v).2 = dflt ∨
      min ≤ (validateOption (.range min max) dflt v).2 ∧
        (validateOption (.range min max) dflt v).2 ≤ max := by
  unfold validateOption
  split_ifs with hu h
  · exact .inl rfl
  · exact h.symm
  · exact .inl rfl

theorem optionValue_range (p : Param) (min max dflt : ℕ) :
    (optionValue a b p (.range min max) dflt).val = dflt ∨
      min ≤ (optionValue a b p (.range min max) dflt).val ∧
        (optionValue a b p (.range min max) dflt).val ≤ max := by
  unfold optionValue
  split_ifs
  · exact validateOption_range ..
  · exact .inl rfl

theorem itrSetting_spec (v : U32) : itrSetting v = 0 ∨ itrSetting v = 1 ∨
    ∃ r, 956 ≤ r ∧ r ≤ 488281 ∧ itrSetting v = (1000000 / r) <<< 2 := by
  unfold itrSetting
  split_ifs
  · exact .inl rfl
  · exact .inr (.inl rfl)
  · refine .inr (.inr ?_)
    rcases validateOption_range 956 488281 1 v with h | ⟨hmin, hmax⟩
    · -- the default is taken for a rate of one, and the setting truncated
      exact ⟨1736, by decide, by decide, by rw [h]; rfl⟩
    · refine ⟨_, hmin, hmax, Nat.mod_eq_of_lt ?_⟩
      have := Nat.div_le_div_left hmin (by decide : 0 < 956) (a := 1000000)
      omega

theorem checkItr_val : (checkItr a b).val = 0 ∨ (checkItr a b).val = 1 ∨
    ∃ r, 956 ≤ r ∧ r ≤ 488281 ∧ (checkItr a b).val = (1000000 / r) <<< 2 := by
  unfold checkItr
  split_ifs
  · exact itrSetting_spec _
  · exact .inr (.inl rfl)

theorem checkRss_val (x : ℕ) (h : x ∈ (checkRss a b).val) : 1 ≤ x ∧ x ≤ b.maxRssIndices := by
  have hgiven := validateOption_range 0 b.maxRssIndices 0 (readParam a b .rss).val
  simp only [checkRss, Traced.val_bind, Traced.val_pure, Option.mem_def] at h
  split_ifs at h with hc
  cases h
  omega

def InArray (b : BoardEnv) (r : Param × ℕ) : Prop := r = (.rss, b.bdNumber) ∨ r.2 ≤ 32

theorem inArray_of_given {p q : Param} (h : Given a b p) : InArray b (q, b.bdNumber) :=
  .inr (Nat.le_of_lt_succ (Nat.lt_of_lt_of_le h (a.num_le p)))

theorem sat_readParam {p q : Param} (h : Given a b p) :
    Sat (InArray b) (fun _ => True) (readParam a b q) :=
  sat_bind (sat_emit (inArray_of_given h)) fun _ _ => sat_pure trivial

theorem sat_optionValue (p : Param) (t : OptionType) (dflt : ℕ) :
    Sat (InArray b) (fun _ => True) (optionValue a b p t dflt) :=
  sat_ite (fun h => sat_bind (sat_readParam h) fun _ _ => sat_pure trivial) fun _ =>
    sat_pure trivial

theorem sat_checkInterruptMode (msix msi : Bool) :
    Sat (InArray b) (fun _ => True) (checkInterruptMode a b msix msi) :=
  sat_ite (fun h => sat_bind (h.elim sat_readParam sat_readParam) fun _ _ =>
    sat_bind (sat_ite (fun _ => h.elim sat_readParam sat_readParam) fun _ => sat_pure trivial)
      fun _ _ => sat_pure trivial) fun _ => sat_pure trivial

theorem given_of_mem_otherReads {p : Param} (h : p ∈ otherReads a b) : ∃ q, Given a b q := by
  rcases List.mem_append.mp h with h | h
  · exact ⟨p, (of_decide_eq_true (List.mem_filter.mp h).2).2⟩
  · obtain ⟨q, hq, -⟩ := List.mem_flatMap.mp h
    exact ⟨q, of_decide_eq_true (List.mem_filter.mp hq).2⟩

theorem sat_checkRss : Sat (InArray b) (fun _ => True) (checkRss a b) :=
  sat_bind (Q := fun _ => True) (sat_bind (sat_emit (.inl rfl)) fun _ _ => sat_pure trivial)
    fun _ _ => sat_pure trivial

theorem sat_checkItr : Sat (InArray b) (fun _ => True) (checkItr a b) :=
  sat_ite (fun h => sat_bind (sat_readParam h) fun _ _ => sat_pure trivial) fun _ =>
    sat_pure trivial

theorem sat_checkOptions (s : Options) : Sat (InArray b) (fun _ => True) (checkOptions a b s) := by
  refine sat_bind (sat_checkInterruptMode ..) fun _ _ => sat_bind (sat_optionValue ..) fun _ _ =>
    sat_bind sat_checkRss fun _ _ => sat_bind (sat_optionValue ..) fun _ _ =>
    sat_bind (sat_optionValue ..) fun _ _ => sat_bind sat_checkItr fun _ _ =>
    sat_bind (sat_optionValue ..) fun _ _ => sat_bind (sat_emits fun r hr => ?_) fun _ _ =>
    sat_pure trivial
  obtain ⟨p, hp, rfl⟩ := List.mem_map.mp hr
  obtain ⟨q, hq⟩ := given_of_mem_otherReads hp
  exact inArray_of_given hq

/-- **The options are sanitised exactly for the boards with an entry**: the stored values are in
range for every board. -/
theorem checkOptions_sanitised_iff (a : ParamArrays) (b : BoardEnv) (s : Options) :
    Sanitised b (checkOptions a b s) ↔ b.bdNumber ≤ 32 := by
  constructor
  · intro h
    refine h.reads (.rss, b.bdNumber) ?_
    exact mem_bind_right (mem_bind_right (mem_bind_left _ (mem_bind_left _ (mem_bind_left _
      (List.mem_singleton_self _)))))
  · intro hbd
    have hrss := checkRss_val (a := a) (b := b)
    have honline := b.online_pos
    refine ⟨fun r hr => ?_, checkItr_val, ?_, ?_, ?_⟩
    · rcases (sat_checkOptions s).1 r hr with rfl | h
      · exact hbd
      · exact h
    · have hmax : 1 ≤ b.maxRssIndices := by
        unfold BoardEnv.maxRssIndices
        split_ifs <;> omega
      simp only [checkOptions, Traced.val_bind, Traced.val_pure]
      cases hr : (checkRss a b).val with
      | none =>
        simp only [Option.getD_none]
        split_ifs <;> omega
      | some rss =>
        have := hrss rss hr
        simp only [Option.getD_some]
        split_ifs <;> omega
    · simp [checkOptions]
      grind
    · have hwd : (checkOptions a b s).val.watchdogTimer = (optionValue a b .dmacWatchdog
        (if b.fromX550 ∧ (checkItr a b).val ≠ 0 then .range 41 10000 else .range 0 0) 0).val := rfl
      rw [hwd]
      split_ifs
      · exact optionValue_range ..
      · have := optionValue_range (a := a) (b := b) .dmacWatchdog 0 0 0
        omega

/-- Board 33, with no option given. -/
theorem not_sanitised_board_33 :
    ¬ Sanitised ⟨some .mac82599EB, 4, by decide, 33⟩
      (checkOptions ⟨fun _ _ => -1, fun _ => 0, fun _ => by decide⟩
        ⟨some .mac82599EB, 4, by decide, 33⟩
        ⟨true, true, true, true, false, false, 0, 0, 0, 0, 0, 0, 0⟩) :=
  fun h => absurd (h.reads (.rss, 33) (by decide)) (by decide)

end Ixgbe
