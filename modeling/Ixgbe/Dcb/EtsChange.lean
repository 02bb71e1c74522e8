import Ixgbe.Dcb.Indices
import Mathlib.Order.Lattice.Nat

/-! # A change of the ETS settings

`ixgbe_dcbnl_ieee_setets` stores the settings before it looks at them; its success does not say that
the classes exist. -/

namespace Ixgbe

open List

/-- The number of classes that survives `ixgbe_init_interrupt_scheme`. -/
def keptTc (env : DcbEnv) (n : ℕ) : ℕ := if env.msix = true ∨ n ≤ 1 then n else 0

section Reset

variable {h : DcbHost} {env : DcbEnv} {s : Dcb}

theorem keptTc_zero : keptTc env 0 = 0 := by
  unfold keptTc
  rw [if_pos (Or.inr (Nat.zero_le 1))]

theorem keptTc_of_msix (hm : env.msix = true) (n : ℕ) : keptTc env n = n := if_pos (Or.inl hm)

theorem keptTc_le_one (hm : ¬ env.msix = true) (n : ℕ) : keptTc env n ≤ 1 := by
  unfold keptTc
  split
  · exact (‹_ ∨ _›).resolve_left hm
  · exact Nat.zero_le 1

theorem numTc_initInterruptScheme : (s.initInterruptScheme env).numTc = keptTc env s.numTc := by
  unfold Dcb.initInterruptScheme keptTc
  split
  case isTrue hm =>
    rw [if_pos (Or.inl hm)]
  case isFalse hm =>
    by_cases hn : s.numTc > 1
    · have hkept : ¬ (env.msix = true ∨ s.numTc ≤ 1) := by
        rintro (hm' | hle)
        · exact hm hm'
        · omega
      simp only [if_pos hn, if_neg hkept]
    · have hkept : env.msix = true ∨ s.numTc ≤ 1 := Or.inr (not_lt.mp hn)
      simp only [if_neg hn, if_pos hkept]

theorem numTc_configureDcb : (s.configureDcb h env).val.numTc = s.numTc := by
  unfold Dcb.configureDcb
  split
  · rfl
  · split
    · split <;> rfl
    · rfl

theorem numTc_restart : (s.restart h env).val.numTc = keptTc env s.numTc := by
  change (if env.reopens = true then _ else _ : Traced DcbUse Dcb).val.numTc = _
  split
  · exact numTc_configureDcb.trans numTc_initInterruptScheme
  · exact numTc_initInterruptScheme

theorem numTc_setNumTc (n : ℕ) :
    (s.setNumTc h n).val.numTc = if n ≤ h.tcMaxQueue then n else s.numTc := by
  unfold Dcb.setNumTc
  by_cases hn : n > h.tcMaxQueue
  · rw [if_pos hn, if_neg (not_le.mpr hn)]
    rfl
  · rw [if_neg hn, if_pos (not_lt.mp hn)]
    rfl

theorem setupTc_status {tc : ℕ} (htc : tc ≤ s.dcbCfg.pgTcs.toNat) :
    (s.setupTc h env tc).val.1 = if tc ≠ 0 ∧ env.xdpProg = true then eInval else 0 := by
  unfold Dcb.setupTc
  rw [if_neg (not_lt.mpr htc)]
  by_cases hz : tc ≠ 0
  · rw [if_pos hz]
    by_cases hx : env.xdpProg = true
    · rw [if_pos hx, if_pos ⟨hz, hx⟩]
      rfl
    · rw [if_neg hx, if_neg fun hc => hx hc.2]
      rfl
  · rw [if_neg hz, if_neg fun hc => hz hc.1]
    rfl

theorem numTc_setupTc {tc : ℕ} (htc : tc ≤ s.dcbCfg.pgTcs.toNat)
    (hok : ¬ (tc ≠ 0 ∧ env.xdpProg = true)) :
    (s.setupTc h env tc).val.2.numTc =
      if tc = 0 then 0 else keptTc env (if tc ≤ h.tcMaxQueue then tc else s.numTc) := by
  unfold Dcb.setupTc
  rw [if_neg (not_lt.mpr htc)]
  by_cases hz : tc = 0
  · rw [if_neg (not_not.mpr hz), if_pos hz]
    exact numTc_restart.trans keptTc_zero
  · rw [if_pos hz, if_neg fun hx => hok ⟨hz, hx⟩, if_neg hz, ← numTc_setNumTc]
    exact numTc_restart

end Reset

def IeeeEts.top (ets : IeeeEts) : ℕ := (Finset.range 8).sup fun up => (ets.prioTc up).toNat

/-- The number of classes of a map, counted in a byte. -/
def IeeeEts.classes (ets : IeeeEts) : ℕ := if ets.top = 0 then 0 else (ets.top + 1) % 256

theorem maxTcOf_eq_sup (map : ℕ → ℕ) : maxTcOf map = (Finset.range 8).sup map := by
  refine le_antisymm ?_ (Finset.sup_le fun up hup => le_maxTcOf map (Finset.mem_range.mp hup))
  refine Nat.lt_succ_iff.mp (foldl_max_lt (range 8) (fun i hi => ?_) (Nat.succ_pos _))
  exact Nat.lt_succ_of_le (Finset.le_sup (f := map) (Finset.mem_range.mpr (mem_range.mp hi)))

theorem maxTcPlusOne_eq (ets : IeeeEts) : maxTcPlusOne ets = ets.classes := by
  unfold maxTcPlusOne IeeeEts.classes IeeeEts.top
  rw [maxTcOf_eq_sup]
  by_cases hz : ((Finset.range 8).sup fun up => (ets.prioTc up).toNat) = 0
  · simp only [hz]
    rfl
  · simp only [if_pos hz, if_neg hz]

theorem IeeeEts.top_lt (ets : IeeeEts) : ets.top < 256 :=
  (Finset.sup_lt_iff (by decide)).mpr fun up _ => (ets.prioTc up).isLt

theorem IeeeEts.forall_lt_iff (ets : IeeeEts) {n : ℕ} (hn : 0 < n) :
    (∀ up < 8, (ets.prioTc up).toNat < n) ↔ ets.top < n := by
  unfold IeeeEts.top
  rw [Finset.sup_lt_iff hn]
  exact forall_congr' fun up => by rw [Finset.mem_range]

def IeeeEts.Supported (ets : IeeeEts) : Prop := ∀ i < 8, ets.tcTsa i = 0 ∨ ets.tcTsa i = 2

theorem dcbHwEts_eq_zero_iff (ets : IeeeEts) : dcbHwEts ets = 0 ↔ ets.Supported := by
  have hall : ((range 8).all fun i => ets.tcTsa i == 0 || ets.tcTsa i == 2) = true ↔
      ets.Supported := by
    simp only [all_eq_true, mem_range, Bool.or_eq_true, beq_iff_eq]
    rfl
  unfold dcbHwEts
  rw [← hall]
  split
  · exact ⟨fun _ => ‹_›, fun _ => rfl⟩
  · exact ⟨fun h => absurd h (by decide), fun h => absurd h ‹_›⟩

def IeeeEts.SameMap (ets old : IeeeEts) : Prop := ∀ up < 8, ets.prioTc up = old.prioTc up

/-- **What the request is refused for.** -/
def Dcb.EtsRefused (env : DcbEnv) (ets : IeeeEts) (s : Dcb) : Prop :=
  s.dcbCfg.pgTcs.toNat < ets.classes ∨
    (ets.classes ≠ s.numTc ∧ ets.classes ≠ 0 ∧ env.xdpProg = true) ∨ ¬ ets.Supported

section Request

variable {h : DcbHost} {env : DcbEnv} {s : Dcb} {ets old : IeeeEts}

theorem applyEts_status {n : ℕ} {mapChg : Bool} (hn : n ≤ s.dcbCfg.pgTcs.toNat) :
    (s.applyEts h env n mapChg).val.1 =
      if n ≠ s.numTc ∧ n ≠ 0 ∧ env.xdpProg = true then eInval else 0 := by
  unfold Dcb.applyEts
  by_cases hne : n ≠ s.numTc
  · rw [if_pos hne, setupTc_status hn]
    simp only [hne, ne_eq, not_false_eq_true, true_and]
  · have hno : ¬ (n ≠ s.numTc ∧ n ≠ 0 ∧ env.xdpProg = true) := fun hc => hne hc.1
    rw [if_neg hne, if_neg hno]
    split <;> rfl

theorem numTc_applyEts {n : ℕ} {mapChg : Bool} (hn : n ≤ s.dcbCfg.pgTcs.toNat)
    (hok : ¬ (n ≠ s.numTc ∧ n ≠ 0 ∧ env.xdpProg = true)) :
    (s.applyEts h env n mapChg).val.2.numTc =
      if n ≠ s.numTc then if n = 0 then 0 else keptTc env (if n ≤ h.tcMaxQueue then n else s.numTc)
      else if mapChg = true then keptTc env s.numTc else s.numTc := by
  unfold Dcb.applyEts
  by_cases hne : n ≠ s.numTc
  · rw [if_pos hne, if_pos hne]
    exact numTc_setupTc hn fun hc => hok ⟨hne, hc⟩
  · rw [if_neg hne, if_neg hne]
    by_cases hmap : mapChg = true
    · rw [if_pos hmap, if_pos hmap]
      exact numTc_restart
    · rw [if_neg hmap, if_neg hmap]
      rfl

def mapChg (ets old : IeeeEts) : Bool := (range 8).any fun i => ets.prioTc i != old.prioTc i

theorem mapChg_eq_false_iff : mapChg ets old = false ↔ ets.SameMap old := by
  unfold mapChg IeeeEts.SameMap
  simp only [any_eq_false, mem_range, bne_iff_ne, ne_eq, not_not]

section

variable (hieee : dcbxVerIeee s.dcbxCap = true)

include hieee

section

variable (hold : s.ieeeEts = some old)

include hold

theorem ieeeSetets_val :
    (s.ieeeSetets h env ets).val =
      if ets.classes > s.dcbCfg.pgTcs.toNat then (eInval, { s with ieeeEts := some ets })
      else
        let r := (Dcb.applyEts h env ets.classes (mapChg ets old)
          { s with ieeeEts := some ets }).val
        (if r.1 ≠ 0 then r.1 else dcbHwEts ets, r.2) := by
  have hnone : ¬ (s.ieeeEts.isNone = true ∧ env.allocEts = false) := by
    rw [hold]
    exact fun hc => nomatch hc.1
  unfold Dcb.ieeeSetets
  rw [if_neg (by rw [hieee]; decide), if_neg hnone, hold, ← maxTcPlusOne_eq]
  split
  case isTrue hn =>
    rw [if_pos hn]
    rfl
  case isFalse hn =>
    rw [if_neg hn]
    rfl

theorem ieeeSetets_status : (s.ieeeSetets h env ets).val.1 ≠ 0 ↔ s.EtsRefused env ets := by
  rw [ieeeSetets_val hieee hold]
  split
  case isTrue hn =>
    exact ⟨fun _ => Or.inl hn, fun _ => show eInval ≠ 0 by decide⟩
  case isFalse hn =>
    have hle : ets.classes ≤ s.dcbCfg.pgTcs.toNat := not_lt.mp hn
    dsimp only
    rw [applyEts_status (s := { s with ieeeEts := some ets }) hle]
    split
    case isTrue hx =>
      rw [if_pos (by decide)]
      exact ⟨fun _ => Or.inr (Or.inl hx), fun _ => by decide⟩
    case isFalse hx =>
      rw [if_neg (not_not.mpr rfl), Ne, dcbHwEts_eq_zero_iff]
      exact ⟨fun hs => Or.inr (Or.inr hs), fun hr => (hr.resolve_left hn).resolve_left hx⟩

theorem ieeeEts_ieeeSetets : (s.ieeeSetets h env ets).val.2.ieeeEts = some ets := by
  rw [ieeeSetets_val hieee hold]
  split
  · rfl
  · exact (sameIeee_applyEts h env _ _ { s with ieeeEts := some ets }).1

theorem numTc_ieeeSetets (hok : ¬ s.EtsRefused env ets) :
    (s.ieeeSetets h env ets).val.2.numTc =
      if ets.classes ≠ s.numTc then
        if ets.classes = 0 then 0
        else keptTc env (if ets.classes ≤ h.tcMaxQueue then ets.classes else s.numTc)
      else if mapChg ets old = true then keptTc env s.numTc else s.numTc := by
  obtain ⟨hn, hrest⟩ := not_or.mp hok
  obtain ⟨hx, _⟩ := not_or.mp hrest
  rw [ieeeSetets_val hieee hold, if_neg hn]
  exact numTc_applyEts (s := { s with ieeeEts := some ets }) (not_lt.mp hn) hx

end

end

/-- **All or nothing**: an error leaves the settings, after success the classes of the map exist. -/
def Dcb.EtsAtomic (h : DcbHost) (env : DcbEnv) (ets : IeeeEts) (s : Dcb) : Prop :=
  ((s.ieeeSetets h env ets).val.1 ≠ 0 → (s.ieeeSetets h env ets).val.2.ieeeEts = s.ieeeEts) ∧
    ((s.ieeeSetets h env ets).val.1 = 0 →
      ∀ up < 8, (ets.prioTc up).toNat < max 1 (s.ieeeSetets h env ets).val.2.numTc)

def Dcb.EtsLasting (h : DcbHost) (env : DcbEnv) (ets old : IeeeEts) (s : Dcb) : Prop :=
  ets.top = 0 ∨
    ets.top ≠ 255 ∧
      ((ets.top + 1 = s.numTc ∧ ets.SameMap old) ∨
        env.msix = true ∧ (ets.top + 1 ≤ h.tcMaxQueue ∨ ets.top + 1 ≤ s.numTc))

theorem top_lt_numTc_iff (hieee : dcbxVerIeee s.dcbxCap = true) (hold : s.ieeeEts = some old)
    (hok : ¬ s.EtsRefused env ets) :
    ets.top < max 1 (s.ieeeSetets h env ets).val.2.numTc ↔ s.EtsLasting h env ets old := by
  rw [numTc_ieeeSetets hieee hold hok]
  unfold Dcb.EtsLasting
  have htop := ets.top_lt
  by_cases hzero : ets.top = 0
  · exact ⟨fun _ => Or.inl hzero, fun _ => by rw [hzero]; exact lt_max_of_lt_left Nat.one_pos⟩
  by_cases hwrap : ets.top = 255
  · -- the count wraps: no classes are left
    have hclasses : ets.classes = 0 := by
      unfold IeeeEts.classes
      rw [if_neg hzero, hwrap]
    refine ⟨fun hlt => ?_, fun hlast => absurd hwrap (hlast.resolve_left hzero).1⟩
    rw [hclasses, if_pos rfl] at hlt
    have hnone : (if (0 : ℕ) ≠ s.numTc then 0
        else if mapChg ets old = true then keptTc env s.numTc else s.numTc) = 0 := by
      by_cases hn : 0 = s.numTc
      · rw [if_neg (not_not.mpr hn), ← hn, keptTc_zero, ite_self]
      · rw [if_pos hn]
    omega
  · have hclasses : ets.classes = ets.top + 1 := by
      unfold IeeeEts.classes
      rw [if_neg hzero, Nat.mod_eq_of_lt (by omega)]
    rw [hclasses]
    have hone (n : ℕ) : ets.top < max 1 n ↔ ets.top + 1 ≤ n := by omega
    rw [hone, or_iff_right hzero, and_iff_right hwrap]
    by_cases hm : env.msix = true
    · rw [keptTc_of_msix hm, keptTc_of_msix hm, ite_self, if_neg (Nat.succ_ne_zero _)]
      refine ⟨fun hle => Or.inr ⟨hm, ?_⟩, fun hlast => ?_⟩
      · split_ifs at hle <;> omega
      · rcases hlast with ⟨heq, _⟩ | ⟨_, hfits⟩
        · split_ifs <;> omega
        · split_ifs <;> omega
    · -- without MSI-X vectors the number of classes stays only if nothing changes
      have hkept (n : ℕ) : ¬ ets.top + 1 ≤ keptTc env n := by
        have := keptTc_le_one hm n
        omega
      rw [if_neg (Nat.succ_ne_zero _), or_iff_left fun hlast => hm hlast.1]
      by_cases hne : ets.top + 1 = s.numTc
      · rw [if_neg (not_not.mpr hne), and_iff_right hne, ← mapChg_eq_false_iff]
        split
        case isTrue hmap =>
          exact iff_of_false (hkept _) (Bool.eq_false_iff.not_left.mpr hmap)
        case isFalse hmap =>
          exact iff_of_true hne.le (Bool.eq_false_iff.mpr hmap)
      · rw [if_pos hne]
        exact iff_of_false (hkept _) fun hlast => hne hlast.1

def Dcb.ieeeGetets (s : Dcb) : ℤ × Option (U8 × IeeeEts) :=
  match s.ieeeEts with
  | none => (eInval, none)
  | some ets => (0, some (s.dcbCfg.pgTcs, ets))

end Request

end Ixgbe
