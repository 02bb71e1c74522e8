import Ixgbe.Vlan.Members

/-! # The VLAN table refines a map from VLANs to pool sets

The register arrays are a map `vlan ↦ set of pools`, with room for 63 non-zero VLANs. -/

namespace Ixgbe

open VlanRegs BoundedMultimap EventRun Finset

/-- Of `ixgbe_set_vfta_generic(hw, vlan, vind, vlan_on, false)`. -/
structure VftaCall where
  vlan : Fin 4096
  vind : Fin 64
  vlanOn : Bool
  deriving DecidableEq

def VftaCall.exec (t : VlanRegs) (c : VftaCall) : ℤ × VlanRegs :=
  setVftaGeneric t c.vlan c.vind c.vlanOn false

/-- VLAN 0 has a place of its own, the others share 63. -/
def VftaCall.apply (m : VlanMap) (c : VftaCall) : VlanMap :=
  if c.vlanOn then join 0 63 m c.vlan c.vind else leave m c.vlan c.vind

/-- Slot `i` is the slot of VLAN `v`, with pool set `S`. -/
structure Owns (t : VlanRegs) (v : Fin 4096) (S : Finset (Fin 64)) (i : ℕ) : Prop where
  lt : i < 64
  zero : v = 0 → i = 0
  pos : v ≠ 0 → 1 ≤ i
  word : t.vlvf i = vlvfWord v
  pools : ∀ p : Fin 64, t.poolBit i p = true ↔ p ∈ S

/-- The registers represent exactly the map `m`. -/
structure Represents (t : VlanRegs) (m : VlanMap) : Prop where
  /-- A VLAN with pools owns exactly one slot. -/
  owner : ∀ v, (m v).Nonempty →
    ∃ i, Owns t v (m v) i ∧ ∀ j < 64, t.vlvf j = vlvfWord v → j = i
  /-- Every other slot is all zero. -/
  other : ∀ i < 64, (¬ ∃ v, (m v).Nonempty ∧ Owns t v (m v) i) →
    t.vlvf i = 0 ∧ t.vlvfb (i * 2) = 0 ∧ t.vlvfb (i * 2 + 1) = 0
  /-- The VFTA admits exactly the VLANs with pools. -/
  vfta : ∀ v : Fin 4096, t.vftaBit v = true ↔ (m v).Nonempty

/-- The slots `1..63` stand for the non-zero VLANs, slot 0 for VLAN 0. -/
structure TableInv (t : VlanRegs) (m : VlanMap) : Prop where
  members : Members (fun _ => True) t m
  slot0 : t.vlvf 0 = if m 0 = ∅ then 0 else vlvfWord 0
  pools0 : ∀ p : Fin 64, t.poolBit 0 p = true ↔ p ∈ m 0
  vfta : ∀ v : Fin 4096, t.vftaBit v = true ↔ (m v).Nonempty

variable {t : VlanRegs} {m : VlanMap}

variable {v : Fin 4096} {i : ℕ}

theorem TableInv.eq_of_word (h : TableInv t m) {j : ℕ} (hi : i < 64) (hj : j < 64)
    (hwi : t.vlvf i = vlvfWord v) (hwj : t.vlvf j = vlvfWord v) : i = j := by
  -- slot 0 is the only one that may hold VLAN 0
  have hzero : ∀ k < 64, t.vlvf k = vlvfWord v → (k = 0 ↔ v = 0) := by
    intro k hk hw
    by_cases hk0 : k = 0
    · subst hk0
      rw [h.slot0] at hw
      by_cases hm : m 0 = ∅
      · rw [if_pos hm] at hw
        exact absurd hw.symm (vlvfWord_ne_zero v)
      · rw [if_neg hm] at hw
        exact ⟨fun _ => (vlvfWord_fin_inj (u := 0) hw).symm, fun _ => rfl⟩
    · obtain ⟨u, hu0, hu⟩ := h.members.shape.exists_vlan (Nat.pos_of_ne_zero hk0) hk
        (hw ▸ vlvfWord_ne_zero v)
      have hvu := vlvfWord_fin_inj (hw.symm.trans hu)
      exact ⟨fun hk => absurd hk hk0, fun hv => absurd (hvu.symm.trans hv) hu0⟩
  by_cases hv : v = 0
  · rw [(hzero i hi hwi).mpr hv, (hzero j hj hwj).mpr hv]
  · have hi0 : i ≠ 0 := fun h0 => hv ((hzero i hi hwi).mp h0)
    have hj0 : j ≠ 0 := fun h0 => hv ((hzero j hj hwj).mp h0)
    exact h.members.shape.inj i (Nat.pos_of_ne_zero hi0) hi j (Nat.pos_of_ne_zero hj0) hj
      (hwi.trans hwj.symm) (hwi ▸ vlvfWord_ne_zero v)

theorem TableInv.owns (h : TableInv t m) (v : Fin 4096) (hv : (m v).Nonempty) :
    ∃ i, Owns t v (m v) i := by
  by_cases hv0 : v = 0
  · subst hv0
    refine ⟨0, by decide, fun _ => rfl, fun h0 => absurd rfl h0, ?_, h.pools0⟩
    rw [h.slot0, if_neg hv.ne_empty]
    rfl
  · obtain ⟨i, h1, h2, hw⟩ := h.members.owned v hv0 hv
    exact ⟨i, h2, fun h0 => absurd h0 hv0, fun _ => h1, hw,
      fun p => (h.members.slot i h1 h2 v hw).2 p trivial⟩

theorem TableInv.represents (h : TableInv t m) : Represents t m := by
  refine ⟨fun v hv => ?_, fun i hi hno => ?_, h.vfta⟩
  · obtain ⟨i, hown⟩ := h.owns v hv
    exact ⟨i, hown, fun j hj hwj => h.eq_of_word hj hown.lt hwj hown.word⟩
  · rw [noPools_iff]
    by_cases hi0 : i = 0
    · subst hi0
      have hm : m 0 = ∅ := by
        by_contra hm
        have hne := nonempty_iff_ne_empty.mpr hm
        refine hno ⟨0, hne, by decide, fun _ => rfl, fun h0 => absurd rfl h0, ?_, h.pools0⟩
        rw [h.slot0, if_neg hm]
        rfl
      refine ⟨by rw [h.slot0, if_pos hm], fun q hq => ?_⟩
      have := h.pools0 ⟨q, hq⟩
      simpa [hm] using this
    · have h1 : 1 ≤ i := Nat.pos_of_ne_zero hi0
      by_cases hw : t.vlvf i = 0
      · exact ⟨hw, fun q hq => h.members.free i h1 hi hw ⟨q, hq⟩ trivial⟩
      · obtain ⟨v, hv0, hwv⟩ := h.members.shape.exists_vlan h1 hi hw
        obtain ⟨hne, hpools⟩ := h.members.slot i h1 hi v hwv
        exact absurd ⟨v, hne, hi, fun h0 => absurd h0 hv0, fun _ => h1, hwv,
          fun p => hpools p trivial⟩ hno

theorem TableInv.of_cleared (h : t.Cleared) : TableInv t fun _ => ∅ where
  members := .of_cleared _ h
  slot0 := h.vlvf 0 (by decide)
  pools0 p := by simp [h.pools 0 (by decide) p p.isLt]
  vfta v := by simp [h.vfta v (by omega)]

theorem TableInv.pools_of_slotFor (h : TableInv t m)
    (hs : SlotFor t v false i) (p : Fin 64) : t.poolBit i p = true ↔ p ∈ m v := by
  by_cases hv : v = 0
  · subst hv
    rw [hs.eq_zero_iff.mpr rfl]
    exact h.pools0 p
  · exact h.members.pools_of_slotFor hv hs p trivial

structure SlotWritten (t t' : VlanRegs) (v : Fin 4096) (S : Finset (Fin 64)) (i : ℕ) : Prop extends
    Members.Written (fun _ => True) t t' v S i where
  vfta : t'.vftaBit v = true ↔ S.Nonempty
  vfta_ne : ∀ u : Fin 4096, u ≠ v → t'.vftaBit u = t.vftaBit u

theorem TableInv.update {t' : VlanRegs} {S : Finset (Fin 64)}
    (h : TableInv t m) (hs : SlotFor t v false i) (hw : SlotWritten t t' v S i) :
    TableInv t' (Function.update m v S) := by
  have hvfta : ∀ u : Fin 4096, t'.vftaBit u = true ↔ (Function.update m v S u).Nonempty := by
    refine (Function.forall_update_iff m fun u S => t'.vftaBit u = true ↔ S.Nonempty).mpr
      ⟨hw.vfta, fun u huv => ?_⟩
    rw [hw.vfta_ne u huv]
    exact h.vfta u
  by_cases hv : v = 0
  · subst hv
    have hi : i = 0 := hs.eq_zero_iff.mpr rfl
    subst hi
    refine ⟨h.members.congr (fun j h1 h2 => (hw.same j h2 (by omega)).vlvf)
      (fun j h1 h2 p _ => (hw.same j h2 (by omega)).pools p p.isLt) fun u hu => ?_, ?_, ?_, hvfta⟩
    · rw [Function.update_of_ne hu]
    · rw [Function.update_self]
      exact hw.vlvf
    · rw [Function.update_self]
      exact fun p => hw.pools p trivial
  · have hi : i ≠ 0 := fun h0 => hv (Fin.ext (hs.eq_zero_iff.mp h0))
    have h0 := hw.same 0 (by decide) (Ne.symm hi)
    refine ⟨h.members.update hv hs hw.toWritten, ?_, fun p => ?_, hvfta⟩
    · rw [Function.update_of_ne (Ne.symm hv), h0.vlvf]
      exact h.slot0
    · rw [Function.update_of_ne (Ne.symm hv), h0.pools p p.isLt]
      exact h.pools0 p

theorem VftaCall.exec_error_iff (hvt : t.VtOn) (c : VftaCall) :
    ((c.exec t).1 ≠ success ↔ NoSlot t c.vlan false) ∧
      ((c.exec t).1 ≠ success → (c.exec t).2 = t) := by
  obtain ⟨v, p, on⟩ := c
  have hstep := setVftaGeneric_step t (by omega : (v : ℕ) ≤ 4095) p.isLt on false
  have hok : ∀ {i}, SlotFor t v false i → (success ≠ success ↔ NoSlot t v false) :=
    fun hs => ⟨fun h => absurd rfl h, fun h => absurd h hs.not_noSlot⟩
  unfold VftaCall.exec
  generalize setVftaGeneric t v p on false = r at hstep
  cases hstep with
  | noSpace _ _ hn => exact ⟨⟨fun _ => hn, fun _ => by simp [errNoSpace, success]⟩, fun _ => rfl⟩
  | vftaOnly _ _ hoff =>
    rcases hoff with hoff | ⟨hb, -⟩
    · exact absurd hvt hoff
    · exact absurd hb (by decide)
  | join _ i _ hs => exact ⟨hok hs, fun h => absurd rfl h⟩
  | release _ i _ hs _ => exact ⟨hok hs, fun h => absurd rfl h⟩
  | leave _ i _ hs _ => exact ⟨hok hs, fun h => absurd rfl h⟩

theorem VftaCall.exec_vtOn (c : VftaCall) : (c.exec t).2.VtOn ↔ t.VtOn := by
  obtain ⟨v, p, on⟩ := c
  have hstep := setVftaGeneric_step t (by omega : (v : ℕ) ≤ 4095) p.isLt on false
  unfold VftaCall.exec
  generalize setVftaGeneric t v p on false = r at hstep
  cases hstep <;> exact Iff.rfl

theorem TableInv.othersEmpty_iff (h : TableInv t m)
    (hs : SlotFor t v false i) (p : Fin 64) : t.OthersEmpty i p ↔ (m v).erase p = ∅ := by
  rw [eq_empty_iff_forall_notMem]
  constructor
  · intro ho q hq
    obtain ⟨hqp, hqm⟩ := mem_erase.mp hq
    have := ho q q.isLt (fun heq => hqp (Fin.ext heq))
    rw [(h.pools_of_slotFor hs q).mpr hqm] at this
    exact absurd this (by decide)
  · intro he q hq hqp
    by_contra hbit
    have hqm := (h.pools_of_slotFor hs ⟨q, hq⟩).mp (by simpa using hbit)
    exact he _ (mem_erase.mpr ⟨fun heq => hqp (congrArg Fin.val heq), hqm⟩)

theorem TableInv.written (h : TableInv t m) (hs : SlotFor t v false i)
    (p : Fin 64) {b : Bool} {S : Finset (Fin 64)} {x : U32} {t' : VlanRegs}
    (hS : ∀ q, q ∈ S ↔ if q = p then b = true else q ∈ m v)
    (hx : x = if S = ∅ then 0 else vlvfWord v) (ht' : t' = (t.setPool i p b).writeVlvf i x ∨
      ∃ on, t' = ((t.setPool i p b).writeVlvf i x).setVftaBit v on)
    (hvfta : t'.vftaBit v = true ↔ S.Nonempty) : SlotWritten t t' v S i := by
  have hvlvf : t'.vlvf = ((t.setPool i p b).writeVlvf i x).vlvf := by
    rcases ht' with rfl | ⟨on, rfl⟩ <;> rfl
  have hpool : ∀ (j : ℕ) {q : ℕ}, q < 64 →
      t'.poolBit j q = if j = i ∧ q = p then b else t.poolBit j q := by
    intro j q hq
    have := setPool_poolBit (t := t) (i := i) (j := j) b p.isLt hq
    rcases ht' with rfl | ⟨on, rfl⟩ <;> exact this
  refine ⟨⟨?_, fun q _ => ?_, fun _ _ => trivial, fun j hj hji => ⟨?_, fun q hq => ?_⟩⟩, hvfta,
    fun u huv => ?_⟩
  · rw [hvlvf, writeVlvf_vlvf_self, hx]
  · rw [hpool i q.isLt, hS]
    by_cases hq : q = p
    · simp [hq]
    · simp [hq, Fin.val_ne_of_ne hq, h.pools_of_slotFor hs q]
  · rw [hvlvf, writeVlvf_vlvf, if_neg hji, setPool_vlvf]
  · rw [hpool j hq, if_neg fun hc => hji hc.1]
  · have huv' : (u : ℕ) ≠ v := fun heq => huv (Fin.ext heq)
    rcases ht' with rfl | ⟨on, rfl⟩
    · rfl
    · rw [setVftaBit_vftaBit, if_neg huv', writeVlvf_vftaBit, setPool_vftaBit]

theorem TableInv.exec (h : TableInv t m) (hvt : t.VtOn) (c : VftaCall) :
    TableInv (c.exec t).2 (c.apply m) := by
  obtain ⟨v, p, on⟩ := c
  have hstep := setVftaGeneric_step t (by omega : (v : ℕ) ≤ 4095) p.isLt on false
  unfold VftaCall.exec VftaCall.apply
  dsimp only
  generalize setVftaGeneric t v p on false = r at hstep
  cases hstep with
  | vftaOnly _ _ hoff =>
    rcases hoff with hoff | ⟨hb, -⟩
    · exact absurd hvt hoff
    · exact absurd hb (by decide)
  | noSpace _ _ hn =>
    -- the map has no room either, and the pool was not in
    have hrej := (h.members.rejects_iff v).mpr hn
    cases on with
    | true =>
      rw [if_pos rfl, BoundedMultimap.join, if_pos hrej]
      exact h
    | false =>
      rw [if_neg (by decide), leave_of_empty p hrej.2.1]
      exact h
  | join _ i _ hs =>
    have hroom : ¬ Rejects 0 63 m v := by
      rw [h.members.rejects_iff]
      exact hs.not_noSlot
    rw [if_pos rfl, BoundedMultimap.join, if_neg hroom]
    refine h.update hs (h.written hs p (b := true) ?_ ?_ (.inr ⟨true, rfl⟩) ?_)
    · intro q
      by_cases hq : q = p <;> simp [hq]
    · rw [if_neg (insert_ne_empty p (m v))]
    · simp [setVftaBit_vftaBit]
  | release _ i _ hs ho =>
    have hS := (h.othersEmpty_iff hs p).mp ho
    refine h.update hs (h.written hs p (b := false) ?_ ?_ (.inr ⟨false, rfl⟩) ?_)
    · intro q
      by_cases hq : q = p <;> simp [hq]
    · rw [if_pos hS]
    · simp [setVftaBit_vftaBit, hS]
  | leave _ i _ hs ho =>
    have hS : (m v).erase p ≠ ∅ := fun hS => ho ((h.othersEmpty_iff hs p).mpr hS)
    have hne := nonempty_iff_ne_empty.mpr hS
    rw [if_neg (by decide), BoundedMultimap.leave]
    refine h.update hs (h.written hs p (b := false) ?_ ?_ (.inl rfl) ?_)
    · intro q
      rw [mem_erase]
      by_cases hq : q = p <;> simp [hq]
    · rw [if_neg hS]
    · -- the VFTA bit was set, as the VLAN had pools
      rw [writeVlvf_vftaBit, setPool_vftaBit, h.vfta v]
      exact ⟨fun _ => hne, fun hne => hne.mono (erase_subset _ _)⟩

/-- **The VLAN filter refines the bounded map**; a call fails iff its VLAN is non-zero, has no slot,
and all of `1..63` are occupied, and then no register changes. -/
theorem setVfta_run_represents (t₀ : VlanRegs) (hvt : t₀.VtOn) (calls : List VftaCall) :
    let t := run (fun t c => (VftaCall.exec t c).2) (clearVftaGeneric t₀) calls
    Represents t (run VftaCall.apply (fun _ => ∅) calls) ∧
      ∀ c : VftaCall,
        ((c.exec t).1 ≠ success ↔
          c.vlan ≠ 0 ∧ (¬ ∃ i, i < 64 ∧ t.vlvf i = vlvfWord c.vlan) ∧
            ∀ i, 1 ≤ i → i ≤ 63 → t.vlvf i ≠ 0) ∧
        ((c.exec t).1 ≠ success → (c.exec t).2 = t) := by
  intro t
  have hstart : (clearVftaGeneric t₀).VtOn ∧ TableInv (clearVftaGeneric t₀) fun _ => ∅ :=
    ⟨(clearVftaGeneric_vtOn t₀).mpr hvt, .of_cleared (clearVftaGeneric_cleared t₀)⟩
  have hrun : t.VtOn ∧ TableInv t (run VftaCall.apply (fun _ => ∅) calls) :=
    run_sim (R := fun t m => t.VtOn ∧ TableInv t m)
      (fun t m c h => ⟨c.exec_vtOn.mpr h.1, h.2.exec h.1 c⟩) hstart
  refine ⟨hrun.2.represents, fun c => ?_⟩
  obtain ⟨hiff, hkeep⟩ := c.exec_error_iff hrun.1
  refine ⟨hiff.trans ?_, hkeep⟩
  have hv0 : (c.vlan : ℕ) ≠ 0 ↔ c.vlan ≠ 0 := by omega
  rw [NoSlot, hv0]
  refine and_congr_right fun hv => and_congr (not_congr ⟨?_, ?_⟩) ⟨?_, ?_⟩
  · rintro ⟨i, -, hi, hw⟩
    exact ⟨i, hi, hw⟩
  · rintro ⟨i, hi, hw⟩
    -- slot 0 holds VLAN 0 only
    have hi0 : i ≠ 0 := by
      rintro rfl
      rw [hrun.2.slot0] at hw
      split at hw
      · exact vlvfWord_ne_zero _ hw.symm
      · exact hv (vlvfWord_fin_inj (u := 0) hw).symm
    exact ⟨i, by omega, hi, hw⟩
  · exact fun h i h1 h2 => h rfl i h1 (by omega)
  · exact fun h _ i h1 h2 => h i h1 (by omega)

theorem setVfta_run_represents_join_leave :
    Represents (run (fun t c => (VftaCall.exec t c).2) (clearVftaGeneric vtOnlyRegs)
        [⟨5, 3, true⟩, ⟨5, 40, true⟩, ⟨5, 3, false⟩])
      (run VftaCall.apply (fun _ => ∅) [⟨5, 3, true⟩, ⟨5, 40, true⟩, ⟨5, 3, false⟩]) :=
  (setVfta_run_represents vtOnlyRegs (by decide) [⟨5, 3, true⟩, ⟨5, 40, true⟩, ⟨5, 3, false⟩]).1

end Ixgbe
