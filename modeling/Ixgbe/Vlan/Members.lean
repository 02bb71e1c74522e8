import Mathlib.Order.Interval.Finset.Nat
import Ixgbe.Library.BoundedMultimap
import Ixgbe.Vlan.Ops

/-! # The slots as a map from VLANs to pools

`Members P t m` reads the slots `1..63` of `t` as the map `m`, looking only at the pools that
satisfy `P`. -/

namespace Ixgbe

open VlanRegs BoundedMultimap Finset Function

abbrev VlanMap := Fin 4096 → Finset (Fin 64)

/-- In the slots `1..63`, the pools among `P` are those of the map `m`. -/
structure Members (P : ℕ → Prop) (t : VlanRegs) (m : VlanMap) : Prop where
  shape : SlotShape t
  slot : ∀ i, 1 ≤ i → i < 64 → ∀ v : Fin 4096, t.vlvf i = vlvfWord v →
    (m v).Nonempty ∧ ∀ p : Fin 64, P p → (t.poolBit i p = true ↔ p ∈ m v)
  tracked : ∀ v ≠ 0, ∀ p ∈ m v, P p
  owned : ∀ v : Fin 4096, v ≠ 0 → (m v).Nonempty → t.Held v
  free : ∀ i, 1 ≤ i → i < 64 → t.vlvf i = 0 → ∀ p : Fin 64, P p → t.poolBit i p = false

theorem vlvfWord_fin_inj {u v : Fin 4096} (h : vlvfWord u = vlvfWord v) : u = v :=
  Fin.ext (vlvfWord_inj (by omega) (by omega) h)

def slotVlan (x : U32) : Fin 4096 := Fin.ofNat 4096 (vlvfVid x)

theorem slotVlan_vlvfWord (v : Fin 4096) : slotVlan (vlvfWord v) = v := by
  apply Fin.ext
  rw [slotVlan, vlvfVid_vlvfWord (by omega), Fin.val_ofNat, Nat.mod_eq_of_lt v.isLt]

theorem SlotShape.exists_vlan {t : VlanRegs} (h : SlotShape t) {i : ℕ} (h1 : 1 ≤ i) (h2 : i < 64)
    (hne : t.vlvf i ≠ 0) : ∃ v : Fin 4096, v ≠ 0 ∧ t.vlvf i = vlvfWord v := by
  obtain ⟨v, hv1, hv2, hw⟩ := (h.word i h1 h2).resolve_left hne
  refine ⟨⟨v, by omega⟩, fun h0 => ?_, hw⟩
  have : v = 0 := congrArg Fin.val h0
  omega

namespace Members

variable {P : ℕ → Prop} {t t' : VlanRegs} {m : VlanMap} {v : Fin 4096} {i : ℕ}

theorem of_cleared (P : ℕ → Prop) (h : t.Cleared) : Members P t fun _ => ∅ where
  shape := ⟨fun i _ hi => .inl (h.vlvf i hi), fun i _ hi _ _ _ _ hne => absurd (h.vlvf i hi) hne⟩
  slot i _ hi v hw := absurd (hw.symm.trans (h.vlvf i hi)) (vlvfWord_ne_zero v)
  tracked _ _ p hp := absurd hp (notMem_empty p)
  owned _ _ hne := absurd hne Finset.not_nonempty_empty
  free i _ hi _ p _ := h.pools i hi p p.isLt

theorem held_iff (h : Members P t m) (hv : v ≠ 0) : t.Held v ↔ (m v).Nonempty := by
  constructor
  · rintro ⟨i, h1, h2, hw⟩
    exact (h.slot i h1 h2 v hw).1
  · exact h.owned v hv

theorem rejects_iff (h : Members P t m) (v : Fin 4096) : Rejects 0 63 m v ↔ NoSlot t v false := by
  have hv0 : v ≠ 0 ↔ (v : ℕ) ≠ 0 := by omega
  -- the slots in use carry exactly the non-zero VLANs with pools
  have hcard := card_le_occupied_iff (r := 0) (m := m) (Finset.Icc 1 63)
    (fun i => slotVlan (t.vlvf i)) (fun i => t.vlvf i ≠ 0)
    (by
      intro i hi j hj hui huj heq
      rw [mem_Icc] at hi hj
      obtain ⟨u, -, hu⟩ := h.shape.exists_vlan hi.1 (by omega) hui
      obtain ⟨w, -, hw⟩ := h.shape.exists_vlan hj.1 (by omega) huj
      have huw : u = w := by
        rwa [hu, hw, slotVlan_vlvfWord, slotVlan_vlvfWord] at heq
      exact h.shape.inj i hi.1 (by omega) j hj.1 (by omega) (by rw [hu, hw, huw]) hui)
    (by
      intro i hi hui
      rw [mem_Icc] at hi
      obtain ⟨u, hu0, hu⟩ := h.shape.exists_vlan hi.1 (by omega) hui
      rw [hu, slotVlan_vlvfWord, mem_occupied]
      exact ⟨hu0, (h.slot i hi.1 (by omega) u hu).1⟩)
    (by
      intro k hk
      rw [mem_occupied] at hk
      obtain ⟨i, h1, hi, hw⟩ := (h.held_iff hk.1).mpr hk.2
      exact ⟨i, mem_Icc.mpr ⟨h1, by omega⟩, hw ▸ vlvfWord_ne_zero k,
        by rw [hw, slotVlan_vlvfWord]⟩)
  rw [Nat.card_Icc] at hcard
  unfold Rejects NoSlot
  rw [← hv0]
  refine and_congr_right fun hv => ?_
  rw [h.held_iff hv, not_nonempty_iff_eq_empty, hcard]
  refine and_congr_right fun _ => ⟨fun hu _ i h1 h2 => ?_, fun hu i hi => ?_⟩
  · exact hu i (mem_Icc.mpr ⟨h1, by omega⟩)
  · rw [mem_Icc] at hi
    exact hu rfl i hi.1 (by omega)

theorem pools_of_slotFor (h : Members P t m) (hv : v ≠ 0) (hs : SlotFor t v false i) :
    ∀ p : Fin 64, P p → (t.poolBit i p = true ↔ p ∈ m v) := by
  have hv0 : (v : ℕ) ≠ 0 := fun h0 => hv (Fin.ext h0)
  cases hs with
  | reserved h0 => exact absurd h0 hv0
  | held _ _ hi hi' hw => exact (h.slot i hi hi' v hw).2
  | free _ _ _ hn hi hi' hw _ =>
    intro p hp
    have hempty : m v = ∅ := by
      rw [← not_nonempty_iff_eq_empty, ← h.held_iff hv]
      exact hn
    simp [hempty, h.free i hi hi' hw p hp]

/-- What gives the non-zero VLAN `v` the pool set `S` in slot `i`. -/
structure Written (P : ℕ → Prop) (t t' : VlanRegs) (v : Fin 4096) (S : Finset (Fin 64)) (i : ℕ) :
    Prop where
  vlvf : t'.vlvf i = if S = ∅ then 0 else vlvfWord v
  pools : ∀ p : Fin 64, P p → (t'.poolBit i p = true ↔ p ∈ S)
  tracked : ∀ p ∈ S, P p
  same : ∀ j < 64, j ≠ i → SameSlot t t' j

theorem update {S : Finset (Fin 64)} (h : Members P t m) (hv : v ≠ 0) (hs : SlotFor t v false i)
    (hw : Written P t t' v S i) : Members P t' (update m v S) := by
  have hv0 : (v : ℕ) ≠ 0 := fun h0 => hv (Fin.ext h0)
  have hi := hs.pos hv0
  -- the entries are those of writing slot `i`
  have hvlvf : ∀ j, 1 ≤ j → j < 64 →
      t'.vlvf j = (t.writeVlvf i (if S = ∅ then 0 else vlvfWord v)).vlvf j := by
    intro j _ hj
    rw [writeVlvf_vlvf]
    by_cases hji : j = i
    · rw [if_pos hji, hji, hw.vlvf]
    · rw [if_neg hji, (hw.same j hj hji).vlvf]
  have hshape : SlotShape (t.writeVlvf i (if S = ∅ then 0 else vlvfWord v)) := by
    split
    · exact h.shape.writeVlvf_zero i
    · exact h.shape.writeVlvf_word (by omega) hs
  constructor
  case shape =>
    refine ⟨fun j h1 h2 => ?_, fun j h1 h2 k h3 h4 => ?_⟩
    · rw [hvlvf j h1 h2]
      exact hshape.word j h1 h2
    · rw [hvlvf j h1 h2, hvlvf k h3 h4]
      exact hshape.inj j h1 h2 k h3 h4
  case slot =>
    intro j h1 h2 u hu
    by_cases hji : j = i
    · subst hji
      rw [hw.vlvf] at hu
      by_cases hS : S = ∅
      · rw [if_pos hS] at hu
        exact absurd hu.symm (vlvfWord_ne_zero u)
      · rw [if_neg hS] at hu
        have huv := vlvfWord_fin_inj hu
        subst huv
        rw [update_self]
        exact ⟨nonempty_iff_ne_empty.mpr hS, hw.pools⟩
    · rw [(hw.same j h2 hji).vlvf] at hu
      have huv : u ≠ v := fun huv =>
        hji (h.shape.eq_of_slotFor hs h1 h2 (huv ▸ hu) hv0)
      rw [update_of_ne huv]
      refine ⟨(h.slot j h1 h2 u hu).1, fun p hp => ?_⟩
      rw [(hw.same j h2 hji).pools p p.isLt]
      exact (h.slot j h1 h2 u hu).2 p hp
  case tracked =>
    intro u hu p hp
    by_cases huv : u = v
    · rw [huv, update_self] at hp
      exact hw.tracked p hp
    · rw [update_of_ne huv] at hp
      exact h.tracked u hu p hp
  case owned =>
    intro u hu hne
    by_cases huv : u = v
    · subst huv
      rw [update_self] at hne
      exact ⟨i, hi, hs.lt, by rw [hw.vlvf, if_neg hne.ne_empty]⟩
    · rw [update_of_ne huv] at hne
      obtain ⟨j, h1, h2, hjw⟩ := h.owned u hu hne
      -- slot `i` was free or held `v`, so it is not the slot of `u`
      have hji : j ≠ i := by
        rintro rfl
        cases hs with
        | reserved h0 => exact hv0 h0
        | held _ _ _ _ hwv => exact huv (vlvfWord_fin_inj (hjw.symm.trans hwv))
        | free _ _ _ _ _ _ h0 _ => exact vlvfWord_ne_zero u (hjw.symm.trans h0)
      exact ⟨j, h1, h2, by rw [(hw.same j h2 hji).vlvf, hjw]⟩
  case free =>
    intro j h1 h2 hz p hp
    by_cases hji : j = i
    · subst hji
      rw [hw.vlvf] at hz
      have hS : S = ∅ := by
        by_contra hS
        rw [if_neg hS] at hz
        exact vlvfWord_ne_zero v hz
      have := hw.pools p hp
      simpa [hS] using this
    · rw [(hw.same j h2 hji).vlvf] at hz
      rw [(hw.same j h2 hji).pools p p.isLt]
      exact h.free j h1 h2 hz p hp

theorem congr (h : Members P t m) (hvlvf : ∀ j, 1 ≤ j → j < 64 → t'.vlvf j = t.vlvf j)
    (hpools : ∀ j, 1 ≤ j → j < 64 → ∀ p : Fin 64, P p → t'.poolBit j p = t.poolBit j p)
    {m' : VlanMap} (hm : ∀ u ≠ 0, m' u = m u) : Members P t' m' := by
  have hu0 : ∀ j, 1 ≤ j → j < 64 → ∀ u : Fin 4096, t.vlvf j = vlvfWord u → u ≠ 0 := by
    intro j h1 h2 u hu
    obtain ⟨w, hw0, hw⟩ := h.shape.exists_vlan h1 h2 (hu ▸ vlvfWord_ne_zero u)
    rwa [vlvfWord_fin_inj (hu.symm.trans hw)]
  constructor
  case shape =>
    refine ⟨fun j h1 h2 => ?_, fun j h1 h2 k h3 h4 => ?_⟩
    · rw [hvlvf j h1 h2]
      exact h.shape.word j h1 h2
    · rw [hvlvf j h1 h2, hvlvf k h3 h4]
      exact h.shape.inj j h1 h2 k h3 h4
  case slot =>
    intro j h1 h2 u hu
    rw [hvlvf j h1 h2] at hu
    rw [hm u (hu0 j h1 h2 u hu)]
    refine ⟨(h.slot j h1 h2 u hu).1, fun p hp => ?_⟩
    rw [hpools j h1 h2 p hp]
    exact (h.slot j h1 h2 u hu).2 p hp
  case tracked =>
    intro u hu p hp
    rw [hm u hu] at hp
    exact h.tracked u hu p hp
  case owned =>
    intro u hu hne
    rw [hm u hu] at hne
    obtain ⟨j, h1, h2, hw⟩ := h.owned u hu hne
    exact ⟨j, h1, h2, (hvlvf j h1 h2).trans hw⟩
  case free =>
    intro j h1 h2 hz p hp
    rw [hvlvf j h1 h2] at hz
    rw [hpools j h1 h2 p hp]
    exact h.free j h1 h2 hz p hp

end Members

end Ixgbe
