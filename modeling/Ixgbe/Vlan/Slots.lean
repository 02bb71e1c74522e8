import Ixgbe.Vlan.Filter

/-! # What one call of the VLAN filter routines does

The slot search is inverted (`SlotSearch`), and `setVftaGeneric` has five outcomes (`VftaStep`). -/

namespace Ixgbe

open WordArray BitVec VlanRegs

namespace VlanRegs

variable (t : VlanRegs)

def poolBit (i p : ℕ) : Bool := bit t.vlvfb (64 * i + p)

def vftaBit (v : ℕ) : Bool := bit t.vfta v

def setPool (i p : ℕ) (b : Bool) : VlanRegs := { t with vlvfb := setBit t.vlvfb (64 * i + p) b }

def setVftaBit (v : ℕ) (b : Bool) : VlanRegs := { t with vfta := setBit t.vfta v b }

def VtOn : Prop := t.vtCtl &&& vtCtlVtEnable ≠ 0

instance : Decidable t.VtOn := inferInstanceAs (Decidable (_ ≠ _))

def OthersEmpty (i p : ℕ) : Prop := ∀ q < 64, q ≠ p → t.poolBit i q = false

def NoPools (i : ℕ) : Prop := ∀ q < 64, t.poolBit i q = false

instance (i p : ℕ) : Decidable (t.OthersEmpty i p) := inferInstanceAs (Decidable (∀ q < 64, _))

instance (i : ℕ) : Decidable (t.NoPools i) := inferInstanceAs (Decidable (∀ q < 64, _))

def Held (v : ℕ) : Prop := ∃ i, 1 ≤ i ∧ i < 64 ∧ t.vlvf i = vlvfWord v

variable {t}

@[simp] theorem setPool_vlvf (i p : ℕ) (b : Bool) : (t.setPool i p b).vlvf = t.vlvf := rfl

@[simp] theorem setPool_vftaBit (i p : ℕ) (b : Bool) (v : ℕ) :
    (t.setPool i p b).vftaBit v = t.vftaBit v := rfl

@[simp] theorem setVftaBit_vlvf (v : ℕ) (b : Bool) : (t.setVftaBit v b).vlvf = t.vlvf := rfl

@[simp] theorem setVftaBit_poolBit (v : ℕ) (b : Bool) (i p : ℕ) :
    (t.setVftaBit v b).poolBit i p = t.poolBit i p := rfl

section

variable (i : ℕ)

@[simp] theorem writeVlvf_poolBit (x : U32) (j p : ℕ) :
    (t.writeVlvf i x).poolBit j p = t.poolBit j p := rfl

@[simp] theorem writeVlvf_vftaBit (x : U32) (v : ℕ) :
    (t.writeVlvf i x).vftaBit v = t.vftaBit v := rfl

theorem writeVlvf_vlvf (x : U32) (j : ℕ) :
    (t.writeVlvf i x).vlvf j = if j = i then x else t.vlvf j :=
  Function.update_apply ..

@[simp] theorem writeVlvf_vlvf_self (x : U32) : (t.writeVlvf i x).vlvf i = x :=
  Function.update_self ..

theorem setVftaBit_vftaBit (v : ℕ) (b : Bool) (u : ℕ) :
    (t.setVftaBit v b).vftaBit u = if u = v then b else t.vftaBit u :=
  bit_setBit (by decide) t.vfta v u b

theorem setPool_poolBit {i p j q : ℕ} (b : Bool) (hp : p < 64) (hq : q < 64) :
    (t.setPool i p b).poolBit j q = if j = i ∧ q = p then b else t.poolBit j q := by
  have hiff : 64 * j + q = 64 * i + p ↔ j = i ∧ q = p := by omega
  rw [poolBit, setPool, bit_setBit (by decide)]
  simp only [hiff, poolBit]

theorem setPool_poolBit_slot {p q : ℕ} (b : Bool) (hp : p < 64) (hq : q < 64) :
    (t.setPool i p b).poolBit i q = if q = p then b else t.poolBit i q := by
  rw [setPool_poolBit b hp hq]
  simp only [true_and]

theorem noPools_setPool {i p : ℕ} (hp : p < 64) (ho : t.OthersEmpty i p) :
    (t.setPool i p false).NoPools i := by
  intro q hq
  rw [setPool_poolBit_slot i false hp hq]
  by_cases hqp : q = p
  · rw [if_pos hqp]
  · rw [if_neg hqp]
    exact ho q hq hqp

theorem getLsbD_vlvfb (i h : ℕ) {j : ℕ} (hj : j < 32) :
    (t.vlvfb (i * 2 + h)).getLsbD j = t.poolBit i (32 * h + j) := by
  have hdiv : (64 * i + (32 * h + j)) / 32 = i * 2 + h := by omega
  have hmod : (64 * i + (32 * h + j)) % 32 = j := by omega
  rw [poolBit, bit, hdiv, hmod]

theorem othersEmpty_iff {p : ℕ} (hp : p < 64) :
    (t.vlvfb (i * 2 + p / 32) &&& ~~~(shl1 (p % 32)) = 0 ∧ t.vlvfb (i * 2 + (1 - p / 32)) = 0) ↔
      t.OthersEmpty i p := by
  have hown : t.vlvfb (i * 2 + p / 32) &&& ~~~(shl1 (p % 32)) = 0 ↔
      ∀ j < 32, j ≠ p % 32 → t.poolBit i (32 * (p / 32) + j) = false :=
    (and_not_mask_eq_zero_iff _ _).trans
      (forall₂_congr fun j hj => by rw [getLsbD_vlvfb i _ hj])
  have hother : t.vlvfb (i * 2 + (1 - p / 32)) = 0 ↔
      ∀ j < 32, t.poolBit i (32 * (1 - p / 32) + j) = false :=
    (eq_zero_iff _).trans (forall₂_congr fun j hj => by rw [getLsbD_vlvfb i _ hj])
  rw [hown, hother]
  constructor
  · rintro ⟨h1, h2⟩ q hq hqp
    by_cases hword : q / 32 = p / 32
    · have := h1 (q % 32) (by omega) (by omega)
      rwa [← hword, Nat.div_add_mod] at this
    · have := h2 (q % 32) (by omega)
      rwa [show 1 - p / 32 = q / 32 by omega, Nat.div_add_mod] at this
  · intro h
    exact ⟨fun j hj hjp => h _ (by omega) (by omega), fun j hj => h _ (by omega) (by omega)⟩

theorem noPools_iff : t.vlvfb (i * 2) = 0 ∧ t.vlvfb (i * 2 + 1) = 0 ↔ t.NoPools i := by
  have hword : ∀ h, t.vlvfb (i * 2 + h) = 0 ↔ ∀ j < 32, t.poolBit i (32 * h + j) = false :=
    fun h => (eq_zero_iff _).trans (forall₂_congr fun j hj => by rw [getLsbD_vlvfb i _ hj])
  have h0 := hword 0
  rw [Nat.add_zero] at h0
  rw [h0, hword 1]
  constructor
  · rintro ⟨h1, h2⟩ q hq
    by_cases hlow : q < 32
    · simpa using h1 q hlow
    · have := h2 (q - 32) (by omega)
      rwa [show 32 * 1 + (q - 32) = q by omega] at this
  · intro h
    exact ⟨fun j hj => h _ (by omega), fun j hj => h _ (by omega)⟩

theorem writeVlvfb_putBit (p : ℕ) (b : Bool) :
    t.writeVlvfb (i * 2 + p / 32) (putBit (t.vlvfb (i * 2 + p / 32)) (p % 32) b) =
      t.setPool i p b := by
  have hdiv : (64 * i + p) / 32 = i * 2 + p / 32 := by omega
  have hmod : (64 * i + p) % 32 = p % 32 := by omega
  rw [setPool, setBit, hdiv, hmod, writeVlvfb]

end

end VlanRegs

def vlvfVid (x : U32) : ℕ := (x &&& 0xFFF#32).toNat

theorem vlvfVid_vlvfWord {v : ℕ} (hv : v ≤ 4095) : vlvfVid (vlvfWord v) = v := by
  have hmask : (vlvfVien ||| BitVec.ofNat 32 v) &&& 0xFFF#32 = BitVec.ofNat 32 v &&& 0xFFF#32 := by
    rw [vlvfVien, BitVec.and_comm, and_or_distrib_left, BitVec.and_comm (BitVec.ofNat 32 v)]
    simp
  rw [vlvfVid, vlvfWord, hmask, toNat_and, toNat_ofNat, toNat_ofNat,
    Nat.mod_eq_of_lt (by omega : v < 2 ^ 32), show 0xFFF % 2 ^ 32 = 2 ^ 12 - 1 by decide,
    Nat.and_two_pow_sub_one_eq_mod, Nat.mod_eq_of_lt (by omega)]

@[simp] theorem vlvfVid_zero : vlvfVid 0 = 0 := rfl

theorem vlvfWord_inj {u v : ℕ} (hu : u ≤ 4095) (hv : v ≤ 4095) (h : vlvfWord u = vlvfWord v) :
    u = v := by
  rw [← vlvfVid_vlvfWord hu, ← vlvfVid_vlvfWord hv, h]

theorem vlvfWord_ne_zero (v : ℕ) : vlvfWord v ≠ 0 := by
  intro h
  have := congrArg (fun x => BitVec.getLsbD x 31) h
  simp [vlvfWord, vlvfVien] at this

/-- The slot of VLAN 0, the one that holds the VLAN, or (unless bypassing) the highest free one. -/
inductive SlotFor (t : VlanRegs) (vlan : ℕ) (bypass : Bool) : ℕ → Prop
  | reserved (hv : vlan = 0) : SlotFor t vlan bypass 0
  | held (i : ℕ) (hv : vlan ≠ 0) (hi : 1 ≤ i) (hi' : i < 64) (hw : t.vlvf i = vlvfWord vlan) :
      SlotFor t vlan bypass i
  | free (i : ℕ) (hv : vlan ≠ 0) (hb : bypass = false) (hn : ¬ t.Held vlan) (hi : 1 ≤ i)
      (hi' : i < 64) (hw : t.vlvf i = 0) (hmax : ∀ j, i < j → j < 64 → t.vlvf j ≠ 0) :
      SlotFor t vlan bypass i

/-- The VLAN is in no slot, and no free slot may or can be taken. -/
def NoSlot (t : VlanRegs) (vlan : ℕ) (bypass : Bool) : Prop :=
  vlan ≠ 0 ∧ ¬ t.Held vlan ∧ (bypass = false → ∀ i, 1 ≤ i → i < 64 → t.vlvf i ≠ 0)

inductive SlotSearch (t : VlanRegs) (vlan : ℕ) (bypass : Bool) : ℤ → Prop
  | slot (i : ℕ) (h : SlotFor t vlan bypass i) : SlotSearch t vlan bypass i
  | none (h : NoSlot t vlan bypass) : SlotSearch t vlan bypass errNoSpace

section

variable {t : VlanRegs} {vlan : ℕ} {bypass : Bool} {i : ℕ}

section

variable (h : SlotFor t vlan bypass i)

include h

theorem SlotFor.lt : i < 64 := by
  cases h <;> omega

theorem SlotFor.eq_zero_iff : i = 0 ↔ vlan = 0 := by
  cases h with
  | reserved hv => exact ⟨fun _ => hv, fun _ => rfl⟩
  | held _ hv hi _ _ => exact ⟨fun h0 => by omega, fun h0 => absurd h0 hv⟩
  | free _ hv _ _ hi _ _ _ => exact ⟨fun h0 => by omega, fun h0 => absurd h0 hv⟩

theorem SlotFor.pos (hv : vlan ≠ 0) : 1 ≤ i :=
  Nat.pos_of_ne_zero fun h0 => hv (h.eq_zero_iff.mp h0)

theorem SlotFor.not_noSlot : ¬ NoSlot t vlan bypass := by
  rintro ⟨hv, hheld, hfull⟩
  cases h with
  | reserved hv' => exact hv hv'
  | held _ _ hi hi' hw => exact hheld ⟨i, hi, hi', hw⟩
  | free _ _ hb _ hi hi' hw _ => exact hfull hb i hi hi' hw

end

end

theorem findVlvfSlotFrom_of_ne_zero (vlvf : ℕ → U32) (w : U32) (k : ℕ) {e : ℤ} (he : e ≠ 0) :
    (∃ i, 1 ≤ i ∧ i ≤ k ∧ vlvf i = w ∧ findVlvfSlotFrom vlvf w k e = i) ∨
      ((∀ i, 1 ≤ i → i ≤ k → vlvf i ≠ w) ∧ findVlvfSlotFrom vlvf w k e = e) := by
  induction k with
  | zero => exact .inr ⟨fun i h1 h2 => by omega, by rw [findVlvfSlotFrom, if_neg he]⟩
  | succ k ih =>
    rw [findVlvfSlotFrom]
    by_cases hk : vlvf (k + 1) = w
    · exact .inl ⟨k + 1, by omega, le_rfl, hk, by simp only [hk, if_true]⟩
    · simp only [hk, if_false, he, false_and]
      obtain ⟨i, h1, h2, hw, hr⟩ | ⟨hn, hr⟩ := ih
      · exact .inl ⟨i, h1, by omega, hw, hr⟩
      · refine .inr ⟨fun i h1 h2 => ?_, hr⟩
        rcases Nat.lt_or_ge k i with hki | hki
        · rwa [show i = k + 1 by omega]
        · exact hn i h1 hki

theorem findVlvfSlotFrom_zero (vlvf : ℕ → U32) (w : U32) (k : ℕ) :
    (∃ i, 1 ≤ i ∧ i ≤ k ∧ vlvf i = w ∧ findVlvfSlotFrom vlvf w k 0 = i) ∨
      (∀ i, 1 ≤ i → i ≤ k → vlvf i ≠ w) ∧
        ((∃ i, 1 ≤ i ∧ i ≤ k ∧ vlvf i = 0 ∧ (∀ j, i < j → j ≤ k → vlvf j ≠ 0) ∧
            findVlvfSlotFrom vlvf w k 0 = i) ∨
          (∀ i, 1 ≤ i → i ≤ k → vlvf i ≠ 0) ∧ findVlvfSlotFrom vlvf w k 0 = errNoSpace) := by
  induction k with
  | zero =>
    exact .inr ⟨fun i h1 h2 => by omega, .inr ⟨fun i h1 h2 => by omega, rfl⟩⟩
  | succ k ih =>
    -- a statement about `1..k+1` splits into one about `1..k` and the entry `k+1`
    have hsplit : ∀ {P : ℕ → Prop}, P (k + 1) → (∀ i, 1 ≤ i → i ≤ k → P i) →
        ∀ i, 1 ≤ i → i ≤ k + 1 → P i := by
      intro P hP h i h1 h2
      rcases Nat.lt_or_ge k i with hki | hki
      · rwa [show i = k + 1 by omega]
      · exact h i h1 hki
    rw [findVlvfSlotFrom]
    by_cases hk : vlvf (k + 1) = w
    · exact .inl ⟨k + 1, by omega, le_rfl, hk, by simp only [hk, if_true]⟩
    simp only [hk, if_false, true_and]
    by_cases hz : vlvf (k + 1) = 0
    · -- entry `k+1` becomes the first empty slot
      rw [if_pos hz]
      obtain ⟨i, h1, h2, hw, hr⟩ | ⟨hn, hr⟩ :=
        findVlvfSlotFrom_of_ne_zero vlvf w k (e := ((k + 1 : ℕ) : ℤ)) (by omega)
      · exact .inl ⟨i, h1, by omega, hw, hr⟩
      · exact .inr ⟨hsplit hk hn,
          .inl ⟨k + 1, by omega, le_rfl, hz, fun j h1 h2 => by omega, hr⟩⟩
    · rw [if_neg hz]
      obtain ⟨i, h1, h2, hw, hr⟩ | ⟨hn, ⟨i, h1, h2, hi, hmax, hr⟩ | ⟨hfull, hr⟩⟩ := ih
      · exact .inl ⟨i, h1, by omega, hw, hr⟩
      · refine .inr ⟨hsplit hk hn, .inl ⟨i, h1, by omega, hi, fun j h1 h2 => ?_, hr⟩⟩
        rcases Nat.lt_or_ge k j with hkj | hkj
        · rwa [show j = k + 1 by omega]
        · exact hmax j h1 hkj
      · exact .inr ⟨hsplit hk hn, .inr ⟨hsplit hz hfull, hr⟩⟩

theorem findVlvfSlot_search (t : VlanRegs) (vlan : ℕ) (bypass : Bool) :
    SlotSearch t vlan bypass (findVlvfSlot t vlan bypass) := by
  by_cases hv : vlan = 0
  · rw [findVlvfSlot, if_pos hv]
    exact .slot 0 (.reserved hv)
  have hheld : (∀ i, 1 ≤ i → i ≤ 63 → t.vlvf i ≠ vlvfWord vlan) → ¬ t.Held vlan :=
    fun hn ⟨i, h1, h2, hw⟩ => hn i h1 (by omega) hw
  rw [findVlvfSlot, if_neg hv]
  cases bypass with
  | true =>
    change SlotSearch t vlan true (findVlvfSlotFrom t.vlvf (vlvfWord vlan) 63 errNoSpace)
    obtain ⟨i, h1, h2, hw, hr⟩ | ⟨hn, hr⟩ :=
      findVlvfSlotFrom_of_ne_zero t.vlvf (vlvfWord vlan) 63 (e := errNoSpace) (by decide)
    · rw [hr]
      exact .slot i (.held i hv h1 (by omega) hw)
    · rw [hr]
      exact .none ⟨hv, hheld hn, fun h => absurd h (by decide)⟩
  | false =>
    change SlotSearch t vlan false (findVlvfSlotFrom t.vlvf (vlvfWord vlan) 63 0)
    obtain ⟨i, h1, h2, hw, hr⟩ | ⟨hn, ⟨i, h1, h2, hi, hmax, hr⟩ | ⟨hfull, hr⟩⟩ :=
      findVlvfSlotFrom_zero t.vlvf (vlvfWord vlan) 63
    · rw [hr]
      exact .slot i (.held i hv h1 (by omega) hw)
    · rw [hr]
      exact .slot i (.free i hv rfl (hheld hn) h1 (by omega) hi
        fun j h1 h2 => hmax j h1 (by omega))
    · rw [hr]
      exact .none ⟨hv, hheld hn, fun _ i h1 h2 => hfull i h1 (by omega)⟩

/-- With parameters in range, as it returns. -/
inductive VftaStep (t : VlanRegs) (vlan vind : ℕ) : Bool → Bool → ℤ × VlanRegs → Prop
  /-- No slot for the VLAN: an error, and nothing is written. -/
  | noSpace (on : Bool) (hvt : t.VtOn) (hn : NoSlot t vlan false) :
      VftaStep t vlan vind on false (errNoSpace, t)
  /-- Out of use, or bypassed: only the VFTA bit is written. -/
  | vftaOnly (on bypass : Bool) (h : ¬ t.VtOn ∨ bypass = true ∧ NoSlot t vlan true) :
      VftaStep t vlan vind on bypass (success, t.setVftaBit vlan on)
  /-- The pool joins the VLAN's slot. -/
  | join (bypass : Bool) (i : ℕ) (hvt : t.VtOn) (hs : SlotFor t vlan bypass i) :
      VftaStep t vlan vind true bypass
        (success, ((t.setPool i vind true).writeVlvf i (vlvfWord vlan)).setVftaBit vlan true)
  /-- The last pool leaves: the slot is freed and the VFTA bit cleared. -/
  | release (bypass : Bool) (i : ℕ) (hvt : t.VtOn) (hs : SlotFor t vlan bypass i)
      (ho : t.OthersEmpty i vind) :
      VftaStep t vlan vind false bypass
        (success, ((t.setPool i vind false).writeVlvf i 0).setVftaBit vlan false)
  /-- The pool leaves, others stay: slot and VFTA bit stay as they are. -/
  | leave (bypass : Bool) (i : ℕ) (hvt : t.VtOn) (hs : SlotFor t vlan bypass i)
      (ho : ¬ t.OthersEmpty i vind) :
      VftaStep t vlan vind false bypass
        (success, (t.setPool i vind false).writeVlvf i (vlvfWord vlan))

theorem vfta_xor_delta (x : U32) (k : ℕ) (on : Bool) :
    x ^^^ (shl1 k &&& (if on then ~~~x else x)) = putBit x k on := by
  cases on with
  | true => exact xor_and_not_self x _
  | false => exact xor_and_self x _

theorem writeVfta_delta (t : VlanRegs) (vlan : ℕ) (on : Bool) :
    (if shl1 (vlan % 32) &&& (if on then ~~~(t.vfta (vlan / 32)) else t.vfta (vlan / 32)) ≠ 0 then
        t.writeVfta (vlan / 32) (putBit (t.vfta (vlan / 32)) (vlan % 32) on) else t) =
      t.setVftaBit vlan on := by
  by_cases hz : shl1 (vlan % 32) &&&
      (if on then ~~~(t.vfta (vlan / 32)) else t.vfta (vlan / 32)) = 0
  · have hsame : putBit (t.vfta (vlan / 32)) (vlan % 32) on = t.vfta (vlan / 32) := by
      rw [← vfta_xor_delta, hz, ofNat_eq_ofNat, xor_zero]
    rw [if_neg (not_not.mpr hz), setVftaBit, setBit, hsame, Function.update_eq_self]
  · rw [if_pos hz]
    rfl

theorem writeVlvfb_zero (t : VlanRegs) {i p : ℕ} (hp : p < 64) (ho : t.OthersEmpty i p) :
    t.writeVlvfb (i * 2 + p / 32) 0 = t.setPool i p false := by
  rw [← writeVlvfb_putBit, ← ((othersEmpty_iff i hp).mpr ho).1]
  rfl

section

variable (t : VlanRegs) {vlan vind : ℕ}

theorem setVlvfGeneric_vtOff (hr : ¬ (4095 < vlan ∨ 63 < vind))
    (hvt : ¬ t.VtOn) (on bypass : Bool) (δ x : U32) :
    setVlvfGeneric t vlan vind on δ x bypass = (success, δ, t) := by
  rw [setVlvfGeneric, if_neg hr, if_pos (not_not.mp hvt)]

theorem setVlvfGeneric_none (hr : ¬ (4095 < vlan ∨ 63 < vind))
    (hvt : t.VtOn) (on bypass : Bool) (δ x : U32) (hi : findVlvfSlot t vlan bypass = errNoSpace) :
    setVlvfGeneric t vlan vind on δ x bypass = (errNoSpace, δ, t) := by
  rw [setVlvfGeneric, if_neg hr, if_neg hvt]
  simp only [hi, if_pos (by decide : errNoSpace < 0)]

theorem setVlvfGeneric_slot (hv : vlan ≤ 4095) (hp : vind < 64)
    (hvt : t.VtOn) (on bypass : Bool) (δ x : U32) {i : ℕ}
    (hi : findVlvfSlot t vlan bypass = (i : ℤ)) :
    setVlvfGeneric t vlan vind on δ x bypass =
      if on then (success, δ, (t.setPool i vind true).writeVlvf i (vlvfWord vlan))
      else if t.OthersEmpty i vind then
        (success, δ, ((if δ ≠ 0 then t.writeVfta (vlan / 32) x else t).setPool i vind
          false).writeVlvf i 0)
      else (success, 0, (t.setPool i vind false).writeVlvf i (vlvfWord vlan)) := by
  have hsub : i * 2 + 1 - vind / 32 = i * 2 + (1 - vind / 32) := by omega
  rw [setVlvfGeneric, if_neg (by omega), if_neg hvt]
  simp only [hi, Int.toNat_natCast, if_neg (by omega : ¬ ((i : ℤ) < 0)), or_xor_self, hsub,
    othersEmpty_iff i hp]
  cases on with
  | true =>
    rw [← writeVlvfb_putBit]
    rfl
  | false =>
    simp only [Bool.false_eq_true, if_false]
    by_cases ho : t.OthersEmpty i vind
    · -- the VFTA write leaves the pool lists alone, so the slot's word may be zeroed after it
      have hzero : ∀ t' : VlanRegs, t'.vlvfb = t.vlvfb →
          (t'.writeVlvf i 0).writeVlvfb (i * 2 + vind / 32) 0 =
            (t'.setPool i vind false).writeVlvf i 0 := by
        intro t' h
        have ho' : (t'.writeVlvf i 0).OthersEmpty i vind := by
          intro q hq hqp
          rw [writeVlvf_poolBit, poolBit, h]
          exact ho q hq hqp
        rw [writeVlvfb_zero _ hp ho']
        rfl
      rw [if_pos ho, if_pos ho, hzero _ (by split <;> rfl)]
    · rw [if_neg ho, if_neg ho, ← writeVlvfb_putBit]
      rfl

theorem setVftaGeneric_slot (hv : vlan ≤ 4095) (hp : vind < 64)
    (hvt : t.VtOn) (on bypass : Bool) {i : ℕ} (hi : findVlvfSlot t vlan bypass = (i : ℤ)) :
    setVftaGeneric t vlan vind on bypass =
      (success,
        if on then ((t.setPool i vind true).writeVlvf i (vlvfWord vlan)).setVftaBit vlan true
        else if t.OthersEmpty i vind then
          ((t.setPool i vind false).writeVlvf i 0).setVftaBit vlan false
        else (t.setPool i vind false).writeVlvf i (vlvfWord vlan)) := by
  rw [setVftaGeneric, if_neg (by omega)]
  simp only [vfta_xor_delta]
  rw [setVlvfGeneric_slot t hv hp hvt on bypass _ _ hi]
  cases on with
  | true =>
    have h := writeVfta_delta ((t.setPool i vind true).writeVlvf i (vlvfWord vlan)) vlan true
    simp only [if_true, ne_eq, not_true, false_and, if_false] at h ⊢
    exact congrArg _ h
  | false =>
    by_cases ho : t.OthersEmpty i vind
    · -- the bit is cleared before the slot is freed, and the same word written again after
      have h := writeVfta_delta t vlan false
      simp only [ho, if_true, Bool.false_eq_true, ne_eq, not_true, false_and, if_false] at h ⊢
      rw [h]
      split <;> simp [setVftaBit, writeVfta, setPool,
        writeVlvf, setBit]
    · simp only [ho, Bool.false_eq_true, ne_eq, not_true, false_and, if_false]

/-- **One call, inverted**: it has one of the five outcomes. -/
theorem setVftaGeneric_step (hv : vlan ≤ 4095) (hp : vind < 64) (on bypass : Bool) :
    VftaStep t vlan vind on bypass (setVftaGeneric t vlan vind on bypass) := by
  have hrange : ¬ (4095 < vlan ∨ 63 < vind) := by omega
  generalize hr : findVlvfSlot t vlan bypass = r
  have hsearch := findVlvfSlot_search t vlan bypass
  rw [hr] at hsearch
  by_cases hvt : t.VtOn
  swap
  · rw [setVftaGeneric, if_neg hrange]
    have h := writeVfta_delta t vlan on
    simp only [vfta_xor_delta, setVlvfGeneric_vtOff t hrange hvt, ne_eq, not_true, false_and,
      if_false] at h ⊢
    rw [h]
    exact .vftaOnly on bypass (.inl hvt)
  cases hsearch with
  | none hn =>
    rw [setVftaGeneric, if_neg hrange]
    simp only [vfta_xor_delta, setVlvfGeneric_none t hrange hvt _ _ _ _ hr]
    cases bypass with
    | false => exact .noSpace on hvt hn
    | true =>
      rw [writeVfta_delta]
      exact .vftaOnly on true (.inr ⟨rfl, hn⟩)
  | slot i hs =>
    rw [setVftaGeneric_slot t hv hp hvt on bypass hr]
    cases on with
    | true => exact .join bypass i hvt hs
    | false =>
      by_cases ho : t.OthersEmpty i vind
      · rw [if_neg (by decide), if_pos ho]
        exact .release bypass i hvt hs ho
      · rw [if_neg (by decide), if_neg ho]
        exact .leave bypass i hvt hs ho

end

section

variable {t t' : VlanRegs} {vlan vind : ℕ}

theorem VftaStep.join_of_success (hvt : t.VtOn)
    (h : VftaStep t vlan vind true false (success, t')) :
    ∃ i, SlotFor t vlan false i ∧
      t' = ((t.setPool i vind true).writeVlvf i (vlvfWord vlan)).setVftaBit vlan true := by
  cases h with
  | vftaOnly _ _ hc =>
    rcases hc with hoff | ⟨hb, -⟩
    · exact absurd hvt hoff
    · exact absurd hb (by decide)
  | join _ i _ hs => exact ⟨i, hs, rfl⟩

theorem VftaStep.eq_of_error {on b : Bool} {e : ℤ}
    (h : VftaStep t vlan vind on b (e, t')) (he : e ≠ success) : t' = t ∧ NoSlot t vlan false := by
  cases h with
  | noSpace _ _ hn => exact ⟨rfl, hn⟩
  | vftaOnly _ _ _ => exact absurd rfl he
  | join _ _ _ _ => exact absurd rfl he
  | release _ _ _ _ _ => exact absurd rfl he
  | leave _ _ _ _ _ => exact absurd rfl he

theorem VftaStep.success_iff {on : Bool} {e : ℤ} (h : VftaStep t vlan vind on false (e, t')) :
    e = success ↔ ¬ t.VtOn ∨ ¬ NoSlot t vlan false := by
  cases h with
  | noSpace _ hvt hn =>
    exact ⟨fun hc => absurd hc (by decide), fun hc => absurd hn (hc.resolve_left (not_not.mpr hvt))⟩
  | vftaOnly _ _ hoff =>
    exact ⟨fun _ => .inl (hoff.resolve_right fun hb => absurd hb.1 (by decide)), fun _ => rfl⟩
  | join _ _ _ hs => exact ⟨fun _ => .inr hs.not_noSlot, fun _ => rfl⟩
  | release _ _ _ hs _ => exact ⟨fun _ => .inr hs.not_noSlot, fun _ => rfl⟩
  | leave _ _ _ hs _ => exact ⟨fun _ => .inr hs.not_noSlot, fun _ => rfl⟩

theorem VftaStep.vtOn {on b : Bool} {e : ℤ}
    (h : VftaStep t vlan vind on b (e, t')) : t'.VtOn ↔ t.VtOn := by
  cases h <;> exact Iff.rfl

end

theorem NoSlot.congr {t t' : VlanRegs} {vlan : ℕ} {b : Bool}
    (h : ∀ i, 1 ≤ i → i < 64 → t'.vlvf i = t.vlvf i) (hn : NoSlot t vlan b) : NoSlot t' vlan b := by
  obtain ⟨hv, hheld, hfull⟩ := hn
  refine ⟨hv, ?_, fun hb i h1 h2 => ?_⟩
  · rintro ⟨i, h1, h2, hw⟩
    exact hheld ⟨i, h1, h2, (h i h1 h2).symm.trans hw⟩
  · rw [h i h1 h2]
    exact hfull hb i h1 h2

theorem foldl_writeVfta (x : U32) (l : List ℕ) (t : VlanRegs) :
    l.foldl (fun t i => t.writeVfta i x) t =
      { t with vfta := fun i => if i ∈ l then x else t.vfta i } := by
  induction l generalizing t with
  | nil => simp
  | cons k l ih =>
    rw [List.foldl_cons, ih]
    congr 1
    funext i
    by_cases hl : i ∈ l
    · simp [hl]
    · by_cases hk : i = k <;> simp [hl, hk, writeVfta]

theorem foldl_clearVlvf (l : List ℕ) (t : VlanRegs) :
    l.foldl (fun t i => ((t.writeVlvf i 0).writeVlvfb (i * 2) 0).writeVlvfb (i * 2 + 1) 0) t =
      { t with
        vlvf := fun i => if i ∈ l then 0 else t.vlvf i
        vlvfb := fun k => if k / 2 ∈ l then 0 else t.vlvfb k } := by
  induction l generalizing t with
  | nil => simp
  | cons n l ih =>
    rw [List.foldl_cons, ih]
    congr 1
    · funext i
      by_cases hl : i ∈ l
      · simp [hl]
      · by_cases hn : i = n <;> simp [hl, hn, writeVlvf, writeVlvfb]
    · funext k
      by_cases hl : k / 2 ∈ l
      · simp [hl]
      · have hk : k / 2 = n ↔ k = n * 2 + 1 ∨ k = n * 2 := by omega
        by_cases h1 : k = n * 2 + 1
        · simp [h1, show (n * 2 + 1) / 2 = n by omega, writeVlvfb]
        · by_cases h0 : k = n * 2 <;>
            simp [hl, h0, h1, hk, writeVlvf, writeVlvfb]

/-- No entry in use, no pool listed, no VFTA bit set. -/
structure VlanRegs.Cleared (t : VlanRegs) : Prop where
  vlvf : ∀ i < 64, t.vlvf i = 0
  pools : ∀ i < 64, t.NoPools i
  vfta : ∀ v ≤ 4095, t.vftaBit v = false

theorem clearVftaGeneric_cleared (t : VlanRegs) : (clearVftaGeneric t).Cleared := by
  rw [clearVftaGeneric, foldl_writeVfta, foldl_clearVlvf]
  constructor
  · intro i hi
    simp [vlvfEntries, hi]
  · intro i hi
    rw [← noPools_iff]
    simp [vlvfEntries, hi, show (i * 2 + 1) / 2 = i by omega]
  · intro v hv
    simp [vftaBit, bit, vftSize, show v / 32 < 128 by omega]

theorem clearVftaGeneric_vtOn (t : VlanRegs) : (clearVftaGeneric t).VtOn ↔ t.VtOn := by
  rw [clearVftaGeneric, foldl_writeVfta, foldl_clearVlvf]
  exact Iff.rfl

def vtOnlyRegs : VlanRegs where
  vtCtl := vtCtlVtEnable
  vfta _ := 0
  vlvf _ := 0
  vlvfb _ := 0

end Ixgbe
