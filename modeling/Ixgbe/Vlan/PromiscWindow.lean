import Ixgbe.Vlan.Members
import Ixgbe.Vlan.Promisc

/-! # VLAN operations inside a promiscuous window

`WindowInv` holds inside, and leaving brings back a `WellFormed` table; in slot 0 a VF reset clears
the VFTA bit (`vfta_zero_lost_in_window`). -/

namespace Ixgbe

open WordArray VlanRegs BoundedMultimap EventRun Finset VlanState

/-- Slots `1..63` hold distinct VLANs, slot 0 only VLAN 0; a free slot lists nobody and a used one
some VF; the VFTA admits the PF's VLANs and those of the slots; the PF is listed in those of its own
VLANs. -/
structure WellFormed (cfg : SriovCfg) (s : VlanState) : Prop where
  shape : SlotShape s.regs
  slot0 : s.regs.vlvf 0 = 0 ∨ s.regs.vlvf 0 = vlvfWord 0
  free : ∀ i, 1 ≤ i → i < 64 → s.regs.vlvf i = 0 →
    s.regs.vlvfb (i * 2) = 0 ∧ s.regs.vlvfb (i * 2 + 1) = 0
  used : ∀ i, 1 ≤ i → i < 64 → s.regs.vlvf i ≠ 0 →
    ∃ q < 64, q ≠ cfg.pf ∧ s.regs.poolBit i q = true
  vfta : ∀ v, 1 ≤ v → v ≤ 4095 →
    (s.regs.vftaBit v = true ↔ s.active v = true ∨ s.regs.Held v)
  pf : ∀ i, 1 ≤ i → i < 64 → ∀ v ≤ 4095, s.regs.vlvf i = vlvfWord v →
    (s.regs.poolBit i cfg.pf = true ↔ s.active v = true)

/-- All pools listed with it but the PF's. -/
def vfMembers (cfg : SriovCfg) (t : VlanRegs) : VlanMap := fun v =>
  Finset.univ.filter fun q : Fin 64 =>
    (q : ℕ) ≠ cfg.pf ∧ ∃ i ∈ vlvfSlots, t.vlvf i = vlvfWord v ∧ t.poolBit i q = true

theorem mem_vfMembers {cfg : SriovCfg} {t : VlanRegs} {v : Fin 4096} {q : Fin 64} :
    q ∈ vfMembers cfg t v ↔ (q : ℕ) ≠ cfg.pf ∧
      ∃ i, 1 ≤ i ∧ i < 64 ∧ t.vlvf i = vlvfWord v ∧ t.poolBit i q = true := by
  simp [vfMembers, and_assoc]

def SriovCfg.vfPool (cfg : SriovCfg) (vf : Fin cfg.numVfs) : Fin 64 := ⟨vf, cfg.vf_lt vf⟩

theorem SriovCfg.eq_vfPool_iff (cfg : SriovCfg) {vf : Fin cfg.numVfs} {q : Fin 64} :
    q = cfg.vfPool vf ↔ (q : ℕ) = vf := Fin.ext_iff

theorem SriovCfg.cleared_iff_mem_erase (cfg : SriovCfg) {vf : Fin cfg.numVfs} {q : Fin 64}
    {b : Bool} {S : Finset (Fin 64)} (h : b = true ↔ q ∈ S) :
    (if (q : ℕ) = vf then false else b) = true ↔ q ∈ S.erase (cfg.vfPool vf) := by
  rw [mem_erase, ← h, Ne, cfg.eq_vfPool_iff]
  split_ifs with hq <;> simp [hq]

/-- An addition fails when 63 other VLANs are in use. -/
def vfApply (cfg : SriovCfg) (m : VlanMap) : VlanEvent cfg.numVfs → VlanMap
  | .addVid _ => m
  | .killVid _ => m
  | .setVfVlan add vid vf =>
      if vid = 0 then m
      else if add then join 0 63 m vid (cfg.vfPool vf) else leave m vid (cfg.vfPool vf)
  | .clearVfVlans vf => fun v => (m v).erase (cfg.vfPool vf)

/-- Pool `p` is entered in slot `i`, and nobody loses anything. -/
structure Entered (t t' : VlanRegs) (v p i : ℕ) : Prop where
  word : t'.vlvf i = vlvfWord v
  pools : ∀ q < 64, t'.poolBit i q = if q = p then true else t.poolBit i q
  same : ∀ j < 64, j ≠ i → SameSlot t t' j
  vtCtl : t'.vtCtl = t.vtCtl
  vfta : ∀ u, t.vftaBit u = true → t'.vftaBit u = true

theorem Entered.of_join {t : VlanRegs} {v p i : ℕ} (hp : p < 64) :
    Entered t (((t.setPool i p true).writeVlvf i (vlvfWord v)).setVftaBit v true) v p i where
  word := writeVlvf_vlvf_self i _
  pools _ hq := setPool_poolBit_slot i true hp hq
  same _ _ hji := (SameSlot.setPool_writeVlvf hp true _ hji).setVftaBit v true
  vtCtl := rfl
  vfta u hu := by
    rw [setVftaBit_vftaBit]
    split_ifs
    · rfl
    · exact hu

theorem Entered.trans_of_listed {t t1 t2 : VlanRegs} {v p q i : ℕ} (h : Entered t t1 v p i)
    (hin : t.poolBit i p = true) (h' : Entered t1 t2 v q i) : Entered t t2 v q i where
  word := h'.word
  pools r hr := by
    have hold : t1.poolBit i r = t.poolBit i r := by
      rw [h.pools r hr]
      split_ifs with hrp
      · rw [hrp, hin]
      · rfl
    rw [h'.pools r hr, hold]
  same j hj hji := (h.same j hj hji).trans (h'.same j hj hji)
  vtCtl := h'.vtCtl.trans h.vtCtl
  vfta u hu := h'.vfta u (h.vfta u hu)

/-- The PF is in every slot of `1..63`, and every VLAN of `1..4095` passes the VFTA. -/
structure WindowInv (cfg : SriovCfg) (t : VlanRegs) (m : VlanMap) : Prop where
  members : Members (· ≠ cfg.pf) t m
  vt : t.VtOn
  slot0 : t.vlvf 0 = 0 ∨ t.vlvf 0 = vlvfWord 0
  pfIn : ∀ i, 1 ≤ i → i < 64 → t.poolBit i cfg.pf = true
  vfta : ∀ v, 1 ≤ v → v ≤ 4095 → t.vftaBit v = true

variable {cfg : SriovCfg} {t t' : VlanRegs} {m : VlanMap}

namespace WindowInv

theorem congr (h : WindowInv cfg t m) (hsame : ∀ j, 1 ≤ j → j < 64 → SameSlot t t' j)
    (hvt : t'.VtOn) (hslot0 : t'.vlvf 0 = 0 ∨ t'.vlvf 0 = vlvfWord 0)
    (hvfta : ∀ v, 1 ≤ v → v ≤ 4095 → t'.vftaBit v = t.vftaBit v) : WindowInv cfg t' m where
  members := h.members.congr (fun j h1 h2 => (hsame j h1 h2).vlvf)
    (fun j h1 h2 p _ => (hsame j h1 h2).pools p p.isLt) fun _ _ => rfl
  vt := hvt
  slot0 := hslot0
  pfIn i h1 h2 := by
    rw [(hsame i h1 h2).pools _ cfg.pf_lt]
    exact h.pfIn i h1 h2
  vfta v h1 h2 := by
    rw [hvfta v h1 h2]
    exact h.vfta v h1 h2

variable {e : ℤ} {v : Fin 4096} {i : ℕ} {vf : Fin cfg.numVfs}

theorem vftaStep_zero (h : WindowInv cfg t m) {p : ℕ} (hp : p < 64) {on b : Bool}
    (hstep : VftaStep t 0 p on b (e, t')) : WindowInv cfg t' m := by
  have hsame : ∀ {i : ℕ} (bit : Bool) (x : U32), i = 0 → ∀ j, 1 ≤ j → j < 64 →
      SameSlot t ((t.setPool i p bit).writeVlvf i x) j := by
    rintro i bit x rfl j h1 _
    exact .setPool_writeVlvf hp bit x (by omega)
  have hvfta : ∀ (t : VlanRegs) (on : Bool) (v : ℕ), 1 ≤ v →
      (t.setVftaBit 0 on).vftaBit v = t.vftaBit v := by
    intro t on v hv
    rw [setVftaBit_vftaBit, if_neg (by omega)]
  cases hstep with
  | noSpace _ _ _ => exact h
  | vftaOnly _ _ _ =>
    exact h.congr (fun j _ _ => ⟨rfl, fun _ _ => rfl⟩) h.vt h.slot0 fun v hv _ => hvfta t on v hv
  | join _ i _ hs =>
    have hi := hs.eq_zero_iff.mpr rfl
    refine h.congr (fun j h1 h2 => ?_) h.vt (.inr ?_) fun v hv _ => hvfta _ true v hv
    · exact (hsame true (vlvfWord 0) hi j h1 h2).setVftaBit 0 true
    · rw [setVftaBit_vlvf, writeVlvf_vlvf, if_pos hi.symm]
  | release _ i _ hs _ =>
    have hi := hs.eq_zero_iff.mpr rfl
    refine h.congr (fun j h1 h2 => ?_) h.vt (.inl ?_) fun v hv _ => hvfta _ false v hv
    · exact (hsame false 0 hi j h1 h2).setVftaBit 0 false
    · rw [setVftaBit_vlvf, writeVlvf_vlvf, if_pos hi.symm]
  | leave _ i _ hs _ =>
    have hi := hs.eq_zero_iff.mpr rfl
    refine h.congr (hsame false (vlvfWord 0) hi) h.vt (.inr ?_) fun _ _ _ => rfl
    rw [writeVlvf_vlvf, if_pos hi.symm]

theorem vfVlan_zero {s : VlanState} (h : WindowInv cfg s.regs m) (vf : Fin cfg.numVfs) {add : Bool}
    (hstep : VfVlanStep s cfg.pf 0 vf add (e, t')) : WindowInv cfg t' m := by
  refine hstep.inv (P := fun t => WindowInv cfg t m)
    (fun _ _ _ h1 ht => ht.vftaStep_zero cfg.pf_lt h1)
    (fun _ _ _ h2 ht => ht.vftaStep_zero (cfg.vf_lt vf) h2) (fun _ _ hup ht => ?_) h
  -- the cleanup does not look at slot 0
  cases hup with
  | absent _ => exact ht
  | keep _ _ _ _ _ _ => exact ht
  | free _ h0 _ _ _ _ => exact absurd rfl h0

theorem update (h : WindowInv cfg t m) (hv : v ≠ 0) (hs : SlotFor t v false i) {S : Finset (Fin 64)}
    (hw : Members.Written (· ≠ cfg.pf) t t' v S i) (hvt : t'.vtCtl = t.vtCtl)
    (hpf : t'.poolBit i cfg.pf = true) (hvfta : ∀ u, t.vftaBit u = true → t'.vftaBit u = true) :
    WindowInv cfg t' (Function.update m v S) where
  members := h.members.update hv hs hw
  vt := by
    have := h.vt
    rwa [VtOn, ← hvt] at this
  slot0 := by
    have hi : (0 : ℕ) ≠ i := fun h0 => hv (Fin.ext (hs.eq_zero_iff.mp h0.symm))
    rw [(hw.same 0 (by decide) hi).vlvf]
    exact h.slot0
  pfIn j h1 h2 := by
    by_cases hji : j = i
    · rw [hji, hpf]
    · rw [(hw.same j h2 hji).pools _ cfg.pf_lt]
      exact h.pfIn j h1 h2
  vfta u h1 h2 := hvfta u (h.vfta u h1 h2)

theorem join_eq (h : WindowInv cfg t m) (hs : SlotFor t v false i)
    (p : Fin 64) : join 0 63 m v p = Function.update m v (insert p (m v)) := by
  rw [join, if_neg]
  rw [h.members.rejects_iff]
  exact hs.not_noSlot

theorem joined (h : WindowInv cfg t m) (hv : v ≠ 0)
    (hs : SlotFor t v false i) (hin : Entered t t' v vf i) :
    WindowInv cfg t' (join 0 63 m v (cfg.vfPool vf)) := by
  have hi := hs.pos fun h0 => hv (Fin.ext h0)
  have hne := cfg.vf_ne_pf vf
  rw [h.join_eq hs]
  refine h.update hv hs ⟨?_, fun q hq => ?_, fun q hq => ?_, hin.same⟩ hin.vtCtl ?_ hin.vfta
  · rw [if_neg (insert_ne_empty _ _), hin.word]
  · rw [hin.pools q q.isLt, mem_insert]
    by_cases hqvf : q = cfg.vfPool vf
    · rw [if_pos (cfg.eq_vfPool_iff.mp hqvf)]
      exact ⟨fun _ => .inl hqvf, fun _ => rfl⟩
    · rw [if_neg fun heq => hqvf (cfg.eq_vfPool_iff.mpr heq), h.members.pools_of_slotFor hv hs q hq]
      exact ⟨.inr, fun hc => hc.resolve_left hqvf⟩
  · rcases mem_insert.mp hq with rfl | hqm
    · exact hne
    · exact h.members.tracked v hv q hqm
  · rw [hin.pools _ cfg.pf_lt, if_neg (Ne.symm hne)]
    exact h.pfIn i hi hs.lt

theorem pfUpdate_noSlot (h : WindowInv cfg t m) (hno : NoSlot t v false)
    {promisc : Bool} (hup : PfUpdate t promisc cfg.pf v t') : t' = t := by
  cases hup with
  | absent _ => rfl
  | keep _ _ _ _ _ _ => rfl
  | free i hv hi hi' hw _ =>
    rw [h.members.shape.vlvfVid_eq_iff hi hi' hv (by omega)] at hw
    exact absurd ⟨i, hi, hi', hw⟩ hno.2.1

variable {s : VlanState}

theorem vfAdd (h : WindowInv cfg s.regs m) (hv : v ≠ 0) (vf : Fin cfg.numVfs)
    (hstep : VfVlanStep s cfg.pf v vf true (e, t')) :
    WindowInv cfg t' (join 0 63 m v (cfg.vfPool vf)) := by
  have hv0 : (v : ℕ) ≠ 0 := fun h0 => hv (Fin.ext h0)
  have hvf := cfg.vf_lt vf
  -- a failing search leaves registers and map as they are
  have hreject : NoSlot s.regs v false → WindowInv cfg s.regs (join 0 63 m v (cfg.vfPool vf)) := by
    intro hno
    rw [join, if_pos ((h.members.rejects_iff v).mpr hno)]
    exact h
  cases hstep with
  | pfFail _ _ _ h1 he =>
    obtain ⟨rfl, hno⟩ := h1.eq_of_error he
    exact hreject hno
  | joined t1 _ h1 h2 =>
    rcases h1 with ⟨-, h1⟩ | ⟨-, rfl⟩
    · -- the PF enters the VLAN in a slot that lists it already, and the VF finds that slot
      obtain ⟨i, hs, rfl⟩ := h1.join_of_success h.vt
      obtain ⟨k, hs', rfl⟩ := h2.join_of_success (by exact h.vt)
      have hi := hs.pos hv0
      have hpfIn := Entered.of_join (t := s.regs) (i := i) (v := v) cfg.pf_lt
      have hshape1 : SlotShape
          (((s.regs.setPool i cfg.pf true).writeVlvf i (vlvfWord v)).setVftaBit v true) :=
        (h.members.shape.writeVlvf_word (by omega) hs).congr rfl
      have hik : i = k := hshape1.eq_of_slotFor hs' hi hs.lt hpfIn.word hv0
      subst hik
      exact h.joined hv hs (hpfIn.trans_of_listed (h.pfIn i hi hs.lt) (.of_join hvf))
    · obtain ⟨i, hs, rfl⟩ := h2.join_of_success h.vt
      exact h.joined hv hs (.of_join hvf)
  | joinFail _ t1 t2 _ h1 h2 he h3 =>
    obtain ⟨rfl, hno⟩ := h2.eq_of_error he
    rcases h1 with ⟨-, h1⟩ | ⟨-, rfl⟩
    · -- the PF's call entered the VLAN, so the VF's cannot fail
      obtain ⟨i, hs, rfl⟩ := h1.join_of_success h.vt
      exact absurd ⟨i, hs.pos hv0, hs.lt, (Entered.of_join cfg.pf_lt).word⟩ hno.2.1
    · have ht' : t' = s.regs := by
        rcases h3 with ⟨-, hup⟩ | ⟨-, rfl⟩
        · exact h.pfUpdate_noSlot hno hup
        · rfl
      subst ht'
      exact hreject hno

theorem left (h : WindowInv cfg t m) (hv : v ≠ 0) (hs : SlotFor t v false i)
    (hword : t'.vlvf i = if (m v).erase (cfg.vfPool vf) = ∅ then 0 else vlvfWord v)
    (hpools : ∀ q < 64, t'.poolBit i q = if q = vf then false else t.poolBit i q)
    (hsame : ∀ j < 64, j ≠ i → SameSlot t t' j) (hvt : t'.vtCtl = t.vtCtl)
    (hvfta : ∀ u, t.vftaBit u = true → t'.vftaBit u = true) :
    WindowInv cfg t' (leave m v (cfg.vfPool vf)) := by
  refine h.update hv hs ⟨hword, fun q hq => ?_, fun q hq => ?_, hsame⟩ hvt ?_ hvfta
  · rw [hpools q q.isLt]
    exact cfg.cleared_iff_mem_erase (h.members.pools_of_slotFor hv hs q hq)
  · exact h.members.tracked v hv q (mem_of_mem_erase hq)
  · rw [hpools _ cfg.pf_lt, if_neg (Ne.symm (cfg.vf_ne_pf vf))]
    exact h.pfIn i (hs.pos fun h0 => hv (Fin.ext h0)) hs.lt

theorem othersEmpty_iff_erase (h : WindowInv cfg t m) (hv : v ≠ 0) (hs : SlotFor t v false i)
    (hpools : ∀ q < 64, t'.poolBit i q = if q = vf then false else t.poolBit i q) :
    t'.OthersEmpty i cfg.pf ↔ (m v).erase (cfg.vfPool vf) = ∅ := by
  rw [eq_empty_iff_forall_notMem]
  constructor
  · intro ho q hq
    obtain ⟨hqvf, hqm⟩ := mem_erase.mp hq
    have hqpf := h.members.tracked v hv q hqm
    have hout := ho q q.isLt hqpf
    rw [hpools q q.isLt, if_neg fun heq => hqvf (cfg.eq_vfPool_iff.mpr heq)] at hout
    exact absurd ((h.members.pools_of_slotFor hv hs q hqpf).mpr hqm) (ne_true_of_eq_false hout)
  · intro hempty q hq hqpf
    rw [hpools q hq]
    split_ifs with hqvf
    · rfl
    · by_contra hbit
      have hqm := (h.members.pools_of_slotFor hv hs ⟨q, hq⟩ hqpf).mp (by simpa using hbit)
      exact hempty ⟨q, hq⟩
        (mem_erase.mpr ⟨fun heq => hqvf (cfg.eq_vfPool_iff.mp heq), hqm⟩)

section

variable (h : WindowInv cfg s.regs m)

include h

section

variable (hon : s.vlanPromisc = true)

include hon

theorem vfRemove (hv : v ≠ 0) (vf : Fin cfg.numVfs)
    (hstep : VfVlanStep s cfg.pf v vf false (e, t')) :
    WindowInv cfg t' (leave m v (cfg.vfPool vf)) := by
  have hv0 : (v : ℕ) ≠ 0 := fun h0 => hv (Fin.ext h0)
  have hvf := cfg.vf_lt vf
  cases hstep with
  | removed _ t2 _ h2 h3 =>
    have hup : PfUpdate t2 true cfg.pf v t' := by
      rcases h3 with ⟨-, hup⟩ | ⟨hcon, -⟩
      · rwa [hon] at hup
      · exact absurd (.inr hon) hcon
    cases h2 with
    | noSpace _ _ hno =>
      rw [leave_of_empty _ ((h.members.rejects_iff v).mpr hno).2.1, h.pfUpdate_noSlot hno hup]
      exact h
    | vftaOnly _ _ hc =>
      rcases hc with hoff | ⟨hb, -⟩
      · exact absurd h.vt hoff
      · exact absurd hb (by decide)
    | release _ i _ hs ho =>
      have hpfOut := ho cfg.pf cfg.pf_lt (Ne.symm (cfg.vf_ne_pf vf))
      exact absurd (h.pfIn i (hs.pos hv0) hs.lt) (ne_true_of_eq_false hpfOut)
    | leave _ i _ hs _ =>
      have hi := hs.pos hv0
      generalize ht2 : (s.regs.setPool i vf false).writeVlvf i (vlvfWord v) = t2 at hup
      have hword : t2.vlvf i = vlvfWord v := by
        rw [← ht2, writeVlvf_vlvf_self]
      have hpools : ∀ q < 64,
          t2.poolBit i q = if q = vf then false else s.regs.poolBit i q := by
        intro q hq
        rw [← ht2, writeVlvf_poolBit, setPool_poolBit_slot i false hvf hq]
      have hsame : ∀ j < 64, j ≠ i → SameSlot s.regs t2 j := fun j _ hji =>
        ht2 ▸ .setPool_writeVlvf hvf false _ hji
      have hshape : SlotShape t2 :=
        ht2 ▸ (h.members.shape.writeVlvf_word (by omega) hs).congr rfl
      have hvt : t2.vtCtl = s.regs.vtCtl := ht2 ▸ rfl
      have hvfta : ∀ u, s.regs.vftaBit u = true → t2.vftaBit u = true := ht2 ▸ fun _ hu => hu
      have hleft := h.othersEmpty_iff_erase hv hs hpools
      -- the cleanup looks at slot `i`
      have hfound : ∀ k, 1 ≤ k → k < 64 → vlvfVid (t2.vlvf k) = v → k = i := by
        intro k hk hk' hvid
        rw [hshape.vlvfVid_eq_iff hk hk' hv0 (by omega)] at hvid
        exact hshape.inj k hk hk' i hi hs.lt (hvid.trans hword.symm)
          (hvid ▸ vlvfWord_ne_zero v)
      cases hup with
      | absent hc =>
        rcases hc with h0 | hnone
        · exact absurd h0 hv0
        · exact absurd ((hshape.vlvfVid_eq_iff hi hs.lt hv0 (by omega)).mpr hword)
            (hnone i hi hs.lt)
      | keep k _ hk hk' hvid ho =>
        rw [hfound k hk hk' hvid] at ho
        refine h.left hv hs ?_ hpools hsame hvt hvfta
        rw [if_neg fun he => ho (hleft.mpr he), hword]
      | free k _ hk hk' hvid ho =>
        have hki := hfound k hk hk' hvid
        subst hki
        refine h.left hv hs ?_ hpools (fun j hj hji => ?_) hvt hvfta
        · rw [if_pos (hleft.mp ho), writeVlvf_vlvf_self]
        · exact (hsame j hj hji).trans ⟨writeVlvf_vlvf_of_ne 0 hji, fun _ _ => rfl⟩

theorem vfClear_slot (vf : Fin cfg.numVfs) {j : ℕ} (h1 : 1 ≤ j) (h2 : j < 64) :
    (∀ q < 64, (clearVfVlans cfg.toPoolCfg s vf).regs.poolBit j q =
      if q = vf then false else s.regs.poolBit j q) ∧
    ((clearVfVlans cfg.toPoolCfg s vf).regs.vlvf j = s.regs.vlvf j ∧
        (s.regs.poolBit j vf = false ∨
          ∃ q : ℕ, q < 64 ∧ q ≠ vf ∧ q ≠ cfg.pf ∧ s.regs.poolBit j q = true) ∨
      (clearVfVlans cfg.toPoolCfg s vf).regs.vlvf j = 0 ∧
        ∀ q : ℕ, q < 64 → q ≠ vf → q ≠ cfg.pf → s.regs.poolBit j q = false) := by
  have hvf := cfg.vf_lt vf
  have hne := cfg.vf_ne_pf vf
  obtain ⟨t1, t2, hsame1, hc, hsame2⟩ := clearVfVlans_slot (s := s) vf h2
  have hpf : t1.poolBit j cfg.pf = true := by
    rw [hsame1.pools _ cfg.pf_lt]
    exact h.pfIn j h1 h2
  -- the PF's bit keeps the loop body from its last two branches
  have hlast : ¬ t1.OthersEmpty j vf := fun ho =>
    absurd hpf (ne_true_of_eq_false (ho cfg.pf cfg.pf_lt (Ne.symm hne)))
  have hleave : ∀ q < 64, (t1.setPool j vf false).poolBit j q =
      if q = vf then false else t1.poolBit j q := by
    intro q hq
    rw [setPool_poolBit _ hvf hq]
    simp
  have hpools : ∀ q < 64, t1.poolBit j q = s.regs.poolBit j q := hsame1.pools
  rw [hsame2.vlvf, ← hsame1.vlvf, ← hpools vf hvf]
  rw [hon] at hc
  refine ⟨fun q hq => ?_, ?_⟩
  · rw [hsame2.pools q hq, ← hpools q hq]
    cases hc with
    | absent hbit =>
      split_ifs with hqvf
      · rw [hqvf, hbit]
      · rfl
    | others _ _ => exact hleave q hq
    | onlyPf _ _ _ =>
      rw [writeVlvf_poolBit, Bool.true_or,
        setPool_true_of_poolBit ((setPool_poolBit_of_ne _ hvf cfg.pf_lt hne j).trans hpf)]
      exact hleave q hq
    | stale _ ho _ => exact absurd ho hlast
    | last _ ho _ => exact absurd ho hlast
  · cases hc with
    | absent hbit => exact .inl ⟨rfl, .inl hbit⟩
    | others _ ho =>
      refine .inl ⟨rfl, .inr ?_⟩
      by_contra hcon
      refine ho fun q hq hqpf => ?_
      rw [hleave q hq]
      split_ifs with hqvf
      · rfl
      · rw [← Bool.not_eq_true]
        exact fun hbit => hcon ⟨q, hq, hqvf, hqpf, (hpools q hq).symm.trans hbit⟩
    | onlyPf _ ho _ =>
      refine .inr ⟨by rw [writeVlvf_vlvf_self], fun q hq hqvf hqpf => ?_⟩
      rw [← hpools q hq, ← setPool_poolBit_of_ne (i := j) false hvf hq (Ne.symm hqvf) j]
      exact ho q hq hqpf
    | stale _ ho _ => exact absurd ho hlast
    | last _ ho _ => exact absurd ho hlast

theorem vfClear_frame (vf : Fin cfg.numVfs) :
    let t' := (clearVfVlans cfg.toPoolCfg s vf).regs
    SlotShape t' ∧ t'.VtOn ∧ (t'.vlvf 0 = 0 ∨ t'.vlvf 0 = vlvfWord 0) ∧
      (∀ i, 1 ≤ i → i < 64 → t'.poolBit i cfg.pf = true) ∧
      ∀ v, 1 ≤ v → v ≤ 4095 → t'.vftaBit v = true := by
  have hvf := cfg.vf_lt vf
  have hne := cfg.vf_ne_pf vf
  refine clearVfVlans_inv (P := fun t => SlotShape t ∧ t.VtOn ∧
    (t.vlvf 0 = 0 ∨ t.vlvf 0 = vlvfWord 0) ∧
    (∀ i, 1 ≤ i → i < 64 → t.poolBit i cfg.pf = true) ∧
    ∀ v, 1 ≤ v → v ≤ 4095 → t.vftaBit v = true) vf ?_
    ⟨h.members.shape, h.vt, h.slot0, h.pfIn, h.vfta⟩
  rintro t t' i hi hc ⟨hshape, hvt, hslot0, hpfIn, hvfta⟩
  have hpfKept : ∀ k, 1 ≤ k → k < 64 → (t.setPool i vf false).poolBit k cfg.pf = true := by
    intro k hk hk'
    rw [setPool_poolBit_of_ne _ hvf cfg.pf_lt hne]
    exact hpfIn k hk hk'
  have hshape' := hshape.clearSlot hc
  rw [hon] at hc
  cases hc with
  | absent _ => exact ⟨hshape, hvt, hslot0, hpfIn, hvfta⟩
  | others _ _ => exact ⟨hshape', hvt, hslot0, hpfKept, hvfta⟩
  | stale _ _ _ => exact ⟨hshape', hvt, hslot0, hpfKept, hvfta⟩
  | onlyPf _ _ _ =>
    refine ⟨hshape', hvt, ?_, fun k hk hk' => ?_, hvfta⟩
    · rw [writeVlvf_vlvf]
      split_ifs
      · exact .inl rfl
      · exact hslot0
    · rw [writeVlvf_poolBit, setPool_poolBit _ cfg.pf_lt cfg.pf_lt, Bool.true_or]
      split_ifs
      · rfl
      · exact hpfKept k hk hk'
  | last _ ho hw =>
    -- only slot 0 can be without the PF, and its VLAN is 0
    have hi0 : i = 0 := by
      by_contra hi0
      exact absurd ((hpfIn i (Nat.pos_of_ne_zero hi0) hi).symm.trans
        (ho cfg.pf cfg.pf_lt (Ne.symm hne))) (by decide)
    subst hi0
    have hvid : vlvfVid (t.vlvf 0) = 0 := by
      rw [hslot0.resolve_left hw, vlvfVid_vlvfWord (by decide)]
    refine ⟨hshape', hvt, .inl ?_, hpfKept, fun v h1 h2 => ?_⟩
    · rw [setVftaBit_vlvf, writeVlvf_vlvf_self]
    · rw [setVftaBit_vftaBit, hvid, if_neg (by omega)]
      exact hvfta v h1 h2

theorem vfClear (vf : Fin cfg.numVfs) :
    WindowInv cfg (clearVfVlans cfg.toPoolCfg s vf).regs
      fun v => (m v).erase (cfg.vfPool vf) := by
  obtain ⟨hshape, hvt, hslot0, hpfIn, hvfta⟩ := h.vfClear_frame hon vf
  refine ⟨⟨hshape, fun j h1 h2 v hw => ?_, fun v hv q hq => ?_, fun v hv hne => ?_,
    fun j h1 h2 hz q hq => ?_⟩, hvt, hslot0, hpfIn, hvfta⟩
  · obtain ⟨hpools, hentry⟩ := h.vfClear_slot hon vf h1 h2
    obtain ⟨hsame, hleft⟩ : (clearVfVlans cfg.toPoolCfg s vf).regs.vlvf j = s.regs.vlvf j ∧ _ :=
      hentry.resolve_right fun hz => vlvfWord_ne_zero v (hw.symm.trans hz.1)
    rw [hsame] at hw
    obtain ⟨hne, hmem⟩ := h.members.slot j h1 h2 v hw
    refine ⟨?_, fun q hq => ?_⟩
    · rcases hleft with hout | ⟨q, hq, hqvf, hqpf, hbit⟩
      · -- the VF was not in the slot
        have hnot : cfg.vfPool vf ∉ m v := fun hin =>
          absurd ((hmem (cfg.vfPool vf) (cfg.vf_ne_pf vf)).mpr hin) (ne_true_of_eq_false hout)
        rwa [erase_eq_of_notMem hnot]
      · exact ⟨⟨q, hq⟩, mem_erase.mpr ⟨fun heq => hqvf (cfg.eq_vfPool_iff.mp heq),
          (hmem ⟨q, hq⟩ hqpf).mp hbit⟩⟩
    · rw [hpools q q.isLt]
      exact cfg.cleared_iff_mem_erase (hmem q hq)
  · exact h.members.tracked v hv q (mem_of_mem_erase hq)
  · obtain ⟨q, hq⟩ := hne
    obtain ⟨hqvf, hqm⟩ := mem_erase.mp hq
    obtain ⟨j, h1, h2, hw⟩ := h.members.owned v hv ⟨q, hqm⟩
    have hqpf := h.members.tracked v hv q hqm
    refine ⟨j, h1, h2, ?_⟩
    rcases (h.vfClear_slot hon vf h1 h2).2 with ⟨hsame, -⟩ | ⟨-, hnone⟩
    · rw [hsame, hw]
    · have hout := hnone q q.isLt (fun heq => hqvf (cfg.eq_vfPool_iff.mpr heq)) hqpf
      exact absurd (((h.members.slot j h1 h2 v hw).2 q hqpf).mpr hqm) (ne_true_of_eq_false hout)
  · obtain ⟨hpools, hentry⟩ := h.vfClear_slot hon vf h1 h2
    rw [hpools q q.isLt]
    split_ifs with hqvf
    · rfl
    · rcases hentry with ⟨hsame, -⟩ | ⟨-, hnone⟩
      · rw [hsame] at hz
        exact h.members.free j h1 h2 hz q hq
      · exact hnone q q.isLt hqvf hq

end

end

end WindowInv

structure InWindow (cfg : SriovCfg) (s : VlanState) (m : VlanMap) : Prop where
  promisc : s.vlanPromisc = true
  regs : WindowInv cfg s.regs m
  zero : m 0 = ∅

variable {s : VlanState}

/-- **Step lemma**: every operation keeps the window's invariant, with the effect of the VF
operations alone. -/
theorem InWindow.step (hone : cfg.numRxPools = 1) (h : InWindow cfg s m)
    (e : VlanEvent cfg.numVfs) : InWindow cfg (vlanStep cfg s e) (vfApply cfg m e) := by
  cases e with
  | addVid vid =>
    refine ⟨?_, ?_, h.zero⟩
    · rw [vlanStep, vlanRxAddVid_one hone]
      exact h.promisc
    · rw [vlanStep, vlanRxAddVid_one hone, h.promisc]
      by_cases hv0 : (vid : ℕ) = 0
      · rw [if_pos (.inl hv0), hv0]
        exact h.regs.vftaStep_zero cfg.pf_lt
          (setVftaGeneric_step s.regs (by decide) cfg.pf_lt true _)
      · rw [if_neg (by simp [hv0])]
        exact h.regs
  | killVid vid =>
    by_cases hv0 : (vid : ℕ) = 0
    · rw [vlanStep, vlanRxKillVid, if_pos hv0]
      exact h
    · rw [vlanStep, vlanRxKillVid_one hone vid hv0]
      refine ⟨h.promisc, ?_, h.zero⟩
      rw [h.promisc, if_neg (by decide)]
      exact h.regs
  | setVfVlan add vid vf =>
    have hstep := setVfVlan_step (s := s) cfg.pf_lt add (by omega : (vid : ℕ) ≤ 4095)
      (cfg.vf_lt vf)
    refine ⟨(setVfVlan_frame cfg.toPoolCfg s add vid vf).2.trans h.promisc, ?_, ?_⟩
    · change WindowInv cfg (setVfVlan cfg.toPoolCfg s add vid vf).2.regs _
      rw [vfApply]
      split
      case isTrue hv =>
        subst hv
        exact h.regs.vfVlan_zero vf hstep
      case isFalse hv =>
        cases add with
        | true => exact h.regs.vfAdd hv vf hstep
        | false => exact h.regs.vfRemove h.promisc hv vf hstep
    · rw [vfApply]
      split
      · exact h.zero
      case isFalse hv =>
        cases add with
        | true =>
          rw [if_pos rfl, join]
          split_ifs
          · exact h.zero
          · rw [Function.update_of_ne (Ne.symm hv)]
            exact h.zero
        | false =>
          rw [if_neg (by decide), leave, Function.update_of_ne (Ne.symm hv)]
          exact h.zero
  | clearVfVlans vf =>
    refine ⟨h.promisc, h.regs.vfClear h.promisc vf, ?_⟩
    change (m 0).erase (cfg.vfPool vf) = ∅
    rw [h.zero, erase_empty]

theorem members_vfMembers (hshape : SlotShape t)
    (hfree : ∀ i, 1 ≤ i → i < 64 → t.vlvf i = 0 → t.NoPools i)
    (hused : ∀ i, 1 ≤ i → i < 64 → t.vlvf i ≠ 0 → ∃ q < 64, q ≠ cfg.pf ∧ t.poolBit i q = true) :
    Members (· ≠ cfg.pf) t (vfMembers cfg t) := by
  refine ⟨hshape, fun i h1 h2 v hw => ⟨?_, fun q hq => ?_⟩, fun v _ q hq => (mem_vfMembers.mp hq).1,
    fun v _ hne => ?_, fun i h1 h2 hz q _ => hfree i h1 h2 hz q q.isLt⟩
  · obtain ⟨q, hq, hqpf, hbit⟩ := hused i h1 h2 (hw ▸ vlvfWord_ne_zero v)
    exact ⟨⟨q, hq⟩, mem_vfMembers.mpr ⟨hqpf, i, h1, h2, hw, hbit⟩⟩
  · rw [mem_vfMembers]
    constructor
    · exact fun hbit => ⟨hq, i, h1, h2, hw, hbit⟩
    · rintro ⟨-, j, hj1, hj2, hwj, hbit⟩
      -- slots hold distinct VLANs
      rwa [hshape.inj i h1 h2 j hj1 hj2 (hw.trans hwj.symm) (hw ▸ vlvfWord_ne_zero v)]
  · obtain ⟨q, hq⟩ := hne
    obtain ⟨-, i, h1, h2, hw, -⟩ := mem_vfMembers.mp hq
    exact ⟨i, h1, h2, hw⟩

theorem vfMembers_eq (h : Members (· ≠ cfg.pf) t m) (hzero : m 0 = ∅) : vfMembers cfg t = m := by
  funext v
  ext q
  rw [mem_vfMembers]
  constructor
  · rintro ⟨hq, i, h1, h2, hw, hbit⟩
    exact ((h.slot i h1 h2 v hw).2 q hq).mp hbit
  · intro hqm
    have hv : v ≠ 0 := by
      rintro rfl
      rw [hzero] at hqm
      exact absurd hqm (notMem_empty q)
    have hq := h.tracked v hv q hqm
    obtain ⟨i, h1, h2, hw⟩ := h.owned v hv ⟨q, hqm⟩
    exact ⟨hq, i, h1, h2, hw, ((h.slot i h1 h2 v hw).2 q hq).mpr hqm⟩

theorem WellFormed.enter (h : WellFormed cfg s) (hvt : s.regs.VtOn) (hoff : s.vlanPromisc = false) :
    InWindow cfg (vlanPromiscEnable cfg.toPoolCfg s) (vfMembers cfg s.regs) := by
  have he := vlanPromiscEnable_effect cfg hoff
  have hmembers := members_vfMembers h.shape
    (fun i h1 h2 hz => (noPools_iff i).mp (h.free i h1 h2 hz)) h.used
  refine ⟨he.promisc, ⟨hmembers.congr (fun j _ _ => by rw [he.vlvf]) (fun j _ h2 q hq => ?_)
    fun _ _ => rfl, ?_, by rw [he.vlvf]; exact h.slot0, fun i h1 h2 => ?_,
    fun v _ hv => he.vfta v hv⟩, ?_⟩
  · rw [he.pools j h2 q q.isLt, if_neg fun hc => hq hc.2]
  · rwa [VtOn, he.vtCtl]
  · rw [he.pools i h2 _ cfg.pf_lt, if_pos ⟨h1, rfl⟩]
  · -- no slot of `1..63` holds VLAN 0
    rw [← not_nonempty_iff_eq_empty]
    rintro ⟨q, hq⟩
    obtain ⟨-, i, h1, h2, hw, -⟩ := mem_vfMembers.mp hq
    obtain ⟨v, hv0, hwv⟩ := h.shape.exists_vlan h1 h2 (hw ▸ vlvfWord_ne_zero _)
    exact hv0 (vlvfWord_fin_inj (hwv.symm.trans hw))

theorem InWindow.leave (h : InWindow cfg s m) :
    WellFormed cfg (vlanPromiscDisable cfg.toPoolCfg s) ∧
      vfMembers cfg (vlanPromiscDisable cfg.toPoolCfg s).regs = m := by
  have hl := vlanPromiscDisable_effect cfg h.promisc
  have hact : ∀ v, (vlanPromiscDisable cfg.toPoolCfg s).active v = s.active v := fun v => by
    rw [active, hl.active]
    rfl
  have hshape := h.regs.members.shape
  have hother : ∀ j < 64, ∀ q < 64, q ≠ cfg.pf →
      (vlanPromiscDisable cfg.toPoolCfg s).regs.poolBit j q = s.regs.poolBit j q := by
    intro j hj q hq hqpf
    rw [hl.pools j hj q hq, if_neg fun hc => hqpf hc.2.1]
  have hmembers : Members (· ≠ cfg.pf) (vlanPromiscDisable cfg.toPoolCfg s).regs m :=
    h.regs.members.congr (fun j _ _ => by rw [hl.vlvf])
      (fun j _ h2 q hq => hother j h2 q q.isLt hq) fun _ _ => rfl
  refine ⟨⟨hmembers.shape, by rw [hl.vlvf]; exact h.regs.slot0, fun i h1 h2 hz => ?_,
    fun i h1 h2 hne => ?_, fun v h1 h2 => ?_, fun i h1 h2 v hv hw => ?_⟩,
    vfMembers_eq hmembers h.zero⟩
  · rw [noPools_iff]
    intro q hq
    by_cases hqpf : q = cfg.pf
    · rw [hl.vlvf] at hz
      rw [hl.pools i h2 q hq, if_pos ⟨h1, hqpf, fun hst => hst.1 hz⟩]
    · exact hmembers.free i h1 h2 hz ⟨q, hq⟩ hqpf
  · obtain ⟨v, hv0, hw⟩ := hmembers.shape.exists_vlan h1 h2 hne
    obtain ⟨⟨q, hq⟩, hmem⟩ := hmembers.slot i h1 h2 v hw
    have hqpf := hmembers.tracked v hv0 q hq
    exact ⟨q, q.isLt, hqpf, (hmem q hqpf).mpr hq⟩
  · rw [hl.vfta v h2, hact]
    refine or_congr_right ⟨?_, ?_⟩
    · rintro ⟨j, hj1, hj2, -, hvid⟩
      rw [hshape.vlvfVid_eq_iff hj1 hj2 (by omega) h2] at hvid
      exact ⟨j, hj1, hj2, by rw [hl.vlvf, hvid]⟩
    · rintro ⟨j, hj1, hj2, hw⟩
      rw [hl.vlvf] at hw
      exact ⟨j, hj1, hj2, hw ▸ vlvfWord_ne_zero v,
        (hshape.vlvfVid_eq_iff hj1 hj2 (by omega) h2).mpr hw⟩
  · rw [hl.vlvf] at hw
    have hst : PfStays s (s.regs.vlvf i) ↔ s.active v = true := by
      rw [PfStays, hw, vlvfVid_vlvfWord hv]
      exact ⟨fun h => h.2, fun h => ⟨vlvfWord_ne_zero v, h⟩⟩
    rw [hl.pools i h2 _ cfg.pf_lt, hact, ← hst]
    by_cases hstays : PfStays s (s.regs.vlvf i)
    · rw [if_neg fun hc => hc.2.2 hstays]
      exact ⟨fun _ => hstays, fun _ => h.regs.pfIn i h1 h2⟩
    · rw [if_pos ⟨h1, rfl, hstays⟩]
      exact ⟨fun hf => absurd hf (by decide), fun hf => absurd hf hstays⟩

structure WellFormedFull (cfg : SriovCfg) (s : VlanState) : Prop extends WellFormed cfg s where
  free0 : s.regs.vlvf 0 = 0 → s.regs.vlvfb 0 = 0 ∧ s.regs.vlvfb 1 = 0
  used0 : s.regs.vlvf 0 ≠ 0 → ∃ q < 64, q ≠ cfg.pf ∧ s.regs.poolBit 0 q = true
  vfta0 : s.regs.vftaBit 0 = true ↔ s.active 0 = true ∨ s.regs.vlvf 0 ≠ 0

def VlanEvent.NotZero {n : ℕ} : VlanEvent n → Prop
  | .addVid vid => vid ≠ 0
  | .killVid vid => vid ≠ 0
  | .setVfVlan _ vid _ => vid ≠ 0
  | .clearVfVlans _ => True

/-- Slot 0 is out of use and VLAN 0 passes the VFTA. -/
structure ZeroIdle (t : VlanRegs) : Prop where
  word : t.vlvf 0 = 0
  pools : t.NoPools 0
  vfta : t.vftaBit 0 = true

namespace ZeroIdle

theorem setPool_writeVlvf (h : ZeroIdle t) {i p : ℕ} (hi : i ≠ 0) (hp : p < 64) (b : Bool)
    (x : U32) :
    ZeroIdle ((t.setPool i p b).writeVlvf i x) where
  word := (writeVlvf_vlvf_of_ne x (Ne.symm hi)).trans h.word
  pools q hq := (setPool_poolBit_of_slot_ne b hp hq (Ne.symm hi)).trans (h.pools q hq)
  vfta := h.vfta

theorem setVftaBit (h : ZeroIdle t) {v : ℕ} (hv : v ≠ 0) (b : Bool) :
    ZeroIdle (t.setVftaBit v b) where
  word := h.word
  pools := h.pools
  vfta := by
    rw [setVftaBit_vftaBit, if_neg (Ne.symm hv)]
    exact h.vfta

theorem vftaStep (h : ZeroIdle t) {v p : ℕ} (hv : v ≠ 0) (hp : p < 64) {on b : Bool} {e : ℤ}
    (hstep : VftaStep t v p on b (e, t')) : ZeroIdle t' := by
  have hslot : ∀ {i : ℕ}, SlotFor t v b i → i ≠ 0 := fun hs hi => hv (hs.eq_zero_iff.mp hi)
  cases hstep with
  | noSpace _ _ _ => exact h
  | vftaOnly _ _ _ => exact h.setVftaBit hv on
  | join _ i _ hs => exact (h.setPool_writeVlvf (hslot hs) hp true _).setVftaBit hv true
  | release _ i _ hs _ => exact (h.setPool_writeVlvf (hslot hs) hp false 0).setVftaBit hv false
  | leave _ i _ hs _ => exact h.setPool_writeVlvf (hslot hs) hp false _

theorem pfUpdate (h : ZeroIdle t) {promisc : Bool} {v : ℕ}
    (hup : PfUpdate t promisc cfg.pf v t') : ZeroIdle t' := by
  cases hup with
  | absent _ => exact h
  | keep _ _ _ _ _ _ => exact h
  | free i _ hi _ _ _ =>
    cases promisc with
    | true =>
      exact ⟨(writeVlvf_vlvf_of_ne 0 (by omega)).trans h.word, h.pools, h.vfta⟩
    | false => exact h.setPool_writeVlvf (by omega) cfg.pf_lt false 0

theorem vfVlan {s : VlanState} (h : ZeroIdle s.regs) {v vf : ℕ} (hv : v ≠ 0) (hvf : vf < 64)
    {add : Bool} {e : ℤ} (hstep : VfVlanStep s cfg.pf v vf add (e, t')) : ZeroIdle t' :=
  hstep.inv (P := ZeroIdle) (fun _ _ _ h1 ht => ht.vftaStep hv cfg.pf_lt h1)
    (fun _ _ _ h2 ht => ht.vftaStep hv hvf h2) (fun _ _ hup ht => ht.pfUpdate hup) h

theorem vfClear {s : VlanState} (h : ZeroIdle s.regs) (hshape : SlotShape s.regs)
    (vf : Fin cfg.numVfs) : ZeroIdle (clearVfVlans cfg.toPoolCfg s vf).regs := by
  refine (clearVfVlans_inv (P := fun t => SlotShape t ∧ ZeroIdle t) vf ?_ ⟨hshape, h⟩).2
  rintro t t' i hi hc ⟨hshape, h⟩
  refine ⟨hshape.clearSlot hc, ?_⟩
  have hvf := cfg.vf_lt vf
  have hi0 : t.poolBit i vf = true → i ≠ 0 := by
    rintro hbit rfl
    exact absurd hbit (ne_true_of_eq_false (h.pools vf hvf))
  have hleave : i ≠ 0 → ZeroIdle (t.setPool i vf false) := fun hi =>
    ⟨h.word, fun q hq => (setPool_poolBit_of_slot_ne false hvf hq (Ne.symm hi)).trans
      (h.pools q hq),
      h.vfta⟩
  cases hc with
  | absent _ => exact h
  | others hbit _ => exact hleave (hi0 hbit)
  | onlyPf hbit _ _ => exact (hleave (hi0 hbit)).setPool_writeVlvf (hi0 hbit) cfg.pf_lt _ 0
  | stale hbit _ _ => exact hleave (hi0 hbit)
  | last hbit _ hw =>
    have hpos := Nat.pos_of_ne_zero (hi0 hbit)
    obtain ⟨v, hv0, hwv⟩ := hshape.exists_vlan hpos hi hw
    refine (h.setPool_writeVlvf (hi0 hbit) hvf false 0).setVftaBit ?_ false
    rw [hwv, vlvfVid_vlvfWord (by omega)]
    exact fun h0 => hv0 (Fin.ext h0)

theorem step (hone : cfg.numRxPools = 1) (h : ZeroIdle s.regs) (hshape : SlotShape s.regs)
    (hprom : s.vlanPromisc = true) {e : VlanEvent cfg.numVfs} (he : e.NotZero) :
    ZeroIdle (vlanStep cfg s e).regs := by
  cases e with
  | addVid vid =>
    have hv0 : (vid : ℕ) ≠ 0 := fun h0 => he (Fin.ext h0)
    rw [vlanStep, vlanRxAddVid_one hone, hprom, if_neg (by simp [hv0])]
    exact h
  | killVid vid =>
    have hv0 : (vid : ℕ) ≠ 0 := fun h0 => he (Fin.ext h0)
    rw [vlanStep, vlanRxKillVid_one hone vid hv0, hprom, if_neg (by decide)]
    exact h
  | setVfVlan add vid vf =>
    exact h.vfVlan (fun h0 => he (Fin.ext h0)) (cfg.vf_lt vf)
      (setVfVlan_step cfg.pf_lt add (by omega) (cfg.vf_lt vf))
  | clearVfVlans vf => exact h.vfClear hshape vf

end ZeroIdle

theorem WellFormedFull.enter_zero (h : WellFormedFull cfg s) (hoff : s.vlanPromisc = false)
    (h0 : s.regs.vlvf 0 = 0) : ZeroIdle (vlanPromiscEnable cfg.toPoolCfg s).regs := by
  have he := vlanPromiscEnable_effect cfg hoff
  refine ⟨by rw [he.vlvf]; exact h0, fun q hq => ?_, he.vfta 0 (by decide)⟩
  rw [he.pools 0 (by decide) q hq, if_neg fun hc => absurd hc.1 (by decide)]
  exact (noPools_iff 0).mp (h.free0 h0) q hq

theorem InWindow.leave_zero (h : InWindow cfg s m) (hzero : ZeroIdle s.regs) :
    WellFormedFull cfg (vlanPromiscDisable cfg.toPoolCfg s) := by
  have hl := vlanPromiscDisable_effect cfg h.promisc
  have hword : (vlanPromiscDisable cfg.toPoolCfg s).regs.vlvf 0 = 0 := by
    rw [hl.vlvf]
    exact hzero.word
  refine ⟨h.leave.1, fun _ => ?_, fun hne => absurd hword hne, ?_⟩
  · refine (noPools_iff 0).mpr fun q hq => ?_
    rw [hl.pools 0 (by decide) q hq, if_neg fun hc => absurd hc.1 (by decide)]
    exact hzero.pools q hq
  · rw [hl.vfta 0 (by decide), active, active, hl.active]
    refine or_congr_right ⟨?_, fun hne => absurd hword hne⟩
    rintro ⟨j, hj1, hj2, hne, hvid⟩
    obtain ⟨v, hv0, hw⟩ := h.regs.members.shape.exists_vlan hj1 hj2 hne
    rw [hw, vlvfVid_vlvfWord (by omega)] at hvid
    exact absurd (Fin.ext hvid) hv0

/-- **The promiscuous window.** Every VLAN of `1..4095` passes the VFTA, and afterwards the table is
well formed, with the VFs exactly where the VF operations put them. Slot 0 may be included while it
is out of use and no operation names VLAN 0. -/
theorem promisc_window (cfg : SriovCfg) (hone : cfg.numRxPools = 1) (s : VlanState)
    (hvt : s.regs.VtOn) (hoff : s.vlanPromisc = false) (hwf : WellFormed cfg s)
    (es : List (VlanEvent cfg.numVfs)) :
    let s₁ := vlanPromiscEnable cfg.toPoolCfg s
    let s₂ := vlanPromiscDisable cfg.toPoolCfg (run (vlanStep cfg) s₁ es)
    (∀ v, 1 ≤ v → v ≤ 4095 → s₁.regs.vftaBit v = true) ∧
      After (vlanStep cfg) (fun s => ∀ v, 1 ≤ v → v ≤ 4095 → s.regs.vftaBit v = true) s₁ es ∧
      WellFormed cfg s₂ ∧
      vfMembers cfg s₂.regs = run (vfApply cfg) (vfMembers cfg s.regs) es ∧
      (WellFormedFull cfg s → s.regs.vlvf 0 = 0 → (∀ e ∈ es, e.NotZero) →
        s₁.regs.vftaBit 0 = true ∧ After (vlanStep cfg) (fun s => s.regs.vftaBit 0 = true) s₁ es ∧
          WellFormedFull cfg s₂) := by
  intro s₁ s₂
  have hstart : InWindow cfg s₁ (vfMembers cfg s.regs) := hwf.enter hvt hoff
  have hrun : InWindow cfg (run (vlanStep cfg) s₁ es)
      (run (vfApply cfg) (vfMembers cfg s.regs) es) :=
    run_sim (fun _ _ e h => h.step hone e) hstart
  refine ⟨hstart.regs.vfta, ?_, hrun.leave.1, hrun.leave.2, fun hfull h0 hes => ?_⟩
  · have hstep : ∀ s e, (∃ m, InWindow cfg s m) → True → ∃ m, InWindow cfg (vlanStep cfg s e) m :=
      fun s e ⟨m, h⟩ _ => ⟨_, h.step hone e⟩
    exact after_of_inv hstep (fun _ ⟨_, h⟩ => h.regs.vfta) ⟨_, hstart⟩
      (along_of_forall s₁ es fun _ _ => trivial)
  · have hzero := hfull.enter_zero hoff h0
    have hstep : ∀ s e, (ZeroIdle s.regs ∧ ∃ m, InWindow cfg s m) → VlanEvent.NotZero e →
        ZeroIdle (vlanStep cfg s e).regs ∧ ∃ m, InWindow cfg (vlanStep cfg s e) m :=
      fun s e ⟨hz, m, h⟩ he => ⟨hz.step hone h.regs.members.shape h.promisc he, _, h.step hone e⟩
    have hok : Along (vlanStep cfg) (fun _ e => e.NotZero) s₁ es := along_of_forall s₁ es hes
    refine ⟨hzero.vfta, ?_, hrun.leave_zero (run_inv hstep ⟨hzero, _, hstart⟩ hok).1⟩
    exact after_of_inv hstep (fun _ h => h.1.vfta) ⟨hzero, _, hstart⟩ hok

theorem wellFormed_of_free (hslot0 : s.regs.vlvf 0 = 0 ∨ s.regs.vlvf 0 = vlvfWord 0)
    (hvlvf : ∀ i, 1 ≤ i → i < 64 → s.regs.vlvf i = 0)
    (hpools : ∀ i, 1 ≤ i → i < 64 → s.regs.NoPools i)
    (hvfta : ∀ v, 1 ≤ v → v ≤ 4095 → s.regs.vftaBit v = false)
    (hact : ∀ v, s.active v = false) : WellFormed cfg s where
  shape := ⟨fun i h1 h2 => .inl (hvlvf i h1 h2),
    fun i h1 h2 _ _ _ _ hne => absurd (hvlvf i h1 h2) hne⟩
  slot0 := hslot0
  free i h1 h2 _ := (noPools_iff i).mpr (hpools i h1 h2)
  used i h1 h2 hne := absurd (hvlvf i h1 h2) hne
  vfta v h1 h2 := by
    rw [hvfta v h1 h2, hact]
    refine ⟨fun h => absurd h (by decide), ?_⟩
    rintro (h | ⟨i, h1, h2, hw⟩)
    · exact h
    · exact absurd (hw.symm.trans (hvlvf i h1 h2)) (vlvfWord_ne_zero v)
  pf i h1 h2 v _ hw := absurd (hw.symm.trans (hvlvf i h1 h2)) (vlvfWord_ne_zero v)

theorem promisc_window_join_leave :
    WellFormed oneVfCfg (vlanPromiscDisable oneVfCfg.toPoolCfg
      (run (vlanStep oneVfCfg)
        (vlanPromiscEnable oneVfCfg.toPoolCfg (clearedState vtOnlyRegs 0))
        [.addVid 7, .setVfVlan true 5 oneVf, .setVfVlan false 5 oneVf])) := by
  have hc := clearVftaGeneric_cleared vtOnlyRegs
  have hwf : WellFormed oneVfCfg (clearedState vtOnlyRegs 0) :=
    wellFormed_of_free (.inl (hc.vlvf 0 (by decide))) (fun i _ h => hc.vlvf i h)
      (fun i _ h => hc.pools i h) (fun v _ h => hc.vfta v h)
      fun v => by simp [active, clearedState, bit]
  exact (promisc_window oneVfCfg rfl (clearedState vtOnlyRegs 0)
    ((clearVftaGeneric_vtOn vtOnlyRegs).mpr (by decide)) rfl hwf _).2.2.1

/-- VF 0 is alone in VLAN 0: slot 0 holds it and VLAN 0 passes the VFTA. -/
def vlanZeroState : VlanState where
  regs := ((vtOnlyRegs.setPool 0 0 true).writeVlvf 0 (vlvfWord 0)).setVftaBit 0 true
  vlnctrl := 0
  activeVlans := fun _ => 0
  vlanPromisc := false

theorem wellFormedFull_vlanZeroState : WellFormedFull oneVfCfg vlanZeroState := by
  have hact : ∀ v, vlanZeroState.active v = false := fun v => by
    simp [active, vlanZeroState, bit]
  have hfree : ∀ i, 1 ≤ i → vlanZeroState.regs.vlvf i = 0 := fun i hi =>
    writeVlvf_vlvf_of_ne (t := vtOnlyRegs.setPool 0 0 true) (vlvfWord 0) (by omega : i ≠ 0)
  have hpools : ∀ i, 1 ≤ i → vlanZeroState.regs.NoPools i := fun i hi q hq => by
    have h : (vtOnlyRegs.setPool 0 0 true).poolBit i q = vtOnlyRegs.poolBit i q :=
      setPool_poolBit_of_slot_ne true (by decide) hq (by omega : i ≠ 0)
    exact h.trans (by simp [poolBit, vtOnlyRegs, bit])
  have hvfta : ∀ v, 1 ≤ v → vlanZeroState.regs.vftaBit v = false := fun v hv => by
    rw [vlanZeroState, setVftaBit_vftaBit, if_neg (by omega)]
    exact BitVec.getLsbD_zero
  refine ⟨wellFormed_of_free (.inr rfl) (fun i h _ => hfree i h) (fun i h _ => hpools i h)
    (fun v h _ => hvfta v h) hact, fun h => absurd h (by decide),
    fun _ => ⟨0, by decide, by decide, by decide⟩, iff_of_true (by decide) (.inr (by decide))⟩

/-- VF 0, alone in VLAN 0, is reset: VLAN 0 no longer passes the VFTA. -/
theorem vfta_zero_lost_in_window :
    WellFormedFull oneVfCfg vlanZeroState ∧ vlanZeroState.regs.VtOn ∧
      vlanZeroState.vlanPromisc = false ∧ oneVfCfg.numRxPools = 1 ∧
      ¬ After (vlanStep oneVfCfg) (fun s => ∀ v ≤ 4095, s.regs.vftaBit v = true)
        (vlanPromiscEnable oneVfCfg.toPoolCfg vlanZeroState) [.clearVfVlans oneVf] := by
  refine ⟨wellFormedFull_vlanZeroState, by decide, rfl, rfl, fun h => ?_⟩
  exact absurd (h.1 0 (by decide)) (by decide +kernel)

end Ixgbe
